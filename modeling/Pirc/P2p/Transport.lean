import Pirc.Lib.Run
import Pirc.P2p.Turn

/-!
# P2P: what a transport delivers

`transport.rs`: frames of payloads, sent straight to the peer or through a relay, and the binding
requests that keep a path open. A receiver takes a datagram for a frame by its length alone:
straight from the peer, a binding request is one, with the payload `[0]`; and through a relay, so is
whatever a third party had forwarded. Sockets lose, reorder and duplicate datagrams as they like.
-/

namespace Pirc.P2p

open Net Tlv

/-! ## Frames -/

def maxPayloadSize : ℕ := 1200

def frameHeaderSize : ℕ := 2

/-- A payload with its length in front. -/
def encodeFrame (payload : List UInt8) : Except P2pError (List UInt8) :=
  if payload = [] then .error (.ice "cannot send empty payload")
  else if maxPayloadSize < payload.length then
    .error (.ice ("payload too large: " ++ toString payload.length ++ " bytes (max " ++
      toString maxPayloadSize ++ ")"))
  else .ok (bigEndian 2 payload.length ++ payload)

/-- The payload of the frame in front; what follows it is ignored. -/
def decodeFrame (data : List UInt8) : Except P2pError (List UInt8) :=
  if data.length < frameHeaderSize then
    .error (.ice ("frame too short: " ++ toString data.length ++ " bytes (minimum " ++
      toString frameHeaderSize ++ ")"))
  else
    let len := ofBigEndian (data.take 2)
    if data.length < frameHeaderSize + len then
      .error (.ice ("frame truncated: header says " ++ toString len ++ " bytes, " ++
        toString (data.length - frameHeaderSize) ++ " available"))
    else if len = 0 then .error (.ice "frame with zero-length payload")
    else .ok ((data.drop frameHeaderSize).take len)

def Frames (data payload : List UInt8) : Prop :=
  payload ≠ [] ∧ payload.length < 65536 ∧ bigEndian 2 payload.length ++ payload <+: data

/-- **A payload is read** exactly where its frame is in front. -/
theorem decodeFrame_eq_ok {data payload : List UInt8} :
    decodeFrame data = .ok payload ↔ Frames data payload := by
  constructor
  · intro h
    unfold decodeFrame at h
    dsimp only at h
    split_ifs at h with hshort hcut hzero
    cases h
    have hlen : ((data.drop frameHeaderSize).take (ofBigEndian (data.take 2))).length =
        ofBigEndian (data.take 2) := by
      rw [List.length_take, List.length_drop]
      omega
    have hlt := ofBigEndian_take_lt data
    refine ⟨?_, ?_, ?_⟩
    · intro hnil
      rw [hnil] at hlen
      exact hzero hlen.symm
    · rw [hlen]
      exact hlt
    · -- length and payload are the bytes in front
      have htwo : (data.take 2).length = 2 := by
        rw [List.length_take]
        exact min_eq_left (Nat.le_of_not_lt hshort)
      have hlength : bigEndian 2 (ofBigEndian (data.take 2)) = data.take 2 := by
        have hback := bigEndian_ofBigEndian (data.take 2)
        rwa [htwo] at hback
      rw [hlen, hlength, frameHeaderSize, ← List.take_add]
      exact List.take_prefix _ _
  · rintro ⟨hne, hlt, rest, rfl⟩
    have hhead : ofBigEndian ((bigEndian 2 payload.length ++ payload ++ rest).take 2) =
        payload.length := by
      rw [List.append_assoc, List.take_left' (length_bigEndian _ _)]
      exact ofBigEndian_bigEndian_of_lt hlt
    have hpayload : ((bigEndian 2 payload.length ++ payload ++ rest).drop 2).take
        payload.length = payload := by
      rw [List.append_assoc, List.drop_left' (length_bigEndian _ _), List.take_left' rfl]
    have hpos : payload.length ≠ 0 := fun hzero => hne (List.eq_nil_of_length_eq_zero hzero)
    unfold decodeFrame
    simp only [hhead, List.length_append, length_bigEndian, frameHeaderSize]
    rw [if_neg (by omega), if_neg (by omega), if_neg hpos, hpayload]

theorem encodeFrame_eq_ok {payload frame : List UInt8} (h : encodeFrame payload = .ok frame) :
    decodeFrame frame = .ok payload ∧ frame.length ≤ frameHeaderSize + maxPayloadSize := by
  unfold encodeFrame at h
  split_ifs at h with hnil hlarge
  cases h
  have hle : payload.length ≤ 1200 := Nat.le_of_not_lt hlarge
  refine ⟨decodeFrame_eq_ok.mpr ⟨hnil, by omega, List.prefix_refl _⟩, ?_⟩
  rw [List.length_append, length_bigEndian]
  exact Nat.add_le_add_left hle 2

/-! ## Transports -/

/-- The two ways to send and to receive. -/
inductive P2pTransport
  | direct
  | relayed (peer : SocketAddr)
  deriving DecidableEq

def relayBufferSize : ℕ := 4096

/-- A binding request, as both transports send them from time to time. -/
def keepAlive (tid : TransactionId) : List UInt8 := (StunMessage.bindingRequestWithId tid).toBytes

namespace P2pTransport

def send (t : P2pTransport) (payload : List UInt8) (tid : TransactionId) :
    Except P2pError (List UInt8) :=
  match t with
  | direct => encodeFrame payload
  | relayed peer =>
    (encodeFrame payload).map fun frame =>
      (TurnMessage.indication sendIndication peer frame tid).toBytes

/-- What a receiver makes of a datagram, cut off at the end of its buffer. Through a relay it waits
for the next one where this one is no Data Indication, and whom that comes from is not looked at. -/
def recv (t : P2pTransport) (datagram : List UInt8) : Option (Except P2pError (List UInt8)) :=
  match t with
  | direct => some (decodeFrame (datagram.take (frameHeaderSize + maxPayloadSize)))
  | relayed _ =>
    match parseDataIndication (datagram.take relayBufferSize) with
    | .ok (_, data) => some (decodeFrame data)
    | .error _ => none

end P2pTransport

/-! ## Links -/

inductive Side
  | a
  | b
  deriving DecidableEq

def Side.other : Side → Side
  | a => b
  | b => a

@[simp] theorem Side.other_other (side : Side) : side.other.other = side := by cases side <;> rfl

/-- Address and port, which is what datagrams go by. -/
def endpoint (addr : SocketAddr) : IpAddr × UInt16 := (addr.ip, addr.port)

/-- A relay and how it knows the two ends. -/
structure Relay where
  addr : Side → SocketAddr
  distinct : endpoint (addr .a) ≠ endpoint (addr .b)

/-- A relay turns a Send Indication for one of the ends into a Data Indication with its sender. -/
def Relay.forward (relay : Relay) (sender : SocketAddr) (datagram : List UInt8)
    (tid : TransactionId) : List (Side × List UInt8) :=
  match TurnMessage.fromBytes datagram with
  | .error _ => []
  | .ok msg =>
    if msg.isSendIndication then
      match msg.peerAddress, msg.data with
      | some peer, some data =>
        ([.a, .b].filter fun side => endpoint (relay.addr side) = endpoint peer).map fun side =>
          (side, (TurnMessage.indication dataIndication sender data tid).toBytes)
      | _, _ => []
    else []

/-- Two transports for each other: with sockets connected to each other, or joined by a relay. -/
inductive Link
  | direct
  | relayed (relay : Relay)

def Link.transport : Link → Side → P2pTransport
  | direct, _ => .direct
  | relayed relay, side => .relayed (relay.addr side.other)

/-- What was sent and delivered at each end, and what may arrive, at an end or at the relay. -/
structure Network where
  sent : Side → List (List UInt8) := fun _ => []
  delivered : Side → List (List UInt8) := fun _ => []
  wire : List (Side × List UInt8) := []
  atRelay : List (SocketAddr × List UInt8) := []

/-- What can happen: a call of `send`, a keep-alive, a datagram of a third party to the relay, the
relay forwarding a datagram or answering with one of its own, and a datagram arriving at a `recv`.
A datagram may arrive any number of times, or never. -/
inductive NetworkEvent
  | send (side : Side) (payload : List UInt8) (tid : TransactionId)
  | keepAlive (side : Side) (tid : TransactionId)
  | thirdParty (sender : SocketAddr) (datagram : List UInt8)
  | forward (sender : SocketAddr) (datagram : List UInt8) (tid : TransactionId)
  | answer (side : Side) (datagram : List UInt8)
  | recv (side : Side) (datagram : List UInt8)
  deriving DecidableEq

def maxDatagramSize : ℕ := 65507

/-- **Faithful**: what was delivered to one end was passed to `send` at the other. -/
def Network.Faithful (n : Network) : Prop :=
  ∀ side, ∀ payload ∈ n.delivered side, payload ∈ n.sent side.other

namespace Link

variable (link : Link)

def emit (n : Network) (side : Side) (datagram : List UInt8) : Network :=
  match link with
  | direct => { n with wire := n.wire ++ [(side.other, datagram)] }
  | relayed relay => { n with atRelay := n.atRelay ++ [(relay.addr side, datagram)] }

def step (n : Network) : NetworkEvent → Network
  | .send side payload tid =>
    let n := { n with sent := Function.update n.sent side (n.sent side ++ [payload]) }
    match (link.transport side).send payload tid with
    | .ok datagram => link.emit n side datagram
    | .error _ => n
  | .keepAlive side tid => link.emit n side (P2p.keepAlive tid)
  | .thirdParty sender datagram => { n with atRelay := n.atRelay ++ [(sender, datagram)] }
  | .forward sender datagram tid =>
    match link with
    | direct => n
    | relayed relay => { n with wire := n.wire ++ relay.forward sender datagram tid }
  | .answer side datagram => { n with wire := n.wire ++ [(side, datagram)] }
  | .recv side datagram =>
    match (link.transport side).recv datagram with
    | some (.ok payload) =>
      { n with delivered := Function.update n.delivered side (n.delivered side ++ [payload]) }
    | _ => n

/-- Third parties have addresses of their own and are heard at the relay only; a relay sends what
fits, and no Data Indication of its own. -/
def Enabled (n : Network) : NetworkEvent → Prop
  | .send _ _ _ | .keepAlive _ _ => True
  | .thirdParty sender _ =>
    ∃ relay, link = .relayed relay ∧ ∀ side, endpoint sender ≠ endpoint (relay.addr side)
  | .forward sender datagram tid =>
    ∃ relay, link = .relayed relay ∧ (sender, datagram) ∈ n.atRelay ∧
      ∀ x ∈ relay.forward sender datagram tid, x.2.length ≤ maxDatagramSize
  | .answer _ datagram =>
    ∃ relay, link = .relayed relay ∧ ofBigEndian (datagram.take 2) ≠ dataIndication.toNat
  | .recv side datagram => (side, datagram) ∈ n.wire

def system : System Network NetworkEvent where
  enabled := link.Enabled
  step := link.step

/-- **Genuine events**: a binding request from the peer does no harm once the peer sent `[0]`; and
what a third party had the relay forward is no frame, or one of what the peer sent as well, or too
long for the receiver's buffer. -/
def Genuine (n : Network) : NetworkEvent → Prop
  | .recv side datagram =>
    match link with
    | direct => (∃ tid, datagram = P2p.keepAlive tid) → [0] ∈ n.sent side.other
    | relayed relay =>
      ∀ sender data tid,
        datagram = (TurnMessage.indication dataIndication sender data tid).toBytes →
        endpoint sender ≠ endpoint (relay.addr side.other) → datagram.length ≤ relayBufferSize →
          ∀ payload, Frames data payload → payload ∈ n.sent side.other
  | _ => True

end Link

/-! ## What is on its way -/

/-- What of an end's payloads the relay may have got from it. -/
inductive Relay.Gets (relay : Relay) (sent : Side → List (List UInt8)) :
    SocketAddr → List UInt8 → Prop
  | payload {side : Side} {payload frame : List UInt8} {tid : TransactionId}
      (hsent : payload ∈ sent side) (hframe : encodeFrame payload = .ok frame) :
      Gets relay sent (relay.addr side)
        (TurnMessage.indication sendIndication (relay.addr side.other) frame tid).toBytes
  | keepAlive (side : Side) (tid : TransactionId) :
      Gets relay sent (relay.addr side) (P2p.keepAlive tid)
  | thirdParty {sender : SocketAddr} (datagram : List UInt8)
      (h : ∀ side, endpoint sender ≠ endpoint (relay.addr side)) : Gets relay sent sender datagram

/-- What an end may get: from the other end, or through a relay also from third parties. -/
inductive Link.Gets (sent : Side → List (List UInt8)) : Link → Side → List UInt8 → Prop
  | frame {side : Side} {payload frame : List UInt8} (hsent : payload ∈ sent side.other)
      (hframe : encodeFrame payload = .ok frame) : Gets sent .direct side frame
  | keepAlive (side : Side) (tid : TransactionId) : Gets sent .direct side (P2p.keepAlive tid)
  | payload {relay : Relay} {side : Side} {payload frame : List UInt8} {tid : TransactionId}
      (hsent : payload ∈ sent side.other) (hframe : encodeFrame payload = .ok frame) :
      Gets sent (.relayed relay) side
        (TurnMessage.indication dataIndication (relay.addr side.other) frame tid).toBytes
  | thirdParty {relay : Relay} {side : Side} {sender : SocketAddr} {data : List UInt8}
      {tid : TransactionId} (hsender : endpoint sender ≠ endpoint (relay.addr side.other))
      (hsize : (TurnMessage.indication dataIndication sender data tid).toBytes.length ≤
        maxDatagramSize) :
      Gets sent (.relayed relay) side
        (TurnMessage.indication dataIndication sender data tid).toBytes
  | answer {relay : Relay} (side : Side) {datagram : List UInt8}
      (h : ofBigEndian (datagram.take 2) ≠ dataIndication.toNat) :
      Gets sent (.relayed relay) side datagram

/-- **The invariant**: everything on its way is what an end or the relay may get. -/
structure Link.Accounted (link : Link) (n : Network) : Prop where
  wire : ∀ side datagram, (side, datagram) ∈ n.wire → link.Gets n.sent side datagram
  atRelay : ∀ relay, link = .relayed relay → ∀ sender datagram, (sender, datagram) ∈ n.atRelay →
    relay.Gets n.sent sender datagram

section Accounted

variable {link : Link} {n : Network} {sent sent' : Side → List (List UInt8)}

theorem Relay.Gets.mono {relay : Relay} {sender : SocketAddr} {datagram : List UInt8}
    (h : relay.Gets sent sender datagram) (hsent : ∀ side, sent side ⊆ sent' side) :
    relay.Gets sent' sender datagram := by
  cases h with
  | payload hmem hframe => exact .payload (hsent _ hmem) hframe
  | keepAlive side tid => exact .keepAlive side tid
  | thirdParty _ h => exact .thirdParty _ h

theorem Link.Gets.mono {side : Side} {datagram : List UInt8} (h : link.Gets sent side datagram)
    (hsent : ∀ side, sent side ⊆ sent' side) : link.Gets sent' side datagram := by
  cases h with
  | frame hmem hframe => exact .frame (hsent _ hmem) hframe
  | keepAlive _ tid => exact .keepAlive side tid
  | payload hmem hframe => exact .payload (hsent _ hmem) hframe
  | thirdParty hsender hsize => exact .thirdParty hsender hsize
  | answer _ h => exact .answer side h

theorem Link.Accounted.emit (h : link.Accounted n) {side : Side} {datagram : List UInt8}
    (hdirect : link = .direct → link.Gets n.sent side.other datagram)
    (hrelay : ∀ relay, link = .relayed relay →
      relay.Gets n.sent (relay.addr side) datagram) :
    link.Accounted (link.emit n side datagram) := by
  cases link with
  | direct =>
    constructor
    · intro side' datagram' hmem
      rcases List.mem_append.mp hmem with hmem | hmem
      · exact h.wire side' datagram' hmem
      · cases List.mem_singleton.mp hmem
        exact hdirect rfl
    · intro relay hrelay'
      cases hrelay'
  | relayed relay =>
    constructor
    · exact h.wire
    · rintro _ ⟨⟩ sender datagram' hmem
      rcases List.mem_append.mp hmem with hmem | hmem
      · exact h.atRelay relay rfl sender datagram' hmem
      · cases List.mem_singleton.mp hmem
        exact hrelay relay rfl

theorem length_indicationBytes_frame {payload frame : List UInt8} {peer : SocketAddr}
    {tid : TransactionId} (h : encodeFrame payload = .ok frame) :
    (indicationBytes peer frame tid).length ≤ 1236 := by
  have hframe := (encodeFrame_eq_ok h).2
  have hbytes := ((@length_indicationBytes peer frame tid)).2
  simp only [frameHeaderSize, maxPayloadSize] at hframe
  omega

theorem Relay.forward_indication {relay : Relay} {sender peer : SocketAddr} {data : List UInt8}
    {tid tid' : TransactionId} (h : (indicationBytes peer data tid).length < 65536) :
    relay.forward sender (TurnMessage.indication sendIndication peer data tid).toBytes tid' =
      ([.a, .b].filter fun side => endpoint (relay.addr side) = endpoint peer).map fun side =>
        (side, (TurnMessage.indication dataIndication sender data tid').toBytes) := by
  rw [Relay.forward, TurnMessage.fromBytes_indication (by decide) h]
  simp [TurnMessage.indication, TurnMessage.isSendIndication, TurnMessage.peerAddress,
    TurnMessage.data, endpoint]

theorem Relay.forward_keepAlive {relay : Relay} {sender : SocketAddr} {tid tid' : TransactionId} :
    relay.forward sender (P2p.keepAlive tid) tid' = [] := by
  have hread : TurnMessage.fromBytes (P2p.keepAlive tid) =
      .ok { msgType := bindingRequest, transactionId := tid, attributes := [] } :=
    (@TurnMessage.fromBytes_messageBytes bindingRequest _ []) (by decide)
      (by decide) scan_nil scan_nil
  rw [Relay.forward, hread]
  rfl

theorem Relay.mem_forward {relay : Relay} {sender : SocketAddr} {datagram : List UInt8}
    {tid : TransactionId} {x : Side × List UInt8} (h : x ∈ relay.forward sender datagram tid) :
    ∃ data, x.2 = (TurnMessage.indication dataIndication sender data tid).toBytes := by
  unfold Relay.forward at h
  split at h
  · cases h
  · split_ifs at h
    split at h
    · obtain ⟨side, -, rfl⟩ := List.mem_map.mp h
      exact ⟨_, rfl⟩
    · cases h
    · cases h

theorem Relay.endpoint_addr_inj {relay : Relay} {side side' : Side}
    (h : endpoint (relay.addr side) = endpoint (relay.addr side')) : side = side' := by
  cases side <;> cases side'
  · rfl
  · exact absurd h relay.distinct
  · exact absurd h.symm relay.distinct
  · rfl

/-- **Forwarding** brings an end what it may get. -/
theorem Relay.Gets.forward {relay : Relay} {sender : SocketAddr} {datagram : List UInt8}
    {tid : TransactionId} (h : relay.Gets sent sender datagram) {side : Side} {bytes : List UInt8}
    (hmem : (side, bytes) ∈ relay.forward sender datagram tid)
    (hsize : bytes.length ≤ maxDatagramSize) : (Link.relayed relay).Gets sent side bytes := by
  cases h with
  | @payload side' payload frame tid' hsent hframe =>
    have hlen := (@length_indicationBytes_frame _ _ (relay.addr side'.other) tid') hframe
    rw [Relay.forward_indication (by omega)] at hmem
    obtain ⟨side'', hside, heq⟩ := List.mem_map.mp hmem
    have hother : side'' = side'.other :=
      relay.endpoint_addr_inj (of_decide_eq_true (List.mem_filter.mp hside).2)
    obtain ⟨rfl, rfl⟩ := Prod.mk.inj heq
    subst hother
    have hback : side' = side'.other.other := side'.other_other.symm
    have haddr : relay.addr side' = relay.addr side'.other.other := congrArg relay.addr hback
    rw [haddr]
    exact .payload (hback ▸ hsent) hframe
  | keepAlive side' tid' =>
    rw [Relay.forward_keepAlive] at hmem
    cases hmem
  | thirdParty _ hthird =>
    obtain ⟨data, rfl⟩ := Relay.mem_forward hmem
    exact .thirdParty (hthird _) hsize

/-- **The accounts are kept** by everything that can happen. -/
theorem Link.accounted_step (h : link.Accounted n) {e : NetworkEvent}
    (henabled : link.Enabled n e) : link.Accounted (link.step n e) := by
  cases e with
  | send side payload tid =>
    have hmore : ∀ side', n.sent side' ⊆
        Function.update n.sent side (n.sent side ++ [payload]) side' := by
      intro side'
      by_cases hside : side' = side
      · subst hside
        rw [Function.update_self]
        exact List.subset_append_left _ _
      · rw [Function.update_of_ne hside]
        exact List.Subset.refl _
    have hmem : payload ∈ Function.update n.sent side (n.sent side ++ [payload]) side := by
      simp
    have hsent : link.Accounted
        { n with sent := Function.update n.sent side (n.sent side ++ [payload]) } :=
      ⟨fun side' datagram hwire => (h.wire side' datagram hwire).mono hmore,
        fun relay hrelay sender datagram hgot =>
          (h.atRelay relay hrelay sender datagram hgot).mono hmore⟩
    unfold Link.step
    dsimp only
    cases hdatagram : (link.transport side).send payload tid with
    | error e => exact hsent
    | ok datagram =>
      apply hsent.emit
      · rintro rfl
        exact .frame (by rw [Side.other_other]; exact hmem) hdatagram
      · rintro relay rfl
        cases hframe : encodeFrame payload with
        | error e =>
          rw [Link.transport, P2pTransport.send, hframe] at hdatagram
          cases hdatagram
        | ok frame =>
          rw [Link.transport, P2pTransport.send, hframe] at hdatagram
          cases hdatagram
          exact .payload hmem hframe
  | keepAlive side tid =>
    apply h.emit
    · rintro rfl
      exact .keepAlive side.other tid
    · rintro relay rfl
      exact .keepAlive side tid
  | thirdParty sender datagram =>
    obtain ⟨relay, rfl, hthird⟩ := henabled
    refine ⟨h.wire, ?_⟩
    rintro _ ⟨⟩ sender' datagram' hmem
    rcases List.mem_append.mp hmem with hmem | hmem
    · exact h.atRelay relay rfl sender' datagram' hmem
    · cases List.mem_singleton.mp hmem
      exact .thirdParty datagram hthird
  | forward sender datagram tid =>
    obtain ⟨relay, rfl, hgot, hsize⟩ := henabled
    refine ⟨?_, h.atRelay⟩
    intro side bytes hmem
    rcases List.mem_append.mp hmem with hmem | hmem
    · exact h.wire side bytes hmem
    · exact (h.atRelay relay rfl sender datagram hgot).forward hmem (hsize _ hmem)
  | answer side datagram =>
    obtain ⟨relay, rfl, hother⟩ := henabled
    refine ⟨?_, h.atRelay⟩
    intro side' datagram' hmem
    rcases List.mem_append.mp hmem with hmem | hmem
    · exact h.wire side' datagram' hmem
    · cases List.mem_singleton.mp hmem
      exact .answer side hother
  | recv side datagram =>
    unfold Link.step
    dsimp only
    split
    · exact ⟨h.wire, h.atRelay⟩
    · exact h

/-! ## What is read -/

theorem recv_frame {payload frame : List UInt8} (h : encodeFrame payload = .ok frame) :
    P2pTransport.direct.recv frame = some (.ok payload) := by
  obtain ⟨hdecode, hlen⟩ := encodeFrame_eq_ok h
  rw [P2pTransport.recv, List.take_of_length_le hlen, hdecode]

/-- **A binding request is a frame**: type and length of the one are length and payload of the
other. -/
theorem recv_keepAlive (tid : TransactionId) :
    P2pTransport.direct.recv (P2p.keepAlive tid) = some (.ok [0]) := by
  have hlen : (P2p.keepAlive tid).length = 20 := by
    rw [P2p.keepAlive, StunMessage.toBytes_bindingRequestWithId, List.length_append, tid.property]
    rfl
  rw [P2pTransport.recv, List.take_of_length_le (by rw [hlen]; decide)]
  refine congrArg some (decodeFrame_eq_ok.mpr ⟨by decide, by decide, ?_⟩)
  rw [P2p.keepAlive, StunMessage.toBytes_bindingRequestWithId]
  exact ⟨[0x00, 0x21, 0x12, 0xA4, 0x42] ++ tid.val, rfl⟩

/-- **A Data Indication is read** if it fits into the buffer, whoever it comes from. -/
theorem recv_indication {peer sender : SocketAddr} {data : List UInt8} {tid : TransactionId}
    (hlt : (indicationBytes sender data tid).length < 65536) :
    (P2pTransport.relayed peer).recv
        (TurnMessage.indication dataIndication sender data tid).toBytes =
      if (TurnMessage.indication dataIndication sender data tid).toBytes.length ≤
          relayBufferSize then
        some (decodeFrame data)
      else none := by
  unfold P2pTransport.recv
  split_ifs with hfits
  · rw [List.take_of_length_le hfits, parseDataIndication_indication hlt]
  · rw [TurnMessage.toBytes_indication, length_messageBytes] at hfits
    obtain ⟨e, hcut⟩ := (@parseDataIndication_take dataIndication) hlt
      (Nat.lt_of_not_le hfits)
    rw [hcut]

theorem indication_inj {sender sender' : SocketAddr} {data data' : List UInt8}
    {tid tid' : TransactionId} (hlt : (indicationBytes sender data tid).length < 65536)
    (heq : (TurnMessage.indication dataIndication sender data tid).toBytes =
      (TurnMessage.indication dataIndication sender' data' tid').toBytes) :
    endpoint sender = endpoint sender' ∧ data = data' := by
  have hlen := congrArg List.length heq
  rw [TurnMessage.toBytes_indication, TurnMessage.toBytes_indication, length_messageBytes,
    length_messageBytes] at hlen
  have hparse := parseDataIndication_indication hlt
  rw [heq, parseDataIndication_indication (by omega)] at hparse
  obtain ⟨haddr, hdata⟩ := Prod.mk.inj (Except.ok.inj hparse)
  have hip := congrArg SocketAddr.ip haddr
  have hport := congrArg SocketAddr.port haddr
  rw [SocketAddr.ip_new, SocketAddr.ip_new] at hip
  rw [SocketAddr.port_new, SocketAddr.port_new] at hport
  exact ⟨Prod.ext hip.symm hport.symm, hdata.symm⟩

theorem take_indication (sender : SocketAddr) (data : List UInt8) (tid : TransactionId) :
    ofBigEndian ((TurnMessage.indication dataIndication sender data tid).toBytes.take 2) =
      dataIndication.toNat := by
  rw [TurnMessage.toBytes_indication, messageBytes, Header.toBytes, List.append_assoc,
    List.take_left' (length_bigEndian _ _)]
  exact ofBigEndian_bigEndian_of_lt dataIndication.toNat_lt

/-- **What arrives is genuine** exactly if the peer sent what is read of it. -/
theorem Link.Gets.genuine_iff {side : Side} {datagram : List UInt8}
    (h : link.Gets n.sent side datagram) :
    (∀ payload, (link.transport side).recv datagram = some (.ok payload) →
      payload ∈ n.sent side.other) ↔ link.Genuine n (.recv side datagram) := by
  cases h with
  | frame hsent hframe =>
    have hrecv := recv_frame hframe
    constructor
    · rintro - ⟨tid, rfl⟩
      rw [recv_keepAlive] at hrecv
      cases hrecv
      exact hsent
    · intro _ payload hread
      rw [Link.transport, hrecv] at hread
      cases hread
      exact hsent
  | keepAlive _ tid =>
    constructor
    · intro hread _
      exact hread [0] (recv_keepAlive tid)
    · intro hgenuine payload hread
      rw [Link.transport, recv_keepAlive] at hread
      cases hread
      exact hgenuine ⟨tid, rfl⟩
  | @payload relay _ payload frame tid hsent hframe =>
    have hlen := (@length_indicationBytes_frame _ _ (relay.addr side.other) tid) hframe
    constructor
    · intro _ sender data tid' heq hsender
      exact absurd (indication_inj (by omega) heq).1.symm hsender
    · intro _ payload' hread
      rw [Link.transport, recv_indication (by omega)] at hread
      split_ifs at hread
      rw [(encodeFrame_eq_ok hframe).1] at hread
      cases hread
      exact hsent
  | @thirdParty relay _ sender data tid hsender hsize =>
    have hlt : (indicationBytes sender data tid).length < 65536 := by
      rw [TurnMessage.toBytes_indication, length_messageBytes, maxDatagramSize] at hsize
      omega
    rw [Link.transport, recv_indication hlt]
    constructor
    · intro hread sender' data' tid' heq _ hfits payload hframes
      obtain ⟨-, rfl⟩ := indication_inj hlt heq
      apply hread payload
      rw [if_pos hfits, decodeFrame_eq_ok.mpr hframes]
    · intro hgenuine payload hread
      split_ifs at hread with hfits
      exact hgenuine sender data tid rfl hsender hfits payload
        (decodeFrame_eq_ok.mp (Option.some.inj hread))
  | answer _ hother =>
    constructor
    · rintro - sender data tid rfl
      exact absurd (take_indication sender data tid) hother
    · intro _ payload hread
      rw [Link.transport, P2pTransport.recv] at hread
      cases hparse : parseDataIndication (datagram.take relayBufferSize) with
      | error e =>
        rw [hparse] at hread
        cases hread
      | ok x =>
        have htype := take_of_parseDataIndication hparse
        rw [List.take_take] at htype
        exact absurd htype hother

/-! ## What is delivered -/

theorem Network.Faithful.of_sent {n' : Network} (h : n.Faithful)
    (hdelivered : n'.delivered = n.delivered) (hsent : ∀ side, n.sent side ⊆ n'.sent side) :
    n'.Faithful := by
  intro side payload hmem
  rw [hdelivered] at hmem
  exact hsent _ (h side payload hmem)

theorem Link.emit_sent (side : Side) (datagram : List UInt8) :
    (link.emit n side datagram).sent = n.sent ∧
      (link.emit n side datagram).delivered = n.delivered := by
  cases link with
  | direct => exact ⟨rfl, rfl⟩
  | relayed relay => exact ⟨rfl, rfl⟩

theorem Link.faithful_send (h : n.Faithful) (side : Side) (payload : List UInt8)
    (tid : TransactionId) : (link.step n (.send side payload tid)).Faithful := by
  have hmore : ∀ side', n.sent side' ⊆
      Function.update n.sent side (n.sent side ++ [payload]) side' := by
    intro side'
    by_cases hside : side' = side
    · subst hside
      rw [Function.update_self]
      exact List.subset_append_left _ _
    · rw [Function.update_of_ne hside]
      exact List.Subset.refl _
  unfold Link.step
  dsimp only
  split
  · next datagram _ =>
    obtain ⟨hsent, hdelivered⟩ := (@Link.emit_sent link
      { n with sent := Function.update n.sent side (n.sent side ++ [payload]) }) side datagram
    refine h.of_sent hdelivered ?_
    rw [hsent]
    exact hmore
  · exact h.of_sent rfl hmore

/-- **A `recv` keeps faith** exactly if the peer sent the payload it returns, if any. -/
theorem Link.faithful_recv (h : n.Faithful) (side : Side) (datagram : List UInt8) :
    (link.step n (.recv side datagram)).Faithful ↔
      ∀ payload, (link.transport side).recv datagram = some (.ok payload) →
        payload ∈ n.sent side.other := by
  unfold Link.step
  dsimp only
  split
  · next payload hread =>
    rw [hread]
    constructor
    · rintro hfaithful payload' ⟨⟩
      apply hfaithful side
      simp
    · intro hsent side' payload' hmem
      by_cases hside : side' = side
      · subst hside
        simp only [Function.update_self, List.mem_append, List.mem_singleton] at hmem
        rcases hmem with hmem | rfl
        · exact h side' payload' hmem
        · exact hsent payload' rfl
      · simp only [Function.update_of_ne hside] at hmem
        exact h side' payload' hmem
  · next hread => exact iff_of_true h fun payload hsome => absurd hsome (hread payload)

end Accounted

/-- **A link is faithful exactly as long as what is received is genuine**, whatever is lost, doubled
or late. -/
theorem faithful_iff_genuine (link : Link) {events : List NetworkEvent}
    (hlegal : System.Legal link.system System.Free {} events) :
    (∀ k, (link.system.exec {} (events.take k)).Faithful) ↔
      System.Legal link.system link.Genuine {} events := by
  have haccounted : link.Accounted {} := by
    constructor
    · intro _ _ hmem
      cases hmem
    · intro _ _ _ _ hmem
      cases hmem
  have hfaithful : ({} : Network).Faithful := by
    intro _ _ hmem
    cases hmem
  refine System.forall_take_iff_of_step (I := link.Accounted)
    (fun _ _ henabled h => link.accounted_step h henabled) ?_ hlegal haccounted hfaithful
  intro n e henabled h hf
  cases e with
  | send side payload tid => exact iff_of_true (Link.faithful_send hf side payload tid) trivial
  | keepAlive side tid =>
    obtain ⟨hsent, hdelivered⟩ := (@Link.emit_sent link n) side (P2p.keepAlive tid)
    refine iff_of_true (hf.of_sent hdelivered ?_) trivial
    intro side'
    have hsame : (link.system.step n (.keepAlive side tid)).sent = n.sent := hsent
    rw [hsame]
    exact List.Subset.refl _
  | thirdParty sender datagram =>
    exact iff_of_true (hf.of_sent rfl fun _ => List.Subset.refl _) trivial
  | forward sender datagram tid =>
    obtain ⟨relay, rfl, -⟩ := henabled
    exact iff_of_true (hf.of_sent rfl fun _ => List.Subset.refl _) trivial
  | answer side datagram =>
    exact iff_of_true (hf.of_sent rfl fun _ => List.Subset.refl _) trivial
  | recv side datagram =>
    exact (Link.faithful_recv hf side datagram).trans (h.wire side datagram henabled).genuine_iff

/-! ## A keep-alive, and a relayed message -/

section Examples

def zeroId : TransactionId := ⟨List.replicate 12 0, rfl⟩

/-- **A binding request is delivered**: one end sends nothing but a keep-alive, and the other end's
`recv` returns a payload. -/
theorem keepAlive_delivered :
    ¬ ∀ (link : Link) (events : List NetworkEvent),
      System.Legal link.system System.Free {} events →
        (link.system.exec {} events).Faithful := by
  intro h
  have hfaithful := h .direct [.keepAlive .a zeroId, .recv .b (P2p.keepAlive zeroId)]
    ⟨trivial, trivial, List.mem_singleton_self _, trivial, trivial⟩
  have hdelivered : ((Link.direct).system.exec {} [.keepAlive .a zeroId,
      .recv .b (P2p.keepAlive zeroId)]).delivered .b = [[0]] := by
    decide
  have hmem := hfaithful .b [0] (by rw [hdelivered]; exact List.mem_singleton_self _)
  cases hmem

def twoPorts : Relay where
  addr
    | .a => .v4 ⟨10, 0, 0, 1⟩ 5000
    | .b => .v4 ⟨10, 0, 0, 1⟩ 5001
  distinct := by decide

def relayedMessage : List NetworkEvent :=
  [.send .a [72, 105] zeroId,
    .forward (twoPorts.addr .a)
      (TurnMessage.indication sendIndication (twoPorts.addr .b) [0, 2, 72, 105] zeroId).toBytes
      zeroId,
    .recv .b
      (TurnMessage.indication dataIndication (twoPorts.addr .a) [0, 2, 72, 105] zeroId).toBytes]

theorem relayedMessage_faithful :
    (∀ k, ((Link.relayed twoPorts).system.exec {} (relayedMessage.take k)).Faithful) ∧
      ((Link.relayed twoPorts).system.exec {} relayedMessage).delivered .b = [[72, 105]] := by
  have harrives : (Side.b, (TurnMessage.indication dataIndication (twoPorts.addr .a) [0, 2, 72, 105]
      zeroId).toBytes) ∈
        ((Link.relayed twoPorts).system.exec {} (relayedMessage.take 2)).wire := by
    decide +kernel
  have hfree : System.Legal (Link.relayed twoPorts).system System.Free {} relayedMessage := by
    refine ⟨trivial, trivial, ⟨twoPorts, rfl, ?_, ?_⟩, trivial, harrives, trivial, trivial⟩
    · decide +kernel
    · decide +kernel
  have hgenuine : System.Legal (Link.relayed twoPorts).system (Link.relayed twoPorts).Genuine {}
      relayedMessage := by
    refine ⟨trivial, trivial, hfree.2.2.1, trivial, hfree.2.2.2.2.1, ?_, trivial⟩
    intro sender data tid heq hsender
    exact absurd (indication_inj (by decide +kernel) heq).1.symm hsender
  exact ⟨(faithful_iff_genuine _ hfree).mpr hgenuine, by decide +kernel⟩

end Examples

end Pirc.P2p
