import Pirc.P2p.Stun

/-!
# P2P: TURN messages

`turn/codec.rs` and the indications of `turn/client.rs`: messages of a relay have the header of STUN
messages and attributes of their own. Indications carry no `MESSAGE-INTEGRITY`, which is computed
for requests; those are not modelled.

## Main results

* `parseDataIndication_take`: one that is cut off is not read
-/

namespace Pirc.P2p

open Net Protocol Tlv

/-! ## Constants -/

def sendIndication : UInt16 := 0x0016

def dataIndication : UInt16 := 0x0017

def attrUsername : ℕ := 0x0006

def attrMessageIntegrity : ℕ := 0x0008

def attrErrorCode : ℕ := 0x0009

def attrChannelNumber : ℕ := 0x000C

def attrLifetime : ℕ := 0x000D

def attrXorPeerAddress : ℕ := 0x0012

def attrData : ℕ := 0x0013

def attrRealm : ℕ := 0x0014

def attrNonce : ℕ := 0x0015

def attrXorRelayedAddress : ℕ := 0x0016

def attrRequestedTransport : ℕ := 0x0019

def hmacSha1Len : ℕ := 20

/-! ## Messages -/

abbrev HmacValue := { bytes : List UInt8 // bytes.length = 20 }

inductive TurnAttribute
  | username (text : Str)
  | realm (text : Str)
  | nonce (text : Str)
  | messageIntegrity (hmac : HmacValue)
  | lifetime (seconds : UInt32)
  | xorRelayedAddress (addr : SocketAddr)
  | xorMappedAddress (addr : SocketAddr)
  | xorPeerAddress (addr : SocketAddr)
  | requestedTransport (protocol : UInt8)
  | channelNumber (channel : UInt16)
  | data (bytes : List UInt8)
  | errorCode (code : UInt16) (reason : Str)
  | unknown (type : UInt16) (value : List UInt8)
  deriving DecidableEq

/-- A TURN message. -/
structure TurnMessage where
  msgType : UInt16
  transactionId : TransactionId
  attributes : List TurnAttribute
  deriving DecidableEq

namespace TurnMessage

/-- An attribute; those without padding in the source have a multiple of four bytes. -/
def encodeAttribute (tid : TransactionId) : TurnAttribute → List UInt8
  | .username text => Tlv.encode attrUsername (utf8 text)
  | .realm text => Tlv.encode attrRealm (utf8 text)
  | .nonce text => Tlv.encode attrNonce (utf8 text)
  | .messageIntegrity hmac => Tlv.encode attrMessageIntegrity hmac
  | .lifetime seconds => Tlv.encode attrLifetime (bigEndian 4 seconds.toNat)
  | .xorRelayedAddress addr => Tlv.encode attrXorRelayedAddress (encodeXorAddress addr tid)
  | .xorMappedAddress addr => Tlv.encode attrXorMappedAddress (encodeXorAddress addr tid)
  | .xorPeerAddress addr => Tlv.encode attrXorPeerAddress (encodeXorAddress addr tid)
  | .requestedTransport protocol => Tlv.encode attrRequestedTransport [protocol, 0, 0, 0]
  | .channelNumber channel => Tlv.encode attrChannelNumber (bigEndian 2 channel.toNat ++ [0, 0])
  | .data bytes => Tlv.encode attrData bytes
  | .errorCode code reason =>
    Tlv.encode attrErrorCode
      ([0, 0, .ofNat (code / 100).toNat, .ofNat (code % 100).toNat] ++ utf8 reason)
  | .unknown type value => Tlv.encode type.toNat value

def toBytes (msg : TurnMessage) : List UInt8 :=
  messageBytes msg.msgType msg.transactionId
    (msg.attributes.flatMap (encodeAttribute msg.transactionId))

def parseXorAddress (tid : TransactionId) : List UInt8 → Except P2pError SocketAddr :=
  parseAddress .turn "XOR address" xorPort (xorKey tid)

def parseAttribute (tid : TransactionId) (type : ℕ) (value : List UInt8) :
    Except P2pError TurnAttribute :=
  if type = attrUsername then .ok (.username (fromUtf8Lossy value))
  else if type = attrRealm then .ok (.realm (fromUtf8Lossy value))
  else if type = attrNonce then .ok (.nonce (fromUtf8Lossy value))
  else if type = attrMessageIntegrity then
    if h : value.length = hmacSha1Len then .ok (.messageIntegrity ⟨value, h⟩)
    else
      .error (.turn ("MESSAGE-INTEGRITY wrong size: " ++ toString value.length ++ " (expected " ++
        toString hmacSha1Len ++ ")"))
  else if type = attrLifetime then
    if value.length < 4 then .error (.turn "LIFETIME too short")
    else .ok (.lifetime (.ofNat (ofBigEndian (value.take 4))))
  else if type = attrXorRelayedAddress then (parseXorAddress tid value).map .xorRelayedAddress
  else if type = attrXorMappedAddress then (parseXorAddress tid value).map .xorMappedAddress
  else if type = attrXorPeerAddress then (parseXorAddress tid value).map .xorPeerAddress
  else if type = attrRequestedTransport then
    match value with
    | [] => .error (.turn "REQUESTED-TRANSPORT empty")
    | protocol :: _ => .ok (.requestedTransport protocol)
  else if type = attrChannelNumber then
    if value.length < 4 then .error (.turn "CHANNEL-NUMBER too short")
    else .ok (.channelNumber (.ofNat (ofBigEndian (value.take 2))))
  else if type = attrData then .ok (.data value)
  else if type = attrErrorCode then
    match value with
    | _ :: _ :: code :: number :: reason =>
      .ok (.errorCode (code.toUInt16 * 100 + number.toUInt16) (fromUtf8Lossy reason))
    | _ => .error (.turn "ERROR-CODE too short")
  else .ok (.unknown (.ofNat type) value)

/-- A message is read as one of STUN first, with the attributes that one knows. -/
def fromBytes (data : List UInt8) : Except P2pError TurnMessage := do
  let stunMsg ← StunMessage.fromBytes data
  let attrs := (data.drop headerSize).take
    (min (data.length - headerSize) (ofBigEndian ((data.drop 2).take 2)))
  let attributes ← Tlv.scan (fun type len available => .turn (truncatedText type len available))
    (parseAttribute stunMsg.transactionId) attrs
  return { msgType := stunMsg.msgType, transactionId := stunMsg.transactionId, attributes }

def isDataIndication (msg : TurnMessage) : Bool := msg.msgType = dataIndication

def isSendIndication (msg : TurnMessage) : Bool := msg.msgType = sendIndication

def peerAddress (msg : TurnMessage) : Option SocketAddr :=
  msg.attributes.findSome? fun
    | .xorPeerAddress addr => some addr
    | _ => none

def data (msg : TurnMessage) : Option (List UInt8) :=
  msg.attributes.findSome? fun
    | .data bytes => some bytes
    | _ => none

/-- An indication of data to or from a peer. -/
def indication (msgType : UInt16) (peer : SocketAddr) (bytes : List UInt8) (tid : TransactionId) :
    TurnMessage where
  msgType := msgType
  transactionId := tid
  attributes := [.xorPeerAddress peer, .data bytes]

end TurnMessage

open TurnMessage

/-- What a Data Indication brings. -/
def parseDataIndication (bytes : List UInt8) : Except P2pError (SocketAddr × List UInt8) := do
  let msg ← TurnMessage.fromBytes bytes
  if ¬ msg.isDataIndication then
    throw (.turn ("not a Data Indication: 0x" ++ hex 4 msg.msgType.toNat))
  match msg.peerAddress with
  | none => throw (.turn "Data Indication missing XOR-PEER-ADDRESS")
  | some peer =>
    match msg.data with
    | none => throw (.turn "Data Indication missing DATA attribute")
    | some payload => return (peer, payload)

/-! ## Indications -/

section Indications

variable {msgType : UInt16} {peer : SocketAddr} {bytes : List UInt8} {tid : TransactionId}

def indicationAttrs (peer : SocketAddr) (bytes : List UInt8) (tid : TransactionId) :
    List (ℕ × List UInt8) :=
  [(attrXorPeerAddress, encodeXorAddress peer tid), (attrData, bytes)]

def indicationBytes (peer : SocketAddr) (bytes : List UInt8) (tid : TransactionId) : List UInt8 :=
  (indicationAttrs peer bytes tid).flatMap fun x => Tlv.encode x.1 x.2

theorem TurnMessage.toBytes_indication :
    (indication msgType peer bytes tid).toBytes =
      messageBytes msgType tid (indicationBytes peer bytes tid) := rfl

theorem length_encodeXorAddress_le (addr : SocketAddr) (tid : TransactionId) :
    (encodeXorAddress addr tid).length ≤ 20 := by
  have hoctets := length_octets addr.ip
  simp only [encodeXorAddress, xorBytes, List.length_cons, List.length_append, length_bigEndian,
    List.length_zipWith]
  omega

theorem length_indicationBytes :
    bytes.length ≤ (indicationBytes peer bytes tid).length ∧
      (indicationBytes peer bytes tid).length ≤ bytes.length + 34 := by
  have haddr := length_encodeXorAddress_le peer tid
  simp only [indicationBytes, indicationAttrs, List.flatMap_cons, List.flatMap_nil, List.append_nil,
    List.length_append, length_encode, padding]
  omega

section ReadBack

variable {attrs : List UInt8} {stunAttrs : List StunAttribute} {turnAttrs : List TurnAttribute}
  (htype : msgType &&& 0xC000 = 0) (hlt : attrs.length < 65536)
  (hstun : Tlv.scan (fun type len available => P2pError.stun (truncatedText type len available))
    (StunMessage.parseAttribute tid) attrs = .ok stunAttrs)
  (hturn : Tlv.scan (fun type len available => P2pError.turn (truncatedText type len available))
    (TurnMessage.parseAttribute tid) attrs = .ok turnAttrs)

include htype hlt hstun hturn

/-- **A message is read back** where both ways to read its attributes succeed, whatever follows
it. -/
theorem TurnMessage.fromBytes_messageBytes_append (rest : List UInt8) :
    TurnMessage.fromBytes (messageBytes msgType tid attrs ++ rest) =
      .ok { msgType := msgType, transactionId := tid, attributes := turnAttrs } := by
  have hroom : attrs.length ≤ (messageBytes msgType tid attrs ++ rest).length - headerSize := by
    rw [List.length_append, length_messageBytes, headerSize]
    omega
  obtain ⟨hread, htake, hlength⟩ := (@read_messageBytes_append _ tid) htype hlt rest
  simp only [TurnMessage.fromBytes, StunMessage.fromBytes, hread, htake, hlength, bind, Except.bind,
    pure, Except.pure, hstun, min_eq_right hroom, hturn]

theorem TurnMessage.fromBytes_messageBytes :
    TurnMessage.fromBytes (messageBytes msgType tid attrs) =
      .ok { msgType := msgType, transactionId := tid, attributes := turnAttrs } := by
  have happend := TurnMessage.fromBytes_messageBytes_append htype hlt hstun hturn []
  rwa [List.append_nil] at happend

end ReadBack

/-- **An indication is read back**; its peer has lost flow label and scope. -/
theorem TurnMessage.fromBytes_indication (htype : msgType &&& 0xC000 = 0)
    (hlt : (indicationBytes peer bytes tid).length < 65536) :
    TurnMessage.fromBytes (indication msgType peer bytes tid).toBytes =
      .ok (indication msgType (.new peer.ip peer.port) bytes tid) := by
  have hbytes : bytes.length < 65536 := length_indicationBytes.1.trans_lt hlt
  have haddr : (encodeXorAddress peer tid).length < 65536 :=
    (length_encodeXorAddress_le peer tid).trans_lt (by decide)
  have hpeerType : attrXorPeerAddress < 65536 := by decide
  have hdataType : attrData < 65536 := by decide
  have haddress : TurnMessage.parseAttribute tid attrXorPeerAddress (encodeXorAddress peer tid) =
      .ok (.xorPeerAddress (.new peer.ip peer.port)) :=
    congrArg (Except.map TurnAttribute.xorPeerAddress)
      (parseAddress_encodeXorAddress .turn "XOR address" peer tid)
  rw [TurnMessage.toBytes_indication]
  apply TurnMessage.fromBytes_messageBytes htype hlt
  · -- for STUN, both attributes are unknown
    exact scan_flatMap (.cons ⟨hpeerType, haddr, rfl⟩ (.cons ⟨hdataType, hbytes, rfl⟩ .nil))
  · exact scan_flatMap (.cons ⟨hpeerType, haddr, haddress⟩ (.cons ⟨hdataType, hbytes, rfl⟩ .nil))

/-- **A Data Indication brings** its sender and its data. -/
theorem parseDataIndication_indication
    (hlt : (indicationBytes peer bytes tid).length < 65536) :
    parseDataIndication (indication dataIndication peer bytes tid).toBytes =
      .ok (.new peer.ip peer.port, bytes) := by
  rw [parseDataIndication, TurnMessage.fromBytes_indication (by decide) hlt]
  rfl

theorem parseDataIndication_take {n : ℕ} (hlt : (indicationBytes peer bytes tid).length < 65536)
    (hn : n < 20 + (indicationBytes peer bytes tid).length) :
    ∃ e, parseDataIndication ((indication msgType peer bytes tid).toBytes.take n) = .error e := by
  obtain ⟨e, hread⟩ := (@read_take_messageBytes msgType tid) hlt hn
  refine ⟨e, ?_⟩
  rw [TurnMessage.toBytes_indication]
  simp only [parseDataIndication, TurnMessage.fromBytes, StunMessage.fromBytes, hread, bind,
    Except.bind]

theorem take_of_parseDataIndication {data : List UInt8} {x : SocketAddr × List UInt8}
    (h : parseDataIndication data = .ok x) : ofBigEndian (data.take 2) = 0x0017 := by
  obtain ⟨msg, hmsg, hrest⟩ := Except.bind_eq_ok.mp h
  obtain ⟨stunMsg, hstun, hattrs⟩ := Except.bind_eq_ok.mp hmsg
  obtain ⟨header, hheader, hscan⟩ := Except.bind_eq_ok.mp hstun
  have hread := Header.msgType_of_read hheader
  have htype : msg.msgType = header.msgType := by
    obtain ⟨_, -, hstunEq⟩ := Except.bind_eq_ok.mp hscan
    obtain ⟨_, -, hmsgEq⟩ := Except.bind_eq_ok.mp hattrs
    cases hstunEq
    cases hmsgEq
    rfl
  have hdata : msg.isDataIndication = true := by
    by_contra hother
    rw [if_pos hother] at hrest
    cases hrest
  have hlt := ofBigEndian_take_lt data
  have hval : (UInt16.ofNat (ofBigEndian (data.take 2))).toNat = 0x0017 := by
    rw [← hread, ← htype, of_decide_eq_true hdata]
    rfl
  rwa [UInt16.toNat_ofNat', Nat.mod_eq_of_lt hlt] at hval

end Indications

end Pirc.P2p
