import Pirc.P2p.Turn

/-!
# P2P: messages at their offsets

The readers of `stun.rs` and `turn/codec.rs` as they are written, with every index and every bound
of a slice, and the writer of `turn/codec.rs` with its `MESSAGE-INTEGRITY`. The readers never panic
and read the same as those that are given the rest of the bytes after each part.
-/

namespace Pirc.P2p

open Net Protocol Tlv

/-- Why a reader does not return a message. -/
inductive Failure
  | failed (error : P2pError)
  | panicked (text : String)
  deriving DecidableEq

instance : Panics Failure := ⟨.panicked⟩

/-! ## Addresses -/

/-- `Ipv4Addr::from` of 32 bits. -/
def ipv4FromBits (bits : ℕ) : Ipv4Addr :=
  ⟨.ofNat (bits / 256 / 256 / 256), .ofNat (bits / 256 / 256), .ofNat (bits / 256), .ofNat bits⟩

def parseXorAddressAt (err : String → P2pError) (name : String) (tid : TransactionId)
    (data : List UInt8) : Except Failure SocketAddr :=
  if data.length < 4 then .error (.failed (err (name ++ " too short")))
  else do
    let family ← item data 1
    let xport ← items 2 data 2
    let port := .ofNat (ofBigEndian xport) ^^^ xorPort
    if family = familyIpv4 then
      if data.length < 8 then .error (.failed (err (name ++ " IPv4 too short")))
      else do
        let xaddr ← items 4 data 4
        return .new (.v4 (ipv4FromBits (ofBigEndian xaddr ^^^ magicCookie))) port
    else if family = familyIpv6 then
      if data.length < 20 then .error (.failed (err (name ++ " IPv6 too short")))
      else do
        let xaddr ← items 16 data 4
        return .new (.v6 (.ofList (segmentsOf (xorBytes xaddr (xorKey tid))))) port
    else .error (.failed (err ("unknown address family: 0x" ++ hex 2 family.toNat)))

def parseMappedAddressAt (data : List UInt8) : Except Failure SocketAddr :=
  if data.length < 4 then .error (.failed (.stun "MAPPED-ADDRESS too short"))
  else do
    let family ← item data 1
    let portBytes ← items 2 data 2
    let port := .ofNat (ofBigEndian portBytes)
    if family = familyIpv4 then
      if data.length < 8 then .error (.failed (.stun "MAPPED-ADDRESS IPv4 too short"))
      else do
        let a ← item data 4
        let b ← item data 5
        let c ← item data 6
        let d ← item data 7
        return .new (.v4 ⟨a, b, c, d⟩) port
    else if family = familyIpv6 then
      if data.length < 20 then .error (.failed (.stun "MAPPED-ADDRESS IPv6 too short"))
      else do
        let addrBytes ← word 16 data 4
        return .new (.v6 (.ofList (segmentsOf addrBytes))) port
    else .error (.failed (.stun ("unknown address family: 0x" ++ hex 2 family.toNat)))

/-! ## Messages -/

def parseAttributesAt {A : Type} (err : String → P2pError)
    (parse : ℕ → List UInt8 → Except Failure A) (data : List UInt8) : Except Failure (List A) :=
  Tlv.scanFrom (fun type len available => .failed (err (truncatedText type len available))) parse
    data data.length 0

namespace StunMessage

def parseAttributeAt (tid : TransactionId) (type : ℕ) (value : List UInt8) :
    Except Failure StunAttribute :=
  if type = attrXorMappedAddress then do
    let addr ← parseXorAddressAt .stun "XOR-MAPPED-ADDRESS" tid value
    return .xorMappedAddress addr
  else if type = attrMappedAddress then do
    let addr ← parseMappedAddressAt value
    return .mappedAddress addr
  else .ok (.unknown (.ofNat type) value)

/-- `StunMessage::from_bytes`. -/
def fromBytesAt (data : List UInt8) : Except Failure StunMessage :=
  if data.length < headerSize then
    .error (.failed (.stun ("message too short: " ++ toString data.length ++ " bytes (minimum " ++
      toString headerSize ++ ")")))
  else do
    let typeBytes ← items 2 data 0
    let lenBytes ← items 2 data 2
    let cookieBytes ← items 4 data 4
    let msgType : UInt16 := .ofNat (ofBigEndian typeBytes)
    let msgLen := ofBigEndian lenBytes
    let cookie := ofBigEndian cookieBytes
    if cookie ≠ magicCookie then
      .error (.failed (.stun ("invalid magic cookie: 0x" ++ hex 8 cookie ++ " (expected 0x" ++
        hex 8 magicCookie ++ ")")))
    else if msgType &&& 0xC000 ≠ 0 then
      .error (.failed (.stun ("invalid message type: 0x" ++ hex 4 msgType.toNat ++
        " (top two bits must be zero)")))
    else do
      let transactionId ← word 12 data 8
      if data.length < headerSize + msgLen then do
        let available ← remaining data headerSize
        .error (.failed (.stun ("message truncated: header says " ++ toString msgLen ++
          " attribute bytes but only " ++ toString available ++ " available")))
      else do
        let attrData ← slice data headerSize (headerSize + msgLen)
        let attributes ← parseAttributesAt .stun (parseAttributeAt transactionId) attrData
        return { msgType, transactionId, attributes }

end StunMessage

namespace TurnMessage

def reasonAt (value : List UInt8) : Except Failure Str :=
  if 4 < value.length then do
    let reason ← slice value 4 value.length
    return fromUtf8Lossy reason
  else .ok []

def parseAttributeAt (tid : TransactionId) (type : ℕ) (value : List UInt8) :
    Except Failure TurnAttribute :=
  if type = attrUsername then .ok (.username (fromUtf8Lossy value))
  else if type = attrRealm then .ok (.realm (fromUtf8Lossy value))
  else if type = attrNonce then .ok (.nonce (fromUtf8Lossy value))
  else if type = attrMessageIntegrity then
    if value.length ≠ hmacSha1Len then
      .error (.failed (.turn ("MESSAGE-INTEGRITY wrong size: " ++ toString value.length ++
        " (expected " ++ toString hmacSha1Len ++ ")")))
    else do
      let hmac ← exactly 20 value
      return .messageIntegrity hmac
  else if type = attrLifetime then
    if value.length < 4 then .error (.failed (.turn "LIFETIME too short"))
    else do
      let seconds ← items 4 value 0
      return .lifetime (.ofNat (ofBigEndian seconds))
  else if type = attrXorRelayedAddress then do
    let addr ← parseXorAddressAt .turn "XOR address" tid value
    return .xorRelayedAddress addr
  else if type = attrXorMappedAddress then do
    let addr ← parseXorAddressAt .turn "XOR address" tid value
    return .xorMappedAddress addr
  else if type = attrXorPeerAddress then do
    let addr ← parseXorAddressAt .turn "XOR address" tid value
    return .xorPeerAddress addr
  else if type = attrRequestedTransport then
    if value = [] then .error (.failed (.turn "REQUESTED-TRANSPORT empty"))
    else do
      let protocol ← item value 0
      return .requestedTransport protocol
  else if type = attrChannelNumber then
    if value.length < 4 then .error (.failed (.turn "CHANNEL-NUMBER too short"))
    else do
      let channel ← items 2 value 0
      return .channelNumber (.ofNat (ofBigEndian channel))
  else if type = attrData then .ok (.data value)
  else if type = attrErrorCode then
    if value.length < 4 then .error (.failed (.turn "ERROR-CODE too short"))
    else do
      let hundreds ← item value 2
      let number ← item value 3
      let reason ← reasonAt value
      return .errorCode (hundreds.toUInt16 * 100 + number.toUInt16) reason
  else .ok (.unknown (.ofNat type) value)

/-- `TurnMessage::from_bytes`. -/
def fromBytesAt (data : List UInt8) : Except Failure TurnMessage := do
  let stunMsg ← StunMessage.fromBytesAt data
  let available ← remaining data headerSize
  let lenBytes ← items 2 data 2
  let attrData ← slice data headerSize (headerSize + min available (ofBigEndian lenBytes))
  let attributes ← parseAttributesAt .turn (parseAttributeAt stunMsg.transactionId) attrData
  return { msgType := stunMsg.msgType, transactionId := stunMsg.transactionId, attributes }

section Integrity

variable (hmacSha1 : List UInt8 → List UInt8 → HmacValue)

/-- What the code for a message is computed of: the header already counts the attribute that the
code will be in. -/
def hmacInput (msg : TurnMessage) : List UInt8 :=
  let attrsBytes := msg.attributes.flatMap (encodeAttribute msg.transactionId)
  { msgType := msg.msgType, length := attrsBytes.length + (4 + hmacSha1Len),
    transactionId := msg.transactionId : Header }.toBytes ++ attrsBytes

def integrity (msg : TurnMessage) (integrityKey : Option (List UInt8)) : List TurnAttribute :=
  match integrityKey with
  | some key => [.messageIntegrity (hmacSha1 key msg.hmacInput)]
  | none => []

/-- `TurnMessage::to_bytes`. -/
def toBytesWith (msg : TurnMessage) (integrityKey : Option (List UInt8)) : List UInt8 :=
  let attrsBytes := msg.attributes.flatMap (encodeAttribute msg.transactionId)
  let miBytes := match integrityKey with
    | some key =>
      bigEndian 2 attrMessageIntegrity ++ (bigEndian 2 hmacSha1Len ++ (hmacSha1 key msg.hmacInput).val)
    | none => []
  { msgType := msg.msgType, length := attrsBytes.length + miBytes.length,
    transactionId := msg.transactionId : Header }.toBytes ++ (attrsBytes ++ miBytes)

end Integrity

end TurnMessage

/-! ## Readers do not panic -/

section Offsets

variable {tid : TransactionId}

theorem ite_mapError {A : Type} {c : Prop} [Decidable c] {x y : Except Failure A}
    {x' y' : Except P2pError A} (hx : c → x = x'.mapError .failed) (hy : ¬ c → y = y'.mapError .failed) :
    (if c then x else y) = (if c then x' else y').mapError .failed := by
  split_ifs with hc
  · exact hx hc
  · exact hy hc

theorem ipv4FromBits_xor (a b c d : UInt8) (mask : ℕ) :
    ∃ w x y z, bigEndian 4 mask = [w, x, y, z] ∧
      ipv4FromBits (ofBigEndian [a, b, c, d] ^^^ mask) = ⟨a ^^^ w, b ^^^ x, c ^^^ y, d ^^^ z⟩ := by
  refine ⟨_, _, _, _, rfl, ?_⟩
  have hbytes := bigEndian_xor 4 (ofBigEndian [a, b, c, d]) mask
  rw [show bigEndian 4 (ofBigEndian [a, b, c, d]) = [a, b, c, d] from
    bigEndian_ofBigEndian [a, b, c, d]] at hbytes
  injection hbytes with ha hbytes
  injection hbytes with hb hbytes
  injection hbytes with hc hbytes
  injection hbytes with hd _
  rw [ipv4FromBits, ha, hb, hc, hd]

theorem parseXorAddressAt_eq (err : String → P2pError) (name : String) (data : List UInt8) :
    parseXorAddressAt err name tid data =
      (parseAddress err name xorPort (xorKey tid) data).mapError .failed := by
  obtain - | ⟨r, - | ⟨family, - | ⟨p₁, - | ⟨p₂, rest⟩⟩⟩⟩ := data
  iterate 4 rfl
  · have hlong : ¬ (r :: family :: p₁ :: p₂ :: rest).length < 4 := by simp
    have hfamily : item (r :: family :: p₁ :: p₂ :: rest) 1 = (.ok family : Except Failure UInt8) := rfl
    have hport : items 2 (r :: family :: p₁ :: p₂ :: rest) 2 =
        (.ok [p₁, p₂] : Except Failure (List UInt8)) := rfl
    rw [parseXorAddressAt, if_neg hlong]
    simp only [hfamily, hport, bind, Except.bind, parseAddress]
    by_cases hv4 : family = familyIpv4
    · rw [if_pos hv4, if_pos hv4]
      obtain - | ⟨a, - | ⟨b, - | ⟨c, - | ⟨d, rest⟩⟩⟩⟩ := rest
      iterate 4 rfl
      · obtain ⟨w, x, y, z, hmask, hip⟩ := ipv4FromBits_xor a b c d magicCookie
        have hroom : ¬ (r :: family :: p₁ :: p₂ :: a :: b :: c :: d :: rest).length < 8 := by simp
        have haddr : items 4 (r :: family :: p₁ :: p₂ :: a :: b :: c :: d :: rest) 4 =
            (.ok [a, b, c, d] : Except Failure (List UInt8)) := rfl
        have hxor : xorBytes (a :: b :: c :: d :: rest) (xorKey tid) =
            (a ^^^ w) :: (b ^^^ x) :: (c ^^^ y) :: (d ^^^ z) :: xorBytes rest tid.val := by
          rw [xorKey, hmask]
          rfl
        rw [if_neg hroom, haddr, hxor]
        simp only [hip]
        rfl
    · rw [if_neg hv4, if_neg hv4]
      split_ifs with hv6 hroom hroom' hroom'
      · rfl
      · simp only [List.length_cons] at hroom
        omega
      · simp only [List.length_cons] at hroom
        omega
      · have haddr : items 16 (r :: family :: p₁ :: p₂ :: rest) 4 =
            (.ok (rest.take 16) : Except Failure (List UInt8)) :=
          items_eq_ok (by simp only [List.length_cons]; omega)
        rw [haddr]
        rfl
      · rfl

theorem xorBytes_zeros {bytes : List UInt8} {n : ℕ} (h : bytes.length ≤ n) :
    xorBytes bytes (List.replicate n 0) = bytes := by
  induction bytes generalizing n with
  | nil => rfl
  | cons byte bytes ih =>
    obtain ⟨n, rfl⟩ : ∃ k, n = k + 1 := ⟨n - 1, by simp only [List.length_cons] at h; omega⟩
    have hrest : xorBytes bytes (List.replicate n 0) = bytes := ih (Nat.le_of_succ_le_succ h)
    rw [List.replicate_succ, xorBytes, List.zipWith_cons_cons, UInt8.xor_zero]
    exact congrArg (byte :: ·) hrest

theorem parseMappedAddressAt_eq (data : List UInt8) :
    parseMappedAddressAt data = (parseMappedAddress data).mapError .failed := by
  obtain - | ⟨r, - | ⟨family, - | ⟨p₁, - | ⟨p₂, rest⟩⟩⟩⟩ := data
  iterate 4 rfl
  · have hlong : ¬ (r :: family :: p₁ :: p₂ :: rest).length < 4 := by simp
    have hfamily : item (r :: family :: p₁ :: p₂ :: rest) 1 = (.ok family : Except Failure UInt8) := rfl
    have hport : items 2 (r :: family :: p₁ :: p₂ :: rest) 2 =
        (.ok [p₁, p₂] : Except Failure (List UInt8)) := rfl
    rw [parseMappedAddressAt, if_neg hlong]
    simp only [hfamily, hport, bind, Except.bind, parseMappedAddress, parseAddress, UInt16.xor_zero]
    by_cases hv4 : family = familyIpv4
    · rw [if_pos hv4, if_pos hv4]
      obtain - | ⟨a, - | ⟨b, - | ⟨c, - | ⟨d, rest⟩⟩⟩⟩ := rest
      iterate 4 rfl
      · have hxor : xorBytes (a :: b :: c :: d :: rest) (List.replicate 16 0) =
            a :: b :: c :: d :: xorBytes rest (List.replicate 12 0) := by
          simp [xorBytes, List.replicate_succ]
        rw [hxor]
        rfl
    · rw [if_neg hv4, if_neg hv4]
      split_ifs with hv6 hroom hroom' hroom'
      · rfl
      · simp only [List.length_cons] at hroom
        omega
      · simp only [List.length_cons] at hroom
        omega
      · have hle : 4 + 16 ≤ (r :: family :: p₁ :: p₂ :: rest).length := not_lt.mp hroom
        rw [word_eq_ok hle, xorBytes_zeros (List.length_take_le ..)]
        rfl
      · rfl

theorem parseAttributesAt_eq {A : Type} {err : String → P2pError}
    {parse : ℕ → List UInt8 → Except P2pError A} {parseAt : ℕ → List UInt8 → Except Failure A}
    (hparse : ∀ type value, parseAt type value = (parse type value).mapError .failed)
    (data : List UInt8) :
    parseAttributesAt err parseAt data =
      (Tlv.scan (fun type len available => err (truncatedText type len available)) parse
        data).mapError .failed := by
  have htruncated (type len available : ℕ) :
      Failure.failed (err (truncatedText type len available)) =
        Failure.failed (err (truncatedText type len available)) := rfl
  exact scanFrom_eq htruncated hparse data data.length 0

theorem StunMessage.parseAttributeAt_eq (type : ℕ) (value : List UInt8) :
    parseAttributeAt tid type value = (parseAttribute tid type value).mapError .failed := by
  unfold parseAttributeAt parseAttribute
  split_ifs
  · rw [parseXorAddressAt_eq, parseXorMappedAddress]
    cases parseAddress .stun "XOR-MAPPED-ADDRESS" xorPort (xorKey tid) value <;> rfl
  · rw [parseMappedAddressAt_eq]
    cases parseMappedAddress value <;> rfl
  · rfl

theorem Header.le_length_of_read {data : List UInt8} {header : Header}
    (h : Header.read data = .ok header) : 20 ≤ data.length := by
  by_contra hshort
  have hlt : data.length < headerSize := not_le.mp hshort
  rw [Header.read, dif_pos hlt] at h
  cases h

/-- **No bytes make the reader panic**, which reads the same. -/
theorem StunMessage.fromBytesAt_eq (data : List UInt8) :
    fromBytesAt data = (fromBytes data).mapError .failed := by
  unfold fromBytesAt fromBytes Header.read
  by_cases hshort : data.length < headerSize
  · rw [if_pos hshort, dif_pos hshort]
    rfl
  rw [if_neg hshort, dif_neg hshort]
  have hlen : 20 ≤ data.length := not_lt.mp hshort
  have hsub : headerSize ≤ data.length := hlen
  rw [items_eq_ok (by omega), items_eq_ok (by omega), items_eq_ok (by omega), word_eq_ok (by omega)]
  simp only [bind, Except.bind, List.drop_zero]
  split_ifs with hcookie htype hroom
  · rfl
  · rfl
  · rw [remaining_eq_ok hsub]
    rfl
  · rw [slice_eq_ok (Nat.le_add_right ..) (not_lt.mp hroom), Nat.add_sub_cancel_left]
    simp only [parseAttributesAt_eq StunMessage.parseAttributeAt_eq]
    cases Tlv.scan (fun type len available => P2pError.stun (truncatedText type len available)) _ _ <;>
      rfl

theorem TurnMessage.reasonAt_eq (a b c d : UInt8) (reason : List UInt8) :
    reasonAt (a :: b :: c :: d :: reason) = .ok (fromUtf8Lossy reason) := by
  cases reason with
  | nil => rfl
  | cons e reason =>
    have hlong : 4 < (a :: b :: c :: d :: e :: reason).length := by simp
    rw [reasonAt, if_pos hlong, slice_eq_ok hlong.le le_rfl, List.take_of_length_le (by simp)]
    rfl

theorem TurnMessage.parseAttributeAt_eq (type : ℕ) (value : List UInt8) :
    parseAttributeAt tid type value = (parseAttribute tid type value).mapError .failed := by
  have haddress : ∀ f : SocketAddr → TurnAttribute,
      (do let addr ← parseXorAddressAt .turn "XOR address" tid value; return f addr) =
        ((parseXorAddress tid value).map f).mapError .failed := by
    intro f
    rw [parseXorAddressAt_eq, parseXorAddress]
    cases parseAddress .turn "XOR address" xorPort (xorKey tid) value <;> rfl
  refine ite_mapError (fun _ => rfl) fun _ => ?_
  refine ite_mapError (fun _ => rfl) fun _ => ?_
  refine ite_mapError (fun _ => rfl) fun _ => ?_
  refine ite_mapError (fun _ => ?_) fun _ => ?_
  · by_cases hlen : value.length = hmacSha1Len
    · rw [if_neg (not_not.mpr hlen), dif_pos hlen, exactly_eq_ok (n := 20) hlen]
      rfl
    · rw [if_pos hlen, dif_neg hlen]
      rfl
  refine ite_mapError (fun _ => ite_mapError (fun _ => rfl) fun hlong => ?_) fun _ => ?_
  · rw [items_eq_ok (by omega)]
    rfl
  refine ite_mapError (fun _ => haddress _) fun _ => ?_
  refine ite_mapError (fun _ => haddress _) fun _ => ?_
  refine ite_mapError (fun _ => haddress _) fun _ => ?_
  refine ite_mapError (fun _ => ?_) fun _ => ?_
  · cases value <;> rfl
  refine ite_mapError (fun _ => ite_mapError (fun _ => rfl) fun hlong => ?_) fun _ => ?_
  · rw [items_eq_ok (by omega)]
    rfl
  refine ite_mapError (fun _ => rfl) fun _ => ?_
  refine ite_mapError (fun _ => ?_) fun _ => rfl
  match value with
  | [] | [_] | [_, _] | [_, _, _] => rfl
  | a :: b :: c :: d :: reason =>
    have hlong : ¬ (a :: b :: c :: d :: reason).length < 4 := by simp
    rw [if_neg hlong, reasonAt_eq]
    rfl

/-- **No bytes make the reader panic**, which reads the same. -/
theorem TurnMessage.fromBytesAt_eq (data : List UInt8) :
    fromBytesAt data = (fromBytes data).mapError .failed := by
  unfold fromBytesAt fromBytes
  rw [StunMessage.fromBytesAt_eq]
  cases hstun : StunMessage.fromBytes data with
  | error e => rfl
  | ok stunMsg =>
    obtain ⟨header, hheader, -⟩ := Except.bind_eq_ok.mp hstun
    have hlen : 20 ≤ data.length := Header.le_length_of_read hheader
    have hsub : headerSize ≤ data.length := hlen
    have hitems : items 2 data 2 = (.ok ((data.drop 2).take 2) : Except Failure (List UInt8)) :=
      items_eq_ok (by omega)
    have hattrs (n : ℕ) : slice data headerSize (headerSize + min (data.length - headerSize) n) =
        (.ok ((data.drop headerSize).take (min (data.length - headerSize) n)) :
          Except Failure (List UInt8)) := by
      rw [slice_eq_ok (Nat.le_add_right ..) (by omega), Nat.add_sub_cancel_left]
    simp only [bind, Except.bind, Except.mapError, remaining_eq_ok hsub, hitems, hattrs,
      parseAttributesAt_eq TurnMessage.parseAttributeAt_eq]
    cases Tlv.scan (fun type len available => P2pError.turn (truncatedText type len available)) _ _ <;>
      rfl

end Offsets


/-! ## Messages that can be read back -/

def Plain : SocketAddr → Prop
  | .v4 .. => True
  | .v6 _ _ flowinfo scopeId => flowinfo = 0 ∧ scopeId = 0

theorem Plain.new_eq {addr : SocketAddr} (h : Plain addr) : .new addr.ip addr.port = addr := by
  cases addr with
  | v4 ip port => rfl
  | v6 ip port flowinfo scopeId =>
    obtain ⟨rfl, rfl⟩ := h
    rfl

namespace StunAttribute

def Readable : StunAttribute → Prop
  | xorMappedAddress addr | mappedAddress addr => Plain addr
  | unknown type _ => type.toNat ≠ attrXorMappedAddress ∧ type.toNat ≠ attrMappedAddress

def type : StunAttribute → ℕ
  | xorMappedAddress _ => attrXorMappedAddress
  | mappedAddress _ => attrMappedAddress
  | unknown type _ => type.toNat

def value (tid : TransactionId) : StunAttribute → List UInt8
  | xorMappedAddress addr => encodeXorAddress addr tid
  | mappedAddress addr => StunMessage.encodeMappedAddress addr
  | unknown _ value => value

end StunAttribute

structure StunMessage.Readable (msg : StunMessage) : Prop where
  msgType : msg.msgType &&& 0xC000 = 0
  attributes : ∀ attr ∈ msg.attributes, attr.Readable
  length_le : (msg.attributes.flatMap (encodeAttribute msg.transactionId)).length ≤ 65535

namespace TurnAttribute

def assigned : List ℕ :=
  [attrUsername, attrMessageIntegrity, attrErrorCode, attrChannelNumber, attrLifetime,
    attrXorPeerAddress, attrData, attrRealm, attrNonce, attrXorRelayedAddress,
    attrRequestedTransport, attrXorMappedAddress]

/-- The address is plain, the code fits, or the type is of no other attribute; the reader of STUN
comes first, and one type is of an attribute there. -/
def Readable : TurnAttribute → Prop
  | xorRelayedAddress addr | xorMappedAddress addr | xorPeerAddress addr => Plain addr
  | errorCode code _ => code.toNat ≤ 25599
  | unknown type _ => type.toNat ∉ attrMappedAddress :: assigned
  | _ => True

def type : TurnAttribute → ℕ
  | username _ => attrUsername
  | realm _ => attrRealm
  | nonce _ => attrNonce
  | messageIntegrity _ => attrMessageIntegrity
  | lifetime _ => attrLifetime
  | xorRelayedAddress _ => attrXorRelayedAddress
  | xorMappedAddress _ => attrXorMappedAddress
  | xorPeerAddress _ => attrXorPeerAddress
  | requestedTransport _ => attrRequestedTransport
  | channelNumber _ => attrChannelNumber
  | data _ => attrData
  | errorCode _ _ => attrErrorCode
  | unknown type _ => type.toNat

def value (tid : TransactionId) : TurnAttribute → List UInt8
  | username text | realm text | nonce text => utf8 text
  | messageIntegrity hmac => hmac
  | lifetime seconds => bigEndian 4 seconds.toNat
  | xorRelayedAddress addr | xorMappedAddress addr | xorPeerAddress addr => encodeXorAddress addr tid
  | requestedTransport protocol => [protocol, 0, 0, 0]
  | channelNumber channel => bigEndian 2 channel.toNat ++ [0, 0]
  | data bytes => bytes
  | errorCode code reason =>
    [0, 0, .ofNat (code / 100).toNat, .ofNat (code % 100).toNat] ++ utf8 reason
  | unknown _ value => value

end TurnAttribute

/-- A message whose attributes take so many bytes at most. -/
structure TurnMessage.Readable (msg : TurnMessage) (size : ℕ) : Prop where
  msgType : msg.msgType &&& 0xC000 = 0
  attributes : ∀ attr ∈ msg.attributes, attr.Readable
  length_le : (msg.attributes.flatMap (encodeAttribute msg.transactionId)).length ≤ size

section ReadBack

variable {tid : TransactionId}

theorem encodeMappedAddress_eq (addr : SocketAddr) :
    StunMessage.encodeMappedAddress addr = maskedAddress 0 (List.replicate 16 0) addr := by
  rw [maskedAddress, xorBytes_zeros (length_octets addr.ip), UInt16.xor_zero]
  rfl

namespace StunAttribute

theorem encodeAttribute_eq (attr : StunAttribute) :
    StunMessage.encodeAttribute tid attr = Tlv.encode attr.type (attr.value tid) := by
  cases attr <;> rfl

theorem type_lt (attr : StunAttribute) : attr.type < 65536 := by
  cases attr with
  | xorMappedAddress addr => exact show attrXorMappedAddress < 65536 by decide
  | mappedAddress addr => exact show attrMappedAddress < 65536 by decide
  | unknown type value => exact type.toNat_lt

/-- **Each attribute is read back.** -/
theorem Readable.parseAttribute_eq {attr : StunAttribute} (h : attr.Readable) :
    StunMessage.parseAttribute tid attr.type (attr.value tid) = .ok attr := by
  cases attr with
  | xorMappedAddress addr =>
    have hread : parseXorMappedAddress tid (encodeXorAddress addr tid) = .ok addr := by
      rw [parseXorMappedAddress, parseAddress_encodeXorAddress, Plain.new_eq h]
    exact congrArg (Except.map xorMappedAddress) hread
  | mappedAddress addr =>
    have hread : parseMappedAddress (StunMessage.encodeMappedAddress addr) = .ok addr := by
      rw [encodeMappedAddress_eq, parseMappedAddress, parseAddress_maskedAddress _ _ _ _ (by simp),
        Plain.new_eq h]
    exact congrArg (Except.map mappedAddress) hread
  | unknown type value =>
    have hread := StunMessage.parseAttribute.eq_1 tid type.toNat value
    rwa [if_neg h.1, if_neg h.2, UInt16.ofNat_toNat] at hread

end StunAttribute

namespace TurnAttribute

theorem encodeAttribute_eq (attr : TurnAttribute) :
    TurnMessage.encodeAttribute tid attr = Tlv.encode attr.type (attr.value tid) := by
  cases attr <;> rfl

theorem type_cases (attr : TurnAttribute) :
    attr.type ∈ assigned ∨ ∃ type value, attr = unknown type value := by
  cases attr with
  | unknown type value => exact .inr ⟨type, value, rfl⟩
  | _ => exact .inl (by simp [type, assigned])

theorem type_lt (attr : TurnAttribute) : attr.type < 65536 := by
  have hassigned : ∀ type ∈ assigned, type < 65536 := by decide
  rcases attr.type_cases with hmem | ⟨type, value, rfl⟩
  · exact hassigned _ hmem
  · exact type.toNat_lt

theorem toNat_errorCode {code : UInt16} (h : code.toNat ≤ 25599) :
    (UInt8.ofNat (code / 100).toNat).toUInt16 * 100 + (UInt8.ofNat (code % 100).toNat).toUInt16 =
      code := by
  apply UInt16.toNat_inj.mp
  have hdiv : (code / 100).toNat = code.toNat / 100 := UInt16.toNat_div ..
  have hmod : (code % 100).toNat = code.toNat % 100 := UInt16.toNat_mod ..
  rw [UInt16.toNat_add, UInt16.toNat_mul, UInt8.toNat_toUInt16, UInt8.toNat_toUInt16, hdiv, hmod,
    UInt8.toNat_ofNat', UInt8.toNat_ofNat']
  have h100 : (100 : UInt16).toNat = 100 := rfl
  have hhundreds : code.toNat / 100 % 2 ^ 8 = code.toNat / 100 := by omega
  have hrest : code.toNat % 100 % 2 ^ 8 = code.toNat % 100 := by omega
  rw [h100, hhundreds, hrest]
  omega

/-- **Each attribute is read back.** -/
theorem Readable.parseAttribute_eq {attr : TurnAttribute} (h : attr.Readable) :
    TurnMessage.parseAttribute tid attr.type (attr.value tid) = .ok attr := by
  have haddress {addr : SocketAddr} (haddr : Plain addr) :
      TurnMessage.parseXorAddress tid (encodeXorAddress addr tid) = .ok addr := by
    rw [TurnMessage.parseXorAddress, parseAddress_encodeXorAddress, haddr.new_eq]
  cases attr with
  | username text => exact congrArg (fun text => Except.ok (username text)) (fromUtf8Lossy_utf8 text)
  | realm text => exact congrArg (fun text => Except.ok (realm text)) (fromUtf8Lossy_utf8 text)
  | nonce text => exact congrArg (fun text => Except.ok (nonce text)) (fromUtf8Lossy_utf8 text)
  | messageIntegrity hmac => exact dif_pos hmac.property
  | lifetime seconds =>
    have hread : UInt32.ofNat (ofBigEndian ((bigEndian 4 seconds.toNat).take 4)) = seconds := by
      rw [List.take_of_length_le (length_bigEndian ..).le,
        ofBigEndian_bigEndian_of_lt seconds.toNat_lt, UInt32.ofNat_toNat]
    exact congrArg (fun seconds => Except.ok (lifetime seconds)) hread
  | xorRelayedAddress addr => exact congrArg (Except.map xorRelayedAddress) (haddress h)
  | xorMappedAddress addr => exact congrArg (Except.map xorMappedAddress) (haddress h)
  | xorPeerAddress addr => exact congrArg (Except.map xorPeerAddress) (haddress h)
  | requestedTransport protocol => rfl
  | channelNumber channel =>
    have hread : UInt16.ofNat (ofBigEndian ((bigEndian 2 channel.toNat ++ [0, 0]).take 2)) = channel := by
      rw [List.take_left' (length_bigEndian ..), ofBigEndian_bigEndian_of_lt channel.toNat_lt,
        UInt16.ofNat_toNat]
    exact congrArg (fun channel => Except.ok (channelNumber channel)) hread
  | data bytes => rfl
  | errorCode code reason =>
    have hread : TurnMessage.parseAttribute tid attrErrorCode (value tid (errorCode code reason)) =
        .ok (.errorCode ((UInt8.ofNat (code / 100).toNat).toUInt16 * 100 +
          (UInt8.ofNat (code % 100).toNat).toUInt16) (fromUtf8Lossy (utf8 reason))) := rfl
    rw [toNat_errorCode h, fromUtf8Lossy_utf8] at hread
    exact hread
  | unknown type value =>
    simp only [Readable, assigned, List.mem_cons, List.not_mem_nil, or_false, not_or] at h
    simp only [TurnMessage.parseAttribute, TurnAttribute.type, TurnAttribute.value, h, if_false,
      UInt16.ofNat_toNat]

/-- **For STUN**, each attribute is unknown or an address. -/
theorem Readable.exists_parseAttribute_eq {attr : TurnAttribute} (h : attr.Readable) :
    ∃ stunAttr, StunMessage.parseAttribute tid attr.type (attr.value tid) = .ok stunAttr := by
  by_cases hxor : attr.type = attrXorMappedAddress
  · cases attr with
    | xorMappedAddress addr =>
      exact ⟨_, (@StunAttribute.Readable.parseAttribute_eq tid (.xorMappedAddress addr)) h⟩
    | unknown type value =>
      have htype : type.toNat = attrXorMappedAddress := hxor
      have hmem : attrXorMappedAddress ∈ attrMappedAddress :: assigned := by decide
      rw [← htype] at hmem
      exact absurd hmem h
    | _ => exact absurd hxor (Nat.ne_of_beq_eq_false rfl)
  · have hmapped : attr.type ≠ attrMappedAddress := by
      intro heq
      rcases attr.type_cases with hmem | ⟨type, value, rfl⟩
      · rw [heq] at hmem
        exact absurd hmem (by decide)
      · exact h (List.mem_cons.mpr (.inl heq))
    rw [StunMessage.parseAttribute, if_neg hxor, if_neg hmapped]
    exact ⟨_, rfl⟩

end TurnAttribute

/-- **A message of STUN is read back**, whatever follows it. -/
theorem StunMessage.fromBytes_toBytes_append {msg : StunMessage} (h : msg.Readable)
    (rest : List UInt8) : StunMessage.fromBytes (msg.toBytes ++ rest) = .ok msg := by
  have hlt := Nat.lt_succ_of_le h.length_le
  obtain ⟨attributes, hscan, heq⟩ :=
    (@scan_flatMap_of_forall _ _ fun type len available => P2pError.stun (truncatedText type len available))
    StunAttribute.encodeAttribute_eq StunAttribute.type_lt hlt
    fun attr hattr => ⟨attr, (h.attributes attr hattr).parseAttribute_eq, rfl⟩
  rw [List.forall₂_eq_eq_eq] at heq
  obtain ⟨hread, htake, -⟩ := (@read_messageBytes_append _ msg.transactionId) h.msgType hlt rest
  simp only [StunMessage.fromBytes, StunMessage.toBytes, hread, htake, hscan, bind, Except.bind,
    pure, Except.pure, ← heq]

/-- **A message of TURN is read back**, whatever follows it. -/
theorem TurnMessage.fromBytes_toBytes_append {msg : TurnMessage} (h : msg.Readable 65535)
    (rest : List UInt8) : TurnMessage.fromBytes (msg.toBytes ++ rest) = .ok msg := by
  have hlt := Nat.lt_succ_of_le h.length_le
  obtain ⟨stunAttrs, hstun, -⟩ :=
    (@scan_flatMap_of_forall _ _ fun type len available => P2pError.stun (truncatedText type len available))
    (R := fun _ _ => True) TurnAttribute.encodeAttribute_eq TurnAttribute.type_lt hlt
    fun attr hattr => (h.attributes attr hattr).exists_parseAttribute_eq.imp fun _ hparse =>
      ⟨hparse, trivial⟩
  obtain ⟨attributes, hturn, heq⟩ :=
    (@scan_flatMap_of_forall _ _ fun type len available => P2pError.turn (truncatedText type len available))
    TurnAttribute.encodeAttribute_eq TurnAttribute.type_lt hlt
    fun attr hattr => ⟨attr, (h.attributes attr hattr).parseAttribute_eq, rfl⟩
  rw [List.forall₂_eq_eq_eq] at heq
  rw [TurnMessage.toBytes, TurnMessage.fromBytes_messageBytes_append h.msgType hlt hstun hturn, ← heq]

section Integrity

variable (hmacSha1 : List UInt8 → List UInt8 → HmacValue) (msg : TurnMessage)

theorem TurnMessage.toBytesWith_eq (integrityKey : Option (List UInt8)) :
    msg.toBytesWith hmacSha1 integrityKey =
      { msg with attributes := msg.attributes ++ msg.integrity hmacSha1 integrityKey }.toBytes := by
  cases integrityKey with
  | none => simp [TurnMessage.toBytesWith, TurnMessage.integrity, TurnMessage.toBytes, messageBytes]
  | some key =>
    have hmac := (hmacSha1 key msg.hmacInput).property
    have hattr : TurnMessage.encodeAttribute msg.transactionId
        (.messageIntegrity (hmacSha1 key msg.hmacInput)) =
          bigEndian 2 attrMessageIntegrity ++ (bigEndian 2 hmacSha1Len ++
            (hmacSha1 key msg.hmacInput).val) := by
      have hpadding : padding 20 = 0 := rfl
      rw [TurnMessage.encodeAttribute, Tlv.encode, hmac, hpadding, List.replicate_zero, List.append_nil]
      rfl
    simp only [TurnMessage.toBytesWith, TurnMessage.integrity, TurnMessage.toBytes, messageBytes,
      List.flatMap_append, List.flatMap_singleton, List.length_append, hattr]

theorem TurnMessage.length_integrity (integrityKey : Option (List UInt8)) :
    ((msg.integrity hmacSha1 integrityKey).flatMap
      (TurnMessage.encodeAttribute msg.transactionId)).length = if integrityKey.isSome then 24 else 0 := by
  cases integrityKey with
  | none => rfl
  | some key =>
    have hmac := (hmacSha1 key msg.hmacInput).property
    have hpadding : padding 20 = 0 := rfl
    rw [TurnMessage.integrity, List.flatMap_singleton, TurnMessage.encodeAttribute, length_encode,
      hmac, hpadding]
    rfl

end Integrity

/-- How many bytes the attributes of a message may take. -/
def maxAttributes (integrityKey : Option (List UInt8)) : ℕ :=
  if integrityKey.isSome then 65511 else 65535

/-- **What is written is read back**, whatever follows it: a message of STUN; a message of TURN,
with exactly one attribute more when there is a key. No bytes make a reader panic. -/
theorem codecs_readBack (hmacSha1 : List UInt8 → List UInt8 → HmacValue) :
    (∀ (msg : StunMessage) (rest : List UInt8), msg.Readable →
      StunMessage.fromBytesAt (msg.toBytes ++ rest) = .ok msg) ∧
    (∀ (msg : TurnMessage) (integrityKey : Option (List UInt8)) (rest : List UInt8),
      msg.Readable (maxAttributes integrityKey) →
      TurnMessage.fromBytesAt (msg.toBytesWith hmacSha1 integrityKey ++ rest) =
        .ok { msg with attributes := msg.attributes ++ msg.integrity hmacSha1 integrityKey }) ∧
    ∀ (data : List UInt8) (text : String),
      StunMessage.fromBytesAt data ≠ .error (.panicked text) ∧
        TurnMessage.fromBytesAt data ≠ .error (.panicked text) := by
  refine ⟨fun msg rest h => ?_, fun msg integrityKey rest h => ?_, fun data text => ⟨?_, ?_⟩⟩
  · rw [StunMessage.fromBytesAt_eq, StunMessage.fromBytes_toBytes_append h]
    rfl
  · have hlength := msg.length_integrity hmacSha1 integrityKey
    have hle := h.length_le
    have hreadable : { msg with attributes :=
        msg.attributes ++ msg.integrity hmacSha1 integrityKey : TurnMessage }.Readable 65535 := by
      refine ⟨h.msgType, fun attr hattr => ?_, ?_⟩
      · rcases List.mem_append.mp hattr with hmem | hmem
        · exact h.attributes attr hmem
        · cases integrityKey with
          | none => cases hmem
          | some key =>
            rw [List.mem_singleton.mp hmem]
            trivial
      · have htotal : ((msg.attributes ++ msg.integrity hmacSha1 integrityKey).flatMap
            (TurnMessage.encodeAttribute msg.transactionId)).length ≤ 65535 := by
          rw [List.flatMap_append, List.length_append, hlength]
          unfold maxAttributes at hle
          split_ifs at hle ⊢ <;> omega
        exact htotal
    rw [TurnMessage.fromBytesAt_eq, TurnMessage.toBytesWith_eq,
      TurnMessage.fromBytes_toBytes_append hreadable]
    rfl
  · rw [StunMessage.fromBytesAt_eq]
    cases StunMessage.fromBytes data <;> simp [Except.mapError]
  · rw [TurnMessage.fromBytesAt_eq]
    cases TurnMessage.fromBytes data <;> simp [Except.mapError]

end ReadBack

/-! ## A refused allocation -/

section Refused

def countingId : TransactionId := ⟨[1, 2, 3, 4, 5, 6, 7, 8, 9, 10, 11, 12], rfl⟩

def refusedAllocation : TurnMessage where
  msgType := 0x0113
  transactionId := countingId
  attributes := [.errorCode 401 "no".toList, .xorPeerAddress (.v4 ⟨10, 0, 0, 1⟩ 5000),
    .unknown 0x8022 [1, 2, 3]]

def mappedResponse : StunMessage where
  msgType := bindingResponse
  transactionId := countingId
  attributes := [.mappedAddress (.v6 ⟨[1, 2, 3, 4, 5, 6, 7, 8], rfl⟩ 80 0 0), .unknown 0x8022 [1]]

/-- The code of `refusedAllocation` for the key `key`. -/
def refusedHmac : HmacValue :=
  ⟨[66, 228, 159, 148, 2, 117, 173, 35, 24, 122, 48, 74, 227, 110, 19, 156, 80, 211, 33, 238], rfl⟩

/-- Both are read back, with three bytes behind. -/
theorem refusedAllocation_readBack :
    StunMessage.fromBytesAt (mappedResponse.toBytes ++ [7, 8, 9]) = .ok mappedResponse ∧
      TurnMessage.fromBytesAt
          (refusedAllocation.toBytesWith (fun _ _ => refusedHmac) (some [107, 101, 121]) ++ [7, 8, 9]) =
        .ok { refusedAllocation with attributes :=
          refusedAllocation.attributes ++ [.messageIntegrity refusedHmac] } := by
  have hstun : mappedResponse.Readable := by
    refine ⟨by decide, ?_, by decide +kernel⟩
    simp [mappedResponse, StunAttribute.Readable, Plain, attrXorMappedAddress, attrMappedAddress]
  have hturn : refusedAllocation.Readable (maxAttributes (some [107, 101, 121])) := by
    refine ⟨by decide, ?_, by decide +kernel⟩
    simp [refusedAllocation, TurnAttribute.Readable, Plain, TurnAttribute.assigned, attrMappedAddress,
      attrUsername, attrMessageIntegrity, attrErrorCode, attrChannelNumber, attrLifetime,
      attrXorPeerAddress, attrData, attrRealm, attrNonce, attrXorRelayedAddress,
      attrRequestedTransport, attrXorMappedAddress]
  exact ⟨(codecs_readBack fun _ _ => refusedHmac).1 _ _ hstun,
    (codecs_readBack fun _ _ => refusedHmac).2.1 _ _ _ hturn⟩

end Refused

end Pirc.P2p
