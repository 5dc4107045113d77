import Pirc.Lib.Tlv
import Pirc.P2p.Ice

/-!
# P2P: STUN messages

`stun.rs`: the header of STUN messages, their attributes with the addresses in them, and how they
are read. Asking a server for one's address is not modelled.
-/

namespace Pirc.P2p

open Net Protocol Tlv

/-! ## Constants -/

def magicCookie : ℕ := 0x2112A442

def headerSize : ℕ := 20

def bindingRequest : UInt16 := 0x0001

def bindingResponse : UInt16 := 0x0101

def attrMappedAddress : ℕ := 0x0001

def attrXorMappedAddress : ℕ := 0x0020

def familyIpv4 : UInt8 := 0x01

def familyIpv6 : UInt8 := 0x02

abbrev TransactionId := { bytes : List UInt8 // bytes.length = 12 }

/-- A number in capital hexadecimal digits, at least so many. -/
def hex (width n : ℕ) : String :=
  String.ofList (((Nat.toDigits 16 n).map Char.toUpper).leftpad width '0')

/-! ## Addresses -/

def octets : IpAddr → List UInt8
  | .v4 ip => [ip.a, ip.b, ip.c, ip.d]
  | .v6 ip => ip.segments.flatMap fun segment => bigEndian 2 segment.toNat

def segmentsOf : List UInt8 → List UInt16
  | x :: y :: bytes => .ofNat (ofBigEndian [x, y]) :: segmentsOf bytes
  | _ => []

def xorBytes (xs ys : List UInt8) : List UInt8 := List.zipWith (· ^^^ ·) xs ys

def xorKey (tid : TransactionId) : List UInt8 := bigEndian 4 magicCookie ++ tid.val

/-- What ports are XOR-ed with: the first half of the cookie. -/
def xorPort : UInt16 := .ofNat (magicCookie / 2 ^ 16)

def familyOf : IpAddr → UInt8
  | .v4 _ => familyIpv4
  | .v6 _ => familyIpv6

/-- The value of an XOR-encoded address. -/
def encodeXorAddress (addr : SocketAddr) (tid : TransactionId) : List UInt8 :=
  0x00 :: familyOf addr.ip ::
    (bigEndian 2 (addr.port ^^^ xorPort).toNat ++ xorBytes (octets addr.ip) (xorKey tid))

/-- Read an address XOR-ed with something. The crates' three readers differ in what that is, and in
the name and the kind of their errors. -/
def parseAddress (err : String → P2pError) (name : String) (port : UInt16) (key data : List UInt8) :
    Except P2pError SocketAddr :=
  match data with
  | _ :: family :: p₁ :: p₂ :: rest =>
    let port := .ofNat (ofBigEndian [p₁, p₂]) ^^^ port
    if family = familyIpv4 then
      match xorBytes rest key with
      | a :: b :: c :: d :: _ => .ok (.new (.v4 ⟨a, b, c, d⟩) port)
      | _ => .error (err (name ++ " IPv4 too short"))
    else if family = familyIpv6 then
      if rest.length < 16 then .error (err (name ++ " IPv6 too short"))
      else .ok (.new (.v6 (.ofList (segmentsOf (xorBytes (rest.take 16) key)))) port)
    else .error (err ("unknown address family: 0x" ++ hex 2 family.toNat))
  | _ => .error (err (name ++ " too short"))

def parseXorMappedAddress (tid : TransactionId) : List UInt8 → Except P2pError SocketAddr :=
  parseAddress .stun "XOR-MAPPED-ADDRESS" xorPort (xorKey tid)

def parseMappedAddress : List UInt8 → Except P2pError SocketAddr :=
  parseAddress .stun "MAPPED-ADDRESS" 0 (List.replicate 16 0)

@[simp] theorem length_xorKey (tid : TransactionId) : (xorKey tid).length = 16 := by
  rw [xorKey, List.length_append, length_bigEndian, tid.property]

theorem length_octets (ip : IpAddr) : (octets ip).length ≤ 16 := by
  cases ip with
  | v4 ip => simp [octets]
  | v6 ip => simp [octets, ip.length_eq]

theorem xorBytes_xorBytes {xs key : List UInt8} (h : xs.length ≤ key.length) :
    xorBytes (xorBytes xs key) key = xs := by
  induction xs generalizing key with
  | nil => rfl
  | cons x xs ih =>
    cases key with
    | nil => simp at h
    | cons k key =>
      have hx : x ^^^ k ^^^ k = x := by rw [UInt8.xor_assoc, UInt8.xor_self, UInt8.xor_zero]
      have hxs : xorBytes (xorBytes xs key) key = xs := ih (by simpa using h)
      simp only [xorBytes, List.zipWith_cons_cons] at hxs ⊢
      rw [hx, hxs]

theorem segmentsOf_flatMap (segments : List UInt16) :
    segmentsOf (segments.flatMap fun segment => bigEndian 2 segment.toNat) = segments := by
  induction segments with
  | nil => rfl
  | cons segment segments ih =>
    have hread : ofBigEndian [.ofNat (segment.toNat / 256), .ofNat segment.toNat] =
        segment.toNat := (@ofBigEndian_bigEndian_of_lt 2 _) segment.toNat_lt
    have hsplit : (segment :: segments).flatMap (fun segment => bigEndian 2 segment.toNat) =
        .ofNat (segment.toNat / 256) :: .ofNat segment.toNat ::
          segments.flatMap fun segment => bigEndian 2 segment.toNat := rfl
    rw [hsplit, segmentsOf, hread, ih, UInt16.ofNat_toNat]

def maskedAddress (port : UInt16) (key : List UInt8) (addr : SocketAddr) : List UInt8 :=
  0x00 :: familyOf addr.ip ::
    (bigEndian 2 (addr.port ^^^ port).toNat ++ xorBytes (octets addr.ip) key)

/-- **An address is read back** with what it was XOR-ed with, without its flow label and its
scope. -/
theorem parseAddress_maskedAddress (err : String → P2pError) (name : String) (addr : SocketAddr)
    (port : UInt16) {key : List UInt8} (hkey : key.length = 16) :
    parseAddress err name port key (maskedAddress port key addr) = .ok (.new addr.ip addr.port) := by
  have hport : (UInt16.ofNat (ofBigEndian [.ofNat ((addr.port ^^^ port).toNat / 256),
      .ofNat (addr.port ^^^ port).toNat])) ^^^ port = addr.port := by
    rw [show ofBigEndian [.ofNat ((addr.port ^^^ port).toNat / 256),
      .ofNat (addr.port ^^^ port).toNat] = (addr.port ^^^ port).toNat from
        (@ofBigEndian_bigEndian_of_lt 2 _) (addr.port ^^^ port).toNat_lt]
    rw [UInt16.ofNat_toNat, UInt16.xor_assoc, UInt16.xor_self, UInt16.xor_zero]
  have hxor : xorBytes (xorBytes (octets addr.ip) key) key = octets addr.ip := by
    apply xorBytes_xorBytes
    rw [hkey]
    exact length_octets addr.ip
  have hdata : maskedAddress port key addr = 0x00 :: familyOf addr.ip ::
      .ofNat ((addr.port ^^^ port).toNat / 256) :: .ofNat (addr.port ^^^ port).toNat ::
        xorBytes (octets addr.ip) key := rfl
  rw [hdata]
  simp only [parseAddress, hport]
  cases hip : addr.ip with
  | v4 ip =>
    rw [hip] at hxor
    simp only [familyOf, if_true, hxor]
    rfl
  | v6 ip =>
    have hlen : (xorBytes (octets (.v6 ip)) key).length = 16 := by
      simp [xorBytes, octets, ip.length_eq, hkey]
    rw [hip] at hxor
    have hfamily : familyIpv6 ≠ familyIpv4 := by decide
    simp only [familyOf, hfamily, if_false, if_true, hlen, lt_irrefl,
      List.take_of_length_le hlen.le, hxor]
    simp only [octets, segmentsOf_flatMap, Ipv6Addr.ofList_segments]

theorem parseAddress_encodeXorAddress (err : String → P2pError) (name : String) (addr : SocketAddr)
    (tid : TransactionId) :
    parseAddress err name xorPort (xorKey tid) (encodeXorAddress addr tid) =
      .ok (.new addr.ip addr.port) :=
  parseAddress_maskedAddress err name addr xorPort (length_xorKey tid)

/-! ## Headers -/

/-- The header: type, length, cookie and transaction id. -/
structure Header where
  msgType : UInt16
  length : ℕ
  transactionId : TransactionId

namespace Header

def toBytes (header : Header) : List UInt8 :=
  bigEndian 2 header.msgType.toNat ++ (bigEndian 2 header.length ++
    (bigEndian 4 magicCookie ++ header.transactionId.val))

def read (data : List UInt8) : Except P2pError Header :=
  if h : data.length < headerSize then
    .error (.stun ("message too short: " ++ toString data.length ++ " bytes (minimum " ++
      toString headerSize ++ ")"))
  else
    let msgType : UInt16 := .ofNat (ofBigEndian (data.take 2))
    let msgLen := ofBigEndian ((data.drop 2).take 2)
    let cookie := ofBigEndian ((data.drop 4).take 4)
    if cookie ≠ magicCookie then
      .error (.stun ("invalid magic cookie: 0x" ++ hex 8 cookie ++ " (expected 0x" ++
        hex 8 magicCookie ++ ")"))
    else if msgType &&& 0xC000 ≠ 0 then
      .error (.stun ("invalid message type: 0x" ++ hex 4 msgType.toNat ++
        " (top two bits must be zero)"))
    else if data.length < headerSize + msgLen then
      .error (.stun ("message truncated: header says " ++ toString msgLen ++
        " attribute bytes but only " ++ toString (data.length - headerSize) ++ " available"))
    else
      .ok {
        msgType
        length := msgLen
        transactionId := ⟨(data.drop 8).take 12, by
          simp only [headerSize] at h
          rw [List.length_take, List.length_drop]
          omega⟩
      }

@[simp] theorem length_toBytes (header : Header) : header.toBytes.length = 20 := by
  simp [toBytes, header.transactionId.property]

/-- **The header is read back**, if its type is one and what it says of the length is true. -/
theorem read_append {header : Header} (hlen : header.length < 65536) (rest : List UInt8) :
    read (header.toBytes ++ rest) =
      if header.msgType &&& 0xC000 ≠ 0 then
        .error (.stun ("invalid message type: 0x" ++ hex 4 header.msgType.toNat ++
          " (top two bits must be zero)"))
      else if rest.length < header.length then
        .error (.stun ("message truncated: header says " ++ toString header.length ++
          " attribute bytes but only " ++ toString rest.length ++ " available"))
      else .ok header := by
  obtain ⟨msgType, length, tid, htid⟩ := header
  obtain ⟨data, hdata⟩ : ∃ data, data = toBytes ⟨msgType, length, tid, htid⟩ ++ rest := ⟨_, rfl⟩
  have hsplit : data = bigEndian 2 msgType.toNat ++ (bigEndian 2 length ++
      (bigEndian 4 magicCookie ++ (tid ++ rest))) := by
    rw [hdata]
    simp [toBytes]
  have htotal : data.length = 20 + rest.length := by
    rw [hdata, List.length_append, length_toBytes]
  -- the fields are at fixed places
  have hmsgType : ofBigEndian (data.take 2) = msgType.toNat := by
    rw [hsplit, List.take_left' (length_bigEndian _ _)]
    exact ofBigEndian_bigEndian_of_lt msgType.toNat_lt
  have hlength : ofBigEndian ((data.drop 2).take 2) = length := by
    rw [hsplit, List.drop_left' (length_bigEndian _ _), List.take_left' (length_bigEndian _ _)]
    exact ofBigEndian_bigEndian_of_lt hlen
  have hcookie : ofBigEndian ((data.drop 4).take 4) = magicCookie := by
    rw [hsplit]
    rfl
  have htidBytes : (data.drop 8).take 12 = tid := by
    have hdrop : data.drop 8 = tid ++ rest := by
      rw [hsplit]
      rfl
    rw [hdrop, List.take_left' htid]
  rw [← hdata]
  unfold read
  rw [dif_neg (by rw [htotal]; simp [headerSize])]
  simp only [hmsgType, hlength, hcookie, htidBytes, htotal, UInt16.ofNat_toNat, headerSize, ne_eq,
    not_true_eq_false, if_false, Nat.add_lt_add_iff_left, Nat.add_sub_cancel_left]

theorem msgType_of_read {data : List UInt8} {header : Header} (h : read data = .ok header) :
    header.msgType = .ofNat (ofBigEndian (data.take 2)) := by
  unfold read at h
  dsimp only at h
  split_ifs at h
  cases h
  rfl

theorem read_take {header : Header} {rest : List UInt8} {n : ℕ} (hlen : header.length = rest.length)
    (hlt : rest.length < 65536) (hn : n < 20 + rest.length) :
    ∃ e, read ((header.toBytes ++ rest).take n) = .error e := by
  rcases Nat.lt_or_ge n 20 with hshort | hlong
  · unfold read
    rw [dif_pos]
    · exact ⟨_, rfl⟩
    · rw [List.length_take]
      exact (min_le_left _ _).trans_lt hshort
  · have hcut : (header.toBytes ++ rest).take n = header.toBytes ++ rest.take (n - 20) := by
      rw [List.take_append, length_toBytes, List.take_of_length_le]
      rw [length_toBytes]
      exact hlong
    have hmissing : (rest.take (n - 20)).length < header.length := by
      rw [List.length_take, hlen]
      omega
    rw [hcut, read_append (hlen ▸ hlt)]
    split_ifs
    · exact ⟨_, rfl⟩
    · exact ⟨_, rfl⟩

end Header

/-! ## Messages -/

def messageBytes (msgType : UInt16) (tid : TransactionId) (attrs : List UInt8) : List UInt8 :=
  { msgType := msgType, length := attrs.length, transactionId := tid : Header }.toBytes ++ attrs

@[simp] theorem length_messageBytes (msgType : UInt16) (tid : TransactionId) (attrs : List UInt8) :
    (messageBytes msgType tid attrs).length = 20 + attrs.length := by
  rw [messageBytes, List.length_append, Header.length_toBytes]

section MessageBytes

variable {msgType : UInt16} {tid : TransactionId} {attrs : List UInt8}

theorem read_messageBytes_append (htype : msgType &&& 0xC000 = 0) (hlt : attrs.length < 65536)
    (rest : List UInt8) :
    Header.read (messageBytes msgType tid attrs ++ rest) =
        .ok { msgType := msgType, length := attrs.length, transactionId := tid } ∧
      ((messageBytes msgType tid attrs ++ rest).drop headerSize).take attrs.length = attrs ∧
      ofBigEndian (((messageBytes msgType tid attrs ++ rest).drop 2).take 2) = attrs.length := by
  have hroom : ¬ (attrs ++ rest).length < attrs.length := by simp
  rw [messageBytes, List.append_assoc]
  refine ⟨?_, ?_, ?_⟩
  · rw [(@Header.read_append ⟨msgType, attrs.length, tid⟩) hlt]
    simp only [htype, ne_eq, not_true_eq_false, if_false, hroom]
  · have hdrop : (({ msgType := msgType, length := attrs.length, transactionId := tid :
        Header }.toBytes ++ (attrs ++ rest)).drop headerSize) = attrs ++ rest :=
      List.drop_left' (Header.length_toBytes _)
    rw [hdrop, List.take_left]
  · rw [Header.toBytes, List.append_assoc, List.drop_left' (length_bigEndian _ _),
      List.append_assoc, List.take_left' (length_bigEndian _ _)]
    exact ofBigEndian_bigEndian_of_lt hlt

theorem read_take_messageBytes {n : ℕ} (hlt : attrs.length < 65536) (hn : n < 20 + attrs.length) :
    ∃ e, Header.read ((messageBytes msgType tid attrs).take n) = .error e :=
  Header.read_take rfl hlt hn

end MessageBytes

inductive StunAttribute
  | xorMappedAddress (addr : SocketAddr)
  | mappedAddress (addr : SocketAddr)
  | unknown (type : UInt16) (value : List UInt8)
  deriving DecidableEq

/-- A STUN message. -/
structure StunMessage where
  msgType : UInt16
  transactionId : TransactionId
  attributes : List StunAttribute
  deriving DecidableEq

/-- What an attribute that ends behind its message is reported as. -/
def truncatedText (type len available : ℕ) : String :=
  "attribute 0x" ++ hex 4 type ++ " truncated: needs " ++ toString len ++ " bytes, " ++
    toString available ++ " available"

namespace StunMessage

def bindingRequestWithId (tid : TransactionId) : StunMessage where
  msgType := bindingRequest
  transactionId := tid
  attributes := []

def encodeMappedAddress (addr : SocketAddr) : List UInt8 :=
  0x00 :: familyOf addr.ip :: (bigEndian 2 addr.port.toNat ++ octets addr.ip)

def encodeAttribute (tid : TransactionId) : StunAttribute → List UInt8
  | .xorMappedAddress addr => Tlv.encode attrXorMappedAddress (encodeXorAddress addr tid)
  | .mappedAddress addr => Tlv.encode attrMappedAddress (encodeMappedAddress addr)
  | .unknown type value => Tlv.encode type.toNat value

def toBytes (msg : StunMessage) : List UInt8 :=
  messageBytes msg.msgType msg.transactionId
    (msg.attributes.flatMap (encodeAttribute msg.transactionId))

def parseAttribute (tid : TransactionId) (type : ℕ) (value : List UInt8) :
    Except P2pError StunAttribute :=
  if type = attrXorMappedAddress then (parseXorMappedAddress tid value).map .xorMappedAddress
  else if type = attrMappedAddress then (parseMappedAddress value).map .mappedAddress
  else .ok (.unknown (.ofNat type) value)

def fromBytes (data : List UInt8) : Except P2pError StunMessage := do
  let header ← Header.read data
  let attrs := (data.drop headerSize).take header.length
  let attributes ← Tlv.scan (fun type len available => .stun (truncatedText type len available))
    (parseAttribute header.transactionId) attrs
  return { msgType := header.msgType, transactionId := header.transactionId, attributes }

theorem toBytes_bindingRequestWithId (tid : TransactionId) :
    (bindingRequestWithId tid).toBytes =
      [0x00, 0x01, 0x00, 0x00, 0x21, 0x12, 0xA4, 0x42] ++ tid.val := by
  simp [toBytes, bindingRequestWithId, messageBytes, Header.toBytes]
  rfl

end StunMessage

end Pirc.P2p
