import Pirc.Lib.Decimal
import Pirc.Lib.IpAddr
import Pirc.Protocol.Message

/-!
# P2P: ICE candidates

`ice.rs`: the candidates of an agent, their priorities, and the text in which they are exchanged.
Gathering them is not modelled.
-/

namespace Pirc.P2p

open Net Protocol

/-- Errors of this crate; the transport's other errors are not modelled. -/
inductive P2pError
  | stun (message : String)
  | turn (message : String)
  | ice (message : String)
  deriving DecidableEq

/-! ## Candidates -/

inductive CandidateType
  | host
  | serverReflexive
  | relay
  deriving DecidableEq

def typePrefHost : UInt32 := 126

def typePrefSrflx : UInt32 := 100

def typePrefRelay : UInt32 := 0

namespace CandidateType

def typePreference : CandidateType → UInt32
  | host => typePrefHost
  | serverReflexive => typePrefSrflx
  | relay => typePrefRelay

def asStr : CandidateType → String
  | host => "host"
  | serverReflexive => "srflx"
  | relay => "relay"

def fromStr (s : Str) : Except P2pError CandidateType :=
  if s = "host".toList then .ok host
  else if s = "srflx".toList then .ok serverReflexive
  else if s = "relay".toList then .ok relay
  else .error (.ice ("unknown candidate type: " ++ String.ofList s))

@[simp] theorem fromStr_asStr (t : CandidateType) : fromStr t.asStr.toList = .ok t := by
  cases t <;> decide

end CandidateType

/-- A candidate. -/
structure IceCandidate where
  candidateType : CandidateType
  address : SocketAddr
  priority : UInt32
  foundation : Str
  component : UInt16
  deriving DecidableEq

/-- The priority of a candidate; sums wrap around, as in a release build. -/
def computePriority (candidateType : CandidateType) (localPreference component : UInt16) : UInt32 :=
  (candidateType.typePreference <<< 24) + (localPreference.toUInt32 <<< 8) +
    (256 - component.toUInt32)

/-- **The priority does not overflow** where the component is one of `1` to `256`. -/
theorem toNat_computePriority (candidateType : CandidateType) (localPreference : UInt16)
    {component : UInt16} (hpos : 1 ≤ component.toNat) (hle : component.toNat ≤ 256) :
    (computePriority candidateType localPreference component).toNat =
        2 ^ 24 * candidateType.typePreference.toNat + 2 ^ 8 * localPreference.toNat +
          (256 - component.toNat) ∧
      (computePriority candidateType localPreference component).toNat < 2 ^ 31 := by
  have hlocal : localPreference.toNat < 65536 := localPreference.toNat_lt
  have htype : (candidateType.typePreference <<< 24).toNat =
      2 ^ 24 * candidateType.typePreference.toNat ∧ candidateType.typePreference.toNat ≤ 126 := by
    cases candidateType <;> decide
  obtain ⟨hshift, hmax⟩ := htype
  have hcomponent : (256 - component.toUInt32).toNat = 256 - component.toNat := by
    rw [UInt32.toNat_sub_of_le]
    · rfl
    · rw [UInt32.le_iff_toNat_le]
      exact hle
  have hpref : (localPreference.toUInt32 <<< 8).toNat = 2 ^ 8 * localPreference.toNat := by
    rw [UInt32.toNat_shiftLeft, Nat.shiftLeft_eq]
    have : localPreference.toUInt32.toNat = localPreference.toNat := rfl
    rw [this]
    have h8 : (8 : UInt32).toNat % 32 = 8 := rfl
    rw [h8, Nat.mod_eq_of_lt (by omega)]
    ring
  unfold computePriority
  rw [UInt32.toNat_add, UInt32.toNat_add, hshift, hpref, hcomponent]
  omega

namespace IceCandidate

def new (candidateType : CandidateType) (address : SocketAddr) (localPreference : UInt16)
    (foundation : Str) (component : UInt16) : IceCandidate where
  candidateType := candidateType
  address := address
  priority := computePriority candidateType localPreference component
  foundation := foundation
  component := component

end IceCandidate

/-! ## Words -/

def isWhitespace (c : Char) : Bool :=
  let n := c.toNat
  (9 ≤ n && n ≤ 13) || n = 0x20 || n = 0x85 || n = 0xA0 || n = 0x1680 ||
    (0x2000 ≤ n && n ≤ 0x200A) || n = 0x2028 || n = 0x2029 || n = 0x202F || n = 0x205F ||
    n = 0x3000

def splitWhitespace (s : Str) : List Str := (s.splitOnP isWhitespace).filter (· ≠ [])

def IsWord (s : Str) : Prop := s ≠ [] ∧ ∀ c ∈ s, isWhitespace c = false

-- not by enumerating the characters
instance (s : Str) : Decidable (IsWord s) :=
  @instDecidableAnd _ _ _ (List.decidableBAll (fun c => isWhitespace c = false) s)

theorem splitWhitespace_word {s : Str} (h : IsWord s) : splitWhitespace s = [s] := by
  rw [splitWhitespace, List.splitOnP_eq_singleton h.2]
  simp [h.1]

theorem splitWhitespace_cons {word rest : Str} (h : IsWord word) :
    splitWhitespace (word ++ ' ' :: rest) = word :: splitWhitespace rest := by
  rw [splitWhitespace, List.splitOnP_append_cons_of_forall_mem h.2 ' ' (by decide),
    List.filter_cons_of_pos (by simp [h.1])]
  rfl

theorem isWhitespace_of_isAddressChar {c : Char} (h : isAddressChar c = true) :
    isWhitespace c = false := by
  by_cases hword : isWhitespace c = true
  · -- whitespace is no letter, no digit and no mark
    simp only [isWhitespace, Bool.or_eq_true, Bool.and_eq_true, decide_eq_true_eq] at hword
    simp only [isAddressChar, isDigit, digitValue, Char.le_def, UInt32.le_iff_toNat_le,
      Bool.or_eq_true, decide_eq_true_eq] at h
    have hval : c.val.toNat = c.toNat := rfl
    have hdot : c ≠ '.' := by rintro rfl; revert hword; decide
    have hcolon : c ≠ ':' := by rintro rfl; revert hword; decide
    simp only [hdot, hcolon, or_false, hval] at h
    split_ifs at h <;> simp at * <;> omega
  · exact eq_false_of_ne_true hword

theorem isWord_display (ip : IpAddr) : IsWord ip.display :=
  ⟨ip.display_ne_nil, fun _ hc => isWhitespace_of_isAddressChar (ip.isAddressChar_of_mem_display hc)⟩

theorem isWord_toDigits (n : ℕ) : IsWord (Nat.toDigits 10 n) :=
  ⟨Nat.toDigits_ne_nil, fun c hc => isWhitespace_of_isAddressChar (isAddressChar_of_isDigit
    (Net.isDigit_of_mem_toDigits (by decide) (by decide) n c hc))⟩

theorem isWord_asStr (t : CandidateType) : IsWord t.asStr.toList := by
  cases t <;> decide

/-! ## The text of a candidate -/

namespace IceCandidate

/-- `<foundation> <component> udp <priority> <addr> <port> typ <type>`. -/
def toSdpString (candidate : IceCandidate) : Str :=
  candidate.foundation ++ ' ' :: (Nat.toDigits 10 candidate.component.toNat ++
    ' ' :: ("udp".toList ++ ' ' :: (Nat.toDigits 10 candidate.priority.toNat ++
    ' ' :: (candidate.address.ip.display ++ ' ' :: (Nat.toDigits 10 candidate.address.port.toNat ++
    ' ' :: ("typ".toList ++ ' ' :: candidate.candidateType.asStr.toList))))))

def readNumber (what : String) (bits : ℕ) (s : Str) : Except P2pError ℕ :=
  (Decimal.parse bits s).mapError fun e => .ice ("invalid " ++ what ++ ": " ++ e.text)

def readIp (s : Str) : Except P2pError IpAddr :=
  match IpAddr.parse s with
  | some ip => .ok ip
  | none => .error (.ice "invalid IP address: invalid IP address syntax")

/-- The eight words are checked before any of them is read. -/
def fromSdpString (s : Str) : Except P2pError IceCandidate :=
  match splitWhitespace s with
  | [foundation, component, transport, priority, ip, port, keyword, candidateType] =>
    if transport ≠ "udp".toList then
      .error (.ice ("unsupported transport: " ++ String.ofList transport ++ " (expected udp)"))
    else if keyword ≠ "typ".toList then
      .error (.ice
        ("expected 'typ' keyword at position 6, got '" ++ String.ofList keyword ++ "'"))
    else do
      let component ← readNumber "component" 16 component
      let priority ← readNumber "priority" 32 priority
      let ip ← readIp ip
      let port ← readNumber "port" 16 port
      let candidateType ← CandidateType.fromStr candidateType
      return {
        candidateType
        address := .new ip (.ofNat port)
        priority := .ofNat priority
        foundation
        component := .ofNat component
      }
  | words =>
    .error (.ice ("invalid candidate string: expected 8 fields, got " ++ toString words.length))

/-- What the peer makes of a candidate: an address has no flow label and no scope in the text. -/
def exchanged (candidate : IceCandidate) : IceCandidate :=
  { candidate with address := .new candidate.address.ip candidate.address.port }

@[simp] theorem exchanged_priority (candidate : IceCandidate) :
    candidate.exchanged.priority = candidate.priority := rfl

@[simp] theorem exchanged_exchanged (candidate : IceCandidate) :
    candidate.exchanged.exchanged = candidate.exchanged := by
  simp [exchanged]

theorem readNumber_toDigits {what : String} {bits n : ℕ} (h : n < 2 ^ bits) :
    readNumber what bits (Nat.toDigits 10 n) = .ok n := by
  rw [readNumber, Decimal.parse_toDigits h]
  rfl

@[simp] theorem readIp_display (ip : IpAddr) : readIp ip.display = .ok ip := by
  rw [readIp, IpAddr.parse_display]

theorem splitWhitespace_toSdpString {candidate : IceCandidate} (h : IsWord candidate.foundation) :
    splitWhitespace candidate.toSdpString =
      [candidate.foundation, Nat.toDigits 10 candidate.component.toNat, "udp".toList,
        Nat.toDigits 10 candidate.priority.toNat, candidate.address.ip.display,
        Nat.toDigits 10 candidate.address.port.toNat, "typ".toList,
        candidate.candidateType.asStr.toList] := by
  rw [toSdpString, splitWhitespace_cons h, splitWhitespace_cons (isWord_toDigits _),
    splitWhitespace_cons (by decide), splitWhitespace_cons (isWord_toDigits _),
    splitWhitespace_cons (isWord_display _), splitWhitespace_cons (isWord_toDigits _),
    splitWhitespace_cons (by decide), splitWhitespace_word (isWord_asStr _)]

/-- **A candidate is read back** without the flow label and the scope of its address. -/
theorem fromSdpString_toSdpString {candidate : IceCandidate} (h : IsWord candidate.foundation) :
    fromSdpString candidate.toSdpString = .ok candidate.exchanged := by
  have hcomponent : candidate.component.toNat < 2 ^ 16 := candidate.component.toNat_lt
  have hpriority : candidate.priority.toNat < 2 ^ 32 := candidate.priority.toNat_lt
  have hport : candidate.address.port.toNat < 2 ^ 16 := candidate.address.port.toNat_lt
  rw [fromSdpString, splitWhitespace_toSdpString h]
  simp only [ne_eq, not_true_eq_false, if_false, readNumber_toDigits hcomponent,
    readNumber_toDigits hpriority, readNumber_toDigits hport, readIp_display,
    CandidateType.fromStr_asStr, bind, Except.bind, UInt16.ofNat_toNat, UInt32.ofNat_toNat]
  rfl

end IceCandidate

end Pirc.P2p
