import Mathlib.Tactic

/-!
# IP addresses as text

IPv4 and IPv6 addresses with the text they are displayed as, which is that of RFC 5952, and how such
text is read. A socket address of IPv6 has a flow label and a scope beside its address and port.

## Main results

* `Net.IpAddr.parse_display`: every address is
-/

namespace Net

abbrev Text := List Char

/-! ## Addresses -/

structure Ipv4Addr where
  a : UInt8
  b : UInt8
  c : UInt8
  d : UInt8
  deriving DecidableEq

structure Ipv6Addr where
  segments : List UInt16
  length_eq : segments.length = 8
  deriving DecidableEq

inductive IpAddr
  | v4 (ip : Ipv4Addr)
  | v6 (ip : Ipv6Addr)
  deriving DecidableEq

inductive SocketAddr
  | v4 (ip : Ipv4Addr) (port : UInt16)
  | v6 (ip : Ipv6Addr) (port : UInt16) (flowinfo scopeId : UInt32)
  deriving DecidableEq

namespace SocketAddr

/-- An address and a port, without flow label and scope. -/
def new : IpAddr → UInt16 → SocketAddr
  | .v4 ip, port => .v4 ip port
  | .v6 ip, port => .v6 ip port 0 0

def ip : SocketAddr → IpAddr
  | v4 ip _ => .v4 ip
  | v6 ip _ _ _ => .v6 ip

def port : SocketAddr → UInt16
  | v4 _ port => port
  | v6 _ port _ _ => port

@[simp] theorem ip_new (ip : IpAddr) (port : UInt16) : (new ip port).ip = ip := by cases ip <;> rfl

@[simp] theorem port_new (ip : IpAddr) (port : UInt16) : (new ip port).port = port := by
  cases ip <;> rfl

end SocketAddr

/-! ## Numbers -/

def digitValue (c : Char) : ℕ :=
  if '0' ≤ c ∧ c ≤ '9' then c.toNat - 48
  else if 'a' ≤ c ∧ c ≤ 'z' then c.toNat - 87
  else if 'A' ≤ c ∧ c ≤ 'Z' then c.toNat - 55
  else 36

def isDigit (radix : ℕ) (c : Char) : Bool := digitValue c < radix

def numberOf (radix : ℕ) (digits : Text) : ℕ :=
  digits.foldl (fun n c => n * radix + digitValue c) 0

/-- Read a number below a bound, of so many digits at most, and the rest. -/
def readNumber (radix maxDigits bound : ℕ) (allowZeroPrefix : Bool) (s : Text) : Option (ℕ × Text) :=
  let digits := s.takeWhile (isDigit radix)
  if digits = [] ∨ maxDigits < digits.length then none
  else if allowZeroPrefix = false ∧ s.head? = some '0' ∧ 1 < digits.length then none
  else if numberOf radix digits < bound then
    some (numberOf radix digits, s.dropWhile (isDigit radix))
  else none

def readSeparator {α : Type} (separator : Char) (first : Bool) (inner : Text → Option (α × Text))
    (s : Text) : Option (α × Text) :=
  if first then inner s
  else
    match s with
    | c :: s => if c = separator then inner s else none
    | [] => none

theorem digitValue_digitChar {n : ℕ} (h : n < 16) : digitValue n.digitChar = n := by
  have hall : ∀ n : Fin 16, digitValue (Nat.digitChar n) = n := by decide
  exact hall ⟨n, h⟩

theorem numberOf_append (radix : ℕ) (digits : Text) (c : Char) :
    numberOf radix (digits ++ [c]) = numberOf radix digits * radix + digitValue c := by
  simp [numberOf]

theorem numberOf_toDigits {radix : ℕ} (hlow : 1 < radix) (hhigh : radix ≤ 16) (n : ℕ) :
    numberOf radix (Nat.toDigits radix n) = n := by
  induction n using Nat.strong_induction_on with
  | _ n ih =>
    by_cases hlt : n < radix
    · rw [Nat.toDigits_of_lt_base hlt]
      simp [numberOf, digitValue_digitChar (hlt.trans_le hhigh)]
    · have hle : radix ≤ n := Nat.le_of_not_lt hlt
      have hmod : n % radix < 16 := (Nat.mod_lt n (by omega)).trans_le hhigh
      rw [Nat.toDigits_of_base_le hlow hle, numberOf_append, digitValue_digitChar hmod,
        ih (n / radix) (Nat.div_lt_self (by omega) hlow)]
      exact Nat.div_add_mod' n radix

theorem isDigit_of_mem_toDigits {radix : ℕ} (hlow : 1 < radix) (hhigh : radix ≤ 16) (n : ℕ) :
    ∀ c ∈ Nat.toDigits radix n, isDigit radix c = true := by
  have hdigit : ∀ m < radix, isDigit radix m.digitChar = true := by
    intro m hm
    rw [isDigit, digitValue_digitChar (hm.trans_le hhigh)]
    exact decide_eq_true hm
  induction n using Nat.strong_induction_on with
  | _ n ih =>
    intro c hc
    by_cases hlt : n < radix
    · rw [Nat.toDigits_of_lt_base hlt, List.mem_singleton] at hc
      rw [hc]
      exact hdigit n hlt
    · have hle : radix ≤ n := Nat.le_of_not_lt hlt
      rw [Nat.toDigits_of_base_le hlow hle, List.mem_append, List.mem_singleton] at hc
      rcases hc with hc | rfl
      · exact ih (n / radix) (Nat.div_lt_self (by omega) hlow) c hc
      · exact hdigit _ (Nat.mod_lt n (by omega))

/-- The text goes on with something else than a digit. -/
def Ends (radix : ℕ) (rest : Text) : Prop := ∀ c ∈ rest.head?, isDigit radix c = false

theorem ends_nil (radix : ℕ) : Ends radix [] := fun _ hc => by cases hc

theorem takeWhile_toDigits {radix : ℕ} (hlow : 1 < radix) (hhigh : radix ≤ 16) (n : ℕ) {rest : Text}
    (hrest : Ends radix rest) :
    (Nat.toDigits radix n ++ rest).takeWhile (isDigit radix) = Nat.toDigits radix n ∧
      (Nat.toDigits radix n ++ rest).dropWhile (isDigit radix) = rest := by
  have hall := isDigit_of_mem_toDigits hlow hhigh n
  rw [List.takeWhile_append_of_pos hall, List.dropWhile_append_of_pos hall]
  cases rest with
  | nil => simp
  | cons c rest =>
    have hnot : isDigit radix c = false := hrest c rfl
    simp [hnot]

/-- **A number is read back as it was written**, if it needs no zeros in front. -/
theorem readNumber_toDigits {radix maxDigits bound n : ℕ} {allowZeroPrefix : Bool}
    (hlow : 1 < radix) (hhigh : radix ≤ 16) (hmax : 0 < maxDigits) (hdigits : n < radix ^ maxDigits)
    (hbound : n < bound)
    (hzero : allowZeroPrefix = false → (Nat.toDigits radix n).head? = some '0' →
      (Nat.toDigits radix n).length ≤ 1)
    {rest : Text} (hrest : Ends radix rest) :
    readNumber radix maxDigits bound allowZeroPrefix (Nat.toDigits radix n ++ rest) =
      some (n, rest) := by
  obtain ⟨htake, hdrop⟩ := takeWhile_toDigits hlow hhigh n hrest
  have hne : Nat.toDigits radix n ≠ [] := Nat.toDigits_ne_nil
  have hlen : (Nat.toDigits radix n).length ≤ maxDigits :=
    (Nat.length_toDigits_le_iff hlow hmax).mpr hdigits
  have hhead : (Nat.toDigits radix n ++ rest).head? = (Nat.toDigits radix n).head? :=
    List.head?_append_of_ne_nil _ hne
  unfold readNumber
  simp only [htake, hdrop, hhead, numberOf_toDigits hlow hhigh]
  rw [if_neg (by simp [hne, hlen]), if_neg, if_pos hbound]
  rintro ⟨hlead, hfirst, hlong⟩
  exact absurd (hzero hlead hfirst) (by omega)

theorem readNumber_suffix {radix maxDigits bound n : ℕ} {allowZeroPrefix : Bool} {s rest : Text}
    (h : readNumber radix maxDigits bound allowZeroPrefix s = some (n, rest)) : rest <:+ s := by
  unfold readNumber at h
  simp only at h
  split_ifs at h
  obtain ⟨-, rfl⟩ := Prod.mk.inj (Option.some.inj h)
  exact List.dropWhile_suffix _

/-! ## IPv4 -/

namespace Ipv4Addr

def display (ip : Ipv4Addr) : Text :=
  Nat.toDigits 10 ip.a.toNat ++ '.' :: (Nat.toDigits 10 ip.b.toNat ++ '.' ::
    (Nat.toDigits 10 ip.c.toNat ++ '.' :: Nat.toDigits 10 ip.d.toNat))

def readOctet (s : Text) : Option (UInt8 × Text) :=
  (readNumber 10 3 256 false s).map fun (n, rest) => (.ofNat n, rest)

def read (s : Text) : Option (Ipv4Addr × Text) := do
  let (a, s) ← readSeparator '.' true readOctet s
  let (b, s) ← readSeparator '.' false readOctet s
  let (c, s) ← readSeparator '.' false readOctet s
  let (d, s) ← readSeparator '.' false readOctet s
  return (⟨a, b, c, d⟩, s)

theorem readOctet_toDigits (octet : UInt8) {rest : Text} (hrest : Ends 10 rest) :
    readOctet (Nat.toDigits 10 octet.toNat ++ rest) = some (octet, rest) := by
  have hlt : octet.toNat < 256 := octet.toNat_lt
  have hzero : ∀ n : Fin 256, (Nat.toDigits 10 n).head? = some '0' →
      (Nat.toDigits 10 n).length ≤ 1 := by decide +kernel
  have hread := (@readNumber_toDigits 10 3 256 _ false) (by decide) (by decide) (by decide) (by omega) hlt
    (fun _ => hzero ⟨octet.toNat, hlt⟩) hrest
  unfold readOctet
  rw [hread]
  simp

/-- **An address is read back as it was displayed.** -/
theorem read_display (ip : Ipv4Addr) {rest : Text} (hrest : Ends 10 rest) :
    read (ip.display ++ rest) = some (ip, rest) := by
  have hdot : ∀ s, Ends 10 ('.' :: s) := by
    intro s c hc
    obtain rfl := Option.some.inj hc
    decide
  unfold read display
  simp only [readSeparator, List.append_assoc, List.cons_append, if_true, Bool.false_eq_true,
    if_false, readOctet_toDigits _ (hdot _), readOctet_toDigits _ hrest, Option.bind_eq_bind,
    Option.bind_some]
  rfl

theorem read_eq_none {s : Text} (h : '.' ∉ s) : read s = none := by
  unfold read readSeparator
  simp only [if_true]
  cases hfirst : readOctet s with
  | none => rfl
  | some result =>
    obtain ⟨a, rest⟩ := result
    have hsuffix : rest <:+ s := by
      obtain ⟨⟨n, rest'⟩, hread, heq⟩ := Option.map_eq_some_iff.mp hfirst
      obtain ⟨-, rfl⟩ := Prod.mk.inj heq
      exact readNumber_suffix hread
    cases rest with
    | nil => rfl
    | cons c rest =>
      have hc : c ≠ '.' := by
        rintro rfl
        exact h (hsuffix.subset List.mem_cons_self)
      simp [hc]

end Ipv4Addr

/-! ## IPv6 -/

def hexGroup (segment : UInt16) : Text := Nat.toDigits 16 segment.toNat

def hexGroups : List UInt16 → Text
  | [] => []
  | [segment] => hexGroup segment
  | segment :: next :: segments => hexGroup segment ++ ':' :: hexGroups (next :: segments)

def readGroup (s : Text) : Option (UInt16 × Text) :=
  (readNumber 16 4 65536 true s).map fun (n, rest) => (.ofNat n, rest)

def Ipv4Addr.segments (ip : Ipv4Addr) : List UInt16 :=
  [.ofNat (ip.a.toNat * 256 + ip.b.toNat), .ofNat (ip.c.toNat * 256 + ip.d.toNat)]

/-- Read so many segments at most, of which the last two may be an IPv4 address, which is told; and
the rest. -/
def readGroups : ℕ → Bool → Text → List UInt16 × Bool × Text
  | 0, _, s => ([], false, s)
  | n + 1, first, s =>
    match if n = 0 then none else readSeparator ':' first Ipv4Addr.read s with
    | some (ip, rest) => (ip.segments, true, rest)
    | none =>
      match readSeparator ':' first readGroup s with
      | none => ([], false, s)
      | some (segment, rest) =>
        let (segments, ipv4, rest) := readGroups n false rest
        (segment :: segments, ipv4, rest)

namespace Ipv6Addr

/-- An address of the first eight of some segments. -/
def ofList (segments : List UInt16) : Ipv6Addr where
  segments := (segments ++ List.replicate 8 0).take 8
  length_eq := by simp

/-- The IPv4 address of an address `::ffff:a.b.c.d`. -/
def toIpv4Mapped (ip : Ipv6Addr) : Option Ipv4Addr :=
  match ip.segments with
  | [0, 0, 0, 0, 0, 0xFFFF, ab, cd] =>
    some ⟨.ofNat (ab.toNat / 256), .ofNat ab.toNat, .ofNat (cd.toNat / 256), .ofNat cd.toNat⟩
  | _ => none

/-- The longest run of zero segments, the first of those: where it starts, and its length. -/
def zeroes : List UInt16 → ℕ → ℕ × ℕ → ℕ × ℕ → ℕ × ℕ
  | [], _, longest, _ => longest
  | segment :: segments, i, longest, current =>
    if segment = 0 then
      let current := (if current.2 = 0 then i else current.1, current.2 + 1)
      zeroes segments (i + 1) (if longest.2 < current.2 then current else longest) current
    else zeroes segments (i + 1) longest (0, 0)

def display (ip : Ipv6Addr) : Text :=
  match ip.toIpv4Mapped with
  | some ipv4 => "::ffff:".toList ++ ipv4.display
  | none =>
    let (start, len) := zeroes ip.segments 0 (0, 0) (0, 0)
    if 1 < len then
      hexGroups (ip.segments.take start) ++ ':' :: ':' :: hexGroups (ip.segments.drop (start + len))
    else hexGroups ip.segments

/-- Read an address: eight segments, or some, two colons and some. -/
def read (s : Text) : Option (Ipv6Addr × Text) :=
  match readGroups 8 true s with
  | (head, ipv4, rest) =>
    if head.length = 8 then some (ofList head, rest)
    else if ipv4 then none
    else
      match rest with
      | ':' :: ':' :: rest =>
        match readGroups (8 - (head.length + 1)) true rest with
        | (tail, _, rest) =>
          some (ofList (head ++ List.replicate (8 - head.length - tail.length) 0 ++ tail), rest)
      | _ => none

end Ipv6Addr

/-! ## Addresses -/

namespace IpAddr

def display : IpAddr → Text
  | v4 ip => ip.display
  | v6 ip => ip.display

def parse (s : Text) : Option IpAddr :=
  match (Ipv4Addr.read s).map (fun (ip, rest) => (v4 ip, rest)) <|>
      (Ipv6Addr.read s).map fun (ip, rest) => (v6 ip, rest) with
  | some (ip, []) => some ip
  | _ => none

end IpAddr

/-! ## Reading IPv6 -/

theorem readGroup_hexGroup (segment : UInt16) {rest : Text} (hrest : Ends 16 rest) :
    readGroup (hexGroup segment ++ rest) = some (segment, rest) := by
  have hlt : segment.toNat < 65536 := segment.toNat_lt
  have hread := (@readNumber_toDigits 16 4 65536 _ true) (by decide) (by decide) (by decide) (by omega) hlt
    (fun h => by cases h) hrest
  unfold readGroup hexGroup
  rw [hread]
  simp

theorem isDigit_of_mem_hexGroup {segment : UInt16} {c : Char} (h : c ∈ hexGroup segment) :
    isDigit 16 c = true :=
  isDigit_of_mem_toDigits (by decide) (by decide) _ c h

theorem mem_hexGroups {segments : List UInt16} {c : Char} (h : c ∈ hexGroups segments) :
    isDigit 16 c = true ∨ c = ':' := by
  induction segments using hexGroups.induct with
  | case1 => cases h
  | case2 segment => exact .inl (isDigit_of_mem_hexGroup h)
  | case3 segment next segments ih =>
    rw [hexGroups, List.mem_append, List.mem_cons] at h
    rcases h with h | rfl | h
    · exact .inl (isDigit_of_mem_hexGroup h)
    · exact .inr rfl
    · exact ih h

theorem dot_notMem_hexGroups (segments : List UInt16) : '.' ∉ hexGroups segments := by
  intro h
  have hdigit := mem_hexGroups h
  revert hdigit
  decide

/-- What follows segments: the end, or two colons. -/
def AfterGroups (rest : Text) : Prop := rest = [] ∨ ∃ s, rest = ':' :: ':' :: s

theorem AfterGroups.ends {rest : Text} (h : AfterGroups rest) : Ends 16 rest := by
  rcases h with rfl | ⟨s, rfl⟩
  · exact ends_nil 16
  · intro c hc
    obtain rfl := Option.some.inj hc
    decide

theorem readGroups_after {rest : Text} (h : AfterGroups rest) (n : ℕ) (first : Bool) :
    readGroups n first rest = ([], false, rest) := by
  have hseparator : ∀ {α : Type} (inner : Text → Option (α × Text)), inner [] = none →
      (∀ s, inner (':' :: s) = none) → readSeparator ':' first inner rest = none := by
    intro α inner hnil hcolon
    cases first with
    | false =>
      rcases h with rfl | ⟨s, rfl⟩
      · rfl
      · simp [readSeparator, hcolon]
    | true =>
      rcases h with rfl | ⟨s, rfl⟩
      · simp [readSeparator, hnil]
      · simp [readSeparator, hcolon]
  have hnumber : ∀ {radix maxDigits bound : ℕ} {zeros : Bool} (s : Text),
      isDigit radix ':' = false → readNumber radix maxDigits bound zeros (':' :: s) = none := by
    intro radix maxDigits bound zeros s hcolon
    simp [readNumber, hcolon]
  cases n with
  | zero => rfl
  | succ n =>
    have hgroup : readSeparator ':' first readGroup rest = none := by
      refine hseparator readGroup rfl fun s => ?_
      rw [readGroup, hnumber s (by decide)]
      rfl
    have hipv4 : readSeparator ':' first Ipv4Addr.read rest = none := by
      refine hseparator Ipv4Addr.read rfl fun s => ?_
      have hcolon : isDigit 10 ':' = false := by decide
      simp [Ipv4Addr.read, Ipv4Addr.readOctet, readSeparator, hnumber s hcolon]
    unfold readGroups
    rw [hipv4, hgroup]
    simp

def separated (first : Bool) (s : Text) : Text := if first then s else ':' :: s

@[simp] theorem readSeparator_separated {α : Type} (first : Bool) (inner : Text → Option (α × Text))
    (s : Text) : readSeparator ':' first inner (separated first s) = inner s := by
  cases first <;> rfl

/-- **Segments are read back as they were written.** -/
theorem readGroups_hexGroups {segments : List UInt16} (hne : segments ≠ []) {rest : Text}
    (hrest : AfterGroups rest) (hdot : '.' ∉ rest) {n : ℕ} (hlen : segments.length ≤ n)
    (first : Bool) :
    readGroups n first (separated first (hexGroups segments ++ rest)) = (segments, false, rest) := by
  have hipv4 : ∀ segments : List UInt16, Ipv4Addr.read (hexGroups segments ++ rest) = none := by
    intro segments
    refine Ipv4Addr.read_eq_none fun h => ?_
    rcases List.mem_append.mp h with h | h
    · exact dot_notMem_hexGroups segments h
    · exact hdot h
  induction segments using hexGroups.induct generalizing n first with
  | case1 => exact absurd rfl hne
  | case2 segment =>
    obtain ⟨n, rfl⟩ : ∃ m, n = m + 1 := ⟨n - 1, by simp at hlen; omega⟩
    have hread := readGroup_hexGroup segment hrest.ends
    rw [readGroups, readSeparator_separated, readSeparator_separated, hipv4, ite_self, hexGroups, hread]
    simp [readGroups_after hrest]
  | case3 segment next segments ih =>
    obtain ⟨n, rfl⟩ : ∃ m, n = m + 1 := ⟨n - 1, by simp at hlen; omega⟩
    have hmore : Ends 16 (':' :: (hexGroups (next :: segments) ++ rest)) := by
      intro c hc
      obtain rfl := Option.some.inj hc
      decide
    have hread := readGroup_hexGroup segment hmore
    have hnext := ih (by simp) (n := n) (by simp at hlen ⊢; omega) false
    rw [readGroups, readSeparator_separated, readSeparator_separated, hipv4, ite_self, hexGroups,
      List.append_assoc, List.cons_append, hread]
    change readGroups n false (':' :: _) = _ at hnext
    simp [hnext]

theorem readGroups_true {segments : List UInt16} {rest : Text} (hrest : AfterGroups rest)
    (hdot : '.' ∉ rest) {n : ℕ} (hlen : segments.length ≤ n) :
    readGroups n true (hexGroups segments ++ rest) = (segments, false, rest) := by
  by_cases hnil : segments = []
  · subst hnil
    exact readGroups_after hrest n true
  · exact readGroups_hexGroups hnil hrest hdot hlen true

/-! ## The longest run of zeros -/

def ZeroRun (segments : List UInt16) (run : ℕ × ℕ) : Prop :=
  run.1 + run.2 ≤ segments.length ∧
    (segments.drop run.1).take run.2 = List.replicate run.2 0

theorem zeroRun_empty (segments : List UInt16) : ZeroRun segments (0, 0) := ⟨Nat.zero_le _, rfl⟩

theorem ZeroRun.succ {segments rest : List UInt16} {start len i : ℕ}
    (h : ZeroRun segments (start, len)) (hend : start + len = i) (hrest : segments.drop i = 0 :: rest) :
    ZeroRun segments (start, len + 1) := by
  obtain ⟨hle, hzero⟩ := h
  have hlt : i < segments.length := by
    by_contra hnot
    rw [List.drop_eq_nil_of_le (Nat.le_of_not_lt hnot)] at hrest
    cases hrest
  refine ⟨by simp only at hle ⊢; omega, ?_⟩
  simp only at hzero ⊢
  rw [List.take_add, hzero, List.drop_drop, hend, hrest]
  simp [List.replicate_add]

/-- **The longest run** is a run. -/
theorem zeroRun_zeroes {whole : List UInt16} {segments : List UInt16} {i : ℕ}
    {longest current : ℕ × ℕ} (hdrop : whole.drop i = segments) (hi : i ≤ whole.length)
    (hlongest : ZeroRun whole longest) (hcurrent : ZeroRun whole current)
    (hend : current.2 = 0 ∨ current.1 + current.2 = i) :
    ZeroRun whole (Ipv6Addr.zeroes segments i longest current) := by
  induction segments generalizing i longest current with
  | nil => exact hlongest
  | cons segment segments ih =>
    have hlt : i < whole.length := by
      by_contra hnot
      rw [List.drop_eq_nil_of_le (Nat.le_of_not_lt hnot)] at hdrop
      cases hdrop
    have hnext : whole.drop (i + 1) = segments := by
      rw [← List.drop_drop, hdrop]
      rfl
    by_cases hzero : segment = 0
    · -- the run before goes on, or one begins here
      subst hzero
      have hrun : ZeroRun whole (if current.2 = 0 then i else current.1, current.2 + 1) := by
        split_ifs with hempty
        · rw [hempty]
          exact ZeroRun.succ (i := i) ⟨by simpa using hi, rfl⟩ rfl hdrop
        · exact hcurrent.succ (hend.resolve_left hempty) hdrop
      have hrunEnd : (if current.2 = 0 then i else current.1) + (current.2 + 1) = i + 1 := by
        split_ifs with hempty
        · omega
        · have := hend.resolve_left hempty
          omega
      rw [Ipv6Addr.zeroes, if_pos rfl]
      refine ih hnext hlt ?_ hrun (.inr hrunEnd)
      by_cases hlonger : longest.2 < current.2 + 1
      · rw [if_pos hlonger]
        exact hrun
      · rw [if_neg hlonger]
        exact hlongest
    · rw [Ipv6Addr.zeroes, if_neg hzero]
      exact ih hnext hlt hlongest (zeroRun_empty whole) (.inl rfl)

/-! ## Addresses -/

namespace Ipv6Addr

theorem ofList_segments (ip : Ipv6Addr) : ofList ip.segments = ip := by
  obtain ⟨segments, hlen⟩ := ip
  unfold ofList
  congr 1
  rw [← hlen, List.take_left' rfl]

theorem segments_of_mapped {ip : Ipv6Addr} {ipv4 : Ipv4Addr} (h : ip.toIpv4Mapped = some ipv4) :
    ip.segments = [0, 0, 0, 0, 0, 0xFFFF] ++ ipv4.segments := by
  have hword : ∀ w : UInt16, UInt16.ofNat ((UInt8.ofNat (w.toNat / 256)).toNat * 256 +
      (UInt8.ofNat w.toNat).toNat) = w := by
    intro w
    have hlt : w.toNat < 65536 := w.toNat_lt
    apply UInt16.toNat_inj.mp
    simp only [UInt8.toNat_ofNat', UInt16.toNat_ofNat']
    omega
  unfold toIpv4Mapped at h
  split at h
  · next ab cd heq =>
    obtain rfl := Option.some.inj h
    rw [heq, Ipv4Addr.segments, hword, hword]
    rfl
  · cases h

theorem read_mapped {ip : Ipv6Addr} {ipv4 : Ipv4Addr} (h : ip.toIpv4Mapped = some ipv4) :
    read ("::ffff:".toList ++ ipv4.display) = some (ip, []) := by
  let rest : Text := hexGroup 0xFFFF ++ ':' :: ipv4.display
  have htext : "::ffff:".toList ++ ipv4.display = ':' :: ':' :: rest := rfl
  have hhead : readGroups 8 true (':' :: ':' :: rest) = ([], false, ':' :: ':' :: rest) :=
    readGroups_after (.inr ⟨rest, rfl⟩) 8 true
  have hends : Ends 16 (':' :: ipv4.display) := by
    intro c hc
    obtain rfl := Option.some.inj hc
    decide
  have hgroup : readGroup rest = some (0xFFFF, ':' :: ipv4.display) := readGroup_hexGroup 0xFFFF hends
  have hnone : Ipv4Addr.read rest = none := rfl
  have hipv4 : Ipv4Addr.read ipv4.display = some (ipv4, []) := by
    have hread := ipv4.read_display (ends_nil 10)
    rwa [List.append_nil] at hread
  have htail : readGroups 7 true rest = (0xFFFF :: ipv4.segments, true, []) := by
    have hlast : readGroups 6 false (':' :: ipv4.display) = (ipv4.segments, true, []) := by
      rw [readGroups]
      simp [readSeparator, hipv4]
    rw [readGroups]
    simp [readSeparator, hnone, hgroup, hlast]
  rw [htext, read, hhead]
  simp only [List.length_nil, Nat.zero_add, htail]
  have hsegments := segments_of_mapped h
  have hall : [] ++ List.replicate (8 - 0 - (0xFFFF :: ipv4.segments).length) 0 ++
      0xFFFF :: ipv4.segments = ip.segments := by
    rw [hsegments]
    rfl
  rw [hall, ofList_segments]
  rfl

/-- **An address is read back as it was displayed.** -/
theorem read_display (ip : Ipv6Addr) : read ip.display = some (ip, []) := by
  unfold display
  cases hmapped : ip.toIpv4Mapped with
  | some ipv4 => exact read_mapped hmapped
  | none =>
    have hrun : ZeroRun ip.segments (zeroes ip.segments 0 (0, 0) (0, 0)) :=
      zeroRun_zeroes rfl (Nat.zero_le _) (zeroRun_empty _) (zeroRun_empty _) (.inl rfl)
    generalize zeroes ip.segments 0 (0, 0) (0, 0) = run at hrun
    obtain ⟨start, len⟩ := run
    obtain ⟨hle, hzero⟩ := hrun
    have height := ip.length_eq
    simp only at hle hzero ⊢
    split_ifs with hlong
    · -- two colons stand for the run
      generalize hhead : ip.segments.take start = head
      generalize htail : ip.segments.drop (start + len) = tail
      have hheadLen : head.length = start := by
        rw [← hhead, List.length_take]
        omega
      have htailLen : tail.length = 8 - (start + len) := by rw [← htail, List.length_drop, height]
      have hdot : '.' ∉ ':' :: ':' :: hexGroups tail := by
        simp [dot_notMem_hexGroups tail]
      have hread := (@readGroups_true head _) (.inr ⟨hexGroups tail, rfl⟩) hdot
        (n := 8) (by omega)
      have hreadTail := (@readGroups_true tail _) (.inl rfl) (by simp)
        (n := 8 - (head.length + 1)) (by omega)
      rw [List.append_nil] at hreadTail
      have hall : head ++ List.replicate (8 - head.length - tail.length) 0 ++ tail = ip.segments := by
        have hcount : 8 - head.length - tail.length = len := by omega
        rw [hcount, ← hzero, ← hhead, ← htail, ← List.drop_drop, List.append_assoc,
          List.take_append_drop, List.take_append_drop]
      unfold read
      rw [hread]
      simp only [hreadTail, hall, ofList_segments]
      rw [if_neg (by omega)]
      rfl
    · have hread := (@readGroups_true ip.segments _) (.inl rfl) (by simp) (n := 8) height.le
      rw [List.append_nil] at hread
      unfold read
      rw [hread]
      simp only [height, if_true, ofList_segments]

theorem ipv4_read_display (ip : Ipv6Addr) : Ipv4Addr.read ip.display = none := by
  unfold display
  cases hmapped : ip.toIpv4Mapped with
  | some ipv4 => rfl
  | none =>
    refine Ipv4Addr.read_eq_none ?_
    dsimp only
    split_ifs
    · simp [dot_notMem_hexGroups]
    · exact dot_notMem_hexGroups _

end Ipv6Addr

namespace IpAddr

/-- **Every address is read back as it was displayed.** -/
theorem parse_display (ip : IpAddr) : parse ip.display = some ip := by
  cases ip with
  | v4 ip =>
    have hread := ip.read_display (ends_nil 10)
    rw [List.append_nil] at hread
    simp [parse, display, hread]
  | v6 ip => simp [parse, display, ip.ipv4_read_display, ip.read_display]

end IpAddr

/-! ## The characters of an address -/

/-- A digit, or a mark between digits. -/
def isAddressChar (c : Char) : Bool := isDigit 16 c || c = '.' || c = ':'

theorem isAddressChar_of_isDigit {c : Char} (h : isDigit 10 c = true) : isAddressChar c = true := by
  have hlt : digitValue c < 10 := of_decide_eq_true h
  have hhex : isDigit 16 c = true := decide_eq_true (by omega)
  simp [isAddressChar, hhex]

namespace Ipv4Addr

theorem isAddressChar_of_mem_display {ip : Ipv4Addr} {c : Char} (h : c ∈ ip.display) :
    isAddressChar c = true := by
  have hdigits : ∀ n : ℕ, c ∈ Nat.toDigits 10 n → isAddressChar c = true := fun n hc =>
    isAddressChar_of_isDigit (Net.isDigit_of_mem_toDigits (by decide) (by decide) n c hc)
  simp only [display, List.mem_append, List.mem_cons] at h
  rcases h with h | rfl | h | rfl | h | rfl | h
  · exact hdigits _ h
  · rfl
  · exact hdigits _ h
  · rfl
  · exact hdigits _ h
  · rfl
  · exact hdigits _ h

end Ipv4Addr

namespace Ipv6Addr

theorem isAddressChar_of_mem_hexGroups {segments : List UInt16} {c : Char}
    (h : c ∈ hexGroups segments) : isAddressChar c = true := by
  rcases mem_hexGroups h with h | rfl
  · simp [isAddressChar, h]
  · rfl

theorem isAddressChar_of_mem_display {ip : Ipv6Addr} {c : Char} (h : c ∈ ip.display) :
    isAddressChar c = true := by
  unfold display at h
  cases hmapped : ip.toIpv4Mapped with
  | some ipv4 =>
    rw [hmapped] at h
    rcases List.mem_append.mp h with h | h
    · have hlead : c = ':' ∨ c = ':' ∨ c = 'f' ∨ c = 'f' ∨ c = 'f' ∨ c = 'f' ∨ c = ':' := by
        simpa using h
      rcases hlead with rfl | rfl | rfl | rfl | rfl | rfl | rfl <;> rfl
    · exact Ipv4Addr.isAddressChar_of_mem_display h
  | none =>
    rw [hmapped] at h
    dsimp only at h
    split_ifs at h
    · simp only [List.mem_append, List.mem_cons] at h
      rcases h with h | rfl | rfl | h
      · exact isAddressChar_of_mem_hexGroups h
      · rfl
      · rfl
      · exact isAddressChar_of_mem_hexGroups h
    · exact isAddressChar_of_mem_hexGroups h

end Ipv6Addr

namespace IpAddr

theorem isAddressChar_of_mem_display {ip : IpAddr} {c : Char} (h : c ∈ ip.display) :
    isAddressChar c = true := by
  cases ip with
  | v4 ip => exact ip.isAddressChar_of_mem_display h
  | v6 ip => exact ip.isAddressChar_of_mem_display h

theorem display_ne_nil (ip : IpAddr) : ip.display ≠ [] := by
  intro h
  have hparse := parse_display ip
  rw [h] at hparse
  cases hparse

end IpAddr

end Net
