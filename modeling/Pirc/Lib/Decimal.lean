import Mathlib.Tactic

/-!
# Numbers as text

How an unsigned integer of some width is read from decimal text: digits, maybe after a plus sign.

## Main results

* `Decimal.parse_toDigits`: a number that fits is read back as it was written
* `Decimal.toDigits_suffix`: digits end in those of their value
-/

namespace Decimal

inductive ParseIntError
  | empty
  | invalidDigit
  | posOverflow
  deriving DecidableEq

def ParseIntError.text : ParseIntError → String
  | empty => "cannot parse integer from empty string"
  | invalidDigit => "invalid digit found in string"
  | posOverflow => "number too large to fit in target type"

def parseDigits (bound : ℕ) : ℕ → List Char → Except ParseIntError ℕ
  | n, [] => .ok n
  | n, c :: cs =>
    if c.isDigit then
      let next := 10 * n + (c.toNat - '0'.toNat)
      if bound ≤ next then .error .posOverflow else parseDigits bound next cs
    else .error .invalidDigit

/-- The number, or what is wrong with the text. -/
def parse (bits : ℕ) (s : List Char) : Except ParseIntError ℕ :=
  match s with
  | [] => .error .empty
  | [c] => if c = '+' ∨ c = '-' then .error .invalidDigit else parseDigits (2 ^ bits) 0 [c]
  | c :: cs => parseDigits (2 ^ bits) 0 (if c = '+' then cs else c :: cs)

theorem isDigit_of_mem_toDigits {n : ℕ} {c : Char} (h : c ∈ Nat.toDigits 10 n) : c.isDigit = true :=
  Nat.isDigit_of_mem_toDigits (by decide) (by decide) h

theorem parseDigits_eq {bound : ℕ} {cs : List Char} (hdigits : ∀ c ∈ cs, c.isDigit = true) {n : ℕ}
    (hbound : Nat.ofDigitChars 10 cs n < bound) :
    parseDigits bound n cs = .ok (Nat.ofDigitChars 10 cs n) := by
  induction cs generalizing n with
  | nil => rw [parseDigits, Nat.ofDigitChars_nil]
  | cons c cs ih =>
    rw [Nat.ofDigitChars_cons] at hbound ⊢
    have hgrow : 10 * n + (c.toNat - '0'.toNat) ≤
        Nat.ofDigitChars 10 cs (10 * n + (c.toNat - '0'.toNat)) := by
      rw [Nat.ofDigitChars_eq_ofDigitChars_zero]
      exact (Nat.le_mul_of_pos_left _ (by positivity)).trans (Nat.le_add_right _ _)
    rw [parseDigits, if_pos (hdigits c List.mem_cons_self)]
    dsimp only
    rw [if_neg (by omega)]
    exact ih (fun c hc => hdigits c (List.mem_cons_of_mem _ hc)) hbound

/-- **A number that fits is read back as it was written.** -/
theorem parse_toDigits {bits n : ℕ} (h : n < 2 ^ bits) : parse bits (Nat.toDigits 10 n) = .ok n := by
  have hvalue : Nat.ofDigitChars 10 (Nat.toDigits 10 n) 0 = n := Nat.ofDigitChars_ten_toDigits
  have hdigits : ∀ c ∈ Nat.toDigits 10 n, c.isDigit = true := fun c hc => isDigit_of_mem_toDigits hc
  have hread := (@parseDigits_eq (2 ^ bits)) hdigits (n := 0) (by rw [hvalue]; exact h)
  rw [hvalue] at hread
  have hsign : ∀ c ∈ Nat.toDigits 10 n, c ≠ '+' ∧ c ≠ '-' := by
    intro c hc
    have hdigit := hdigits c hc
    constructor <;> (rintro rfl; revert hdigit; decide)
  have hne : Nat.toDigits 10 n ≠ [] := Nat.toDigits_ne_nil
  generalize Nat.toDigits 10 n = text at *
  unfold parse
  split
  · exact absurd rfl hne
  · next c =>
    obtain ⟨hplus, hminus⟩ := hsign c List.mem_cons_self
    rw [if_neg (by simp [hplus, hminus])]
    exact hread
  · next c cs _ =>
    obtain ⟨hplus, -⟩ := hsign c List.mem_cons_self
    rw [if_neg hplus]
    exact hread

/-! ## Numbers that are not written as they would be -/

theorem digitChar_of_isDigit {c : Char} (h : c.isDigit = true) :
    c.toNat - '0'.toNat < 10 ∧ (c.toNat - '0'.toNat).digitChar = c := by
  have hzero : '0'.val.toNat = 48 := rfl
  have hnine : '9'.val.toNat = 57 := rfl
  have hbounds : 48 ≤ c.toNat ∧ c.toNat ≤ 57 := by
    simp only [Char.isDigit, Bool.and_eq_true, decide_eq_true_eq, ge_iff_le, UInt32.le_iff_toNat_le] at h
    exact ⟨h.1, h.2⟩
  have hlt : c.toNat - '0'.toNat < 10 := by
    show c.toNat - 48 < 10
    omega
  refine ⟨hlt, Char.toNat_inj.mp ?_⟩
  rw [Nat.toNat_digitChar_of_lt_ten hlt]
  show 48 + (c.toNat - 48) = c.toNat
  omega

/-- **Digits end in those of their value**; there may be zeros before. -/
theorem toDigits_suffix {text : List Char} (hne : text ≠ []) (hdigits : ∀ c ∈ text, c.isDigit = true) :
    Nat.toDigits 10 (Nat.ofDigitChars 10 text 0) <:+ text := by
  induction text using List.reverseRecOn with
  | nil => exact absurd rfl hne
  | append_singleton text d ih =>
    obtain ⟨hlt, hchar⟩ := digitChar_of_isDigit (hdigits d (by simp))
    have hvalue : Nat.ofDigitChars 10 (text ++ [d]) 0 =
        10 * Nat.ofDigitChars 10 text 0 + (d.toNat - '0'.toNat) := by
      rw [Nat.ofDigitChars_append, Nat.ofDigitChars_cons, Nat.ofDigitChars_nil]
    have hlast : Nat.toDigits 10 (d.toNat - '0'.toNat) = [d] := by
      rw [Nat.toDigits_of_lt_base hlt, hchar]
    rw [hvalue]
    rcases Nat.eq_zero_or_pos (Nat.ofDigitChars 10 text 0) with hzero | hpos
    · rw [hzero, Nat.mul_zero, Nat.zero_add, hlast]
      exact List.suffix_append _ _
    · have htext : text ≠ [] := by
        rintro rfl
        rw [Nat.ofDigitChars_nil] at hpos
        exact absurd hpos (Nat.lt_irrefl 0)
      rw [← Nat.toDigits_append_toDigits (by decide) hpos hlt, hlast]
      obtain ⟨zeros, hzeros⟩ := ih htext fun c hc => hdigits c (List.mem_append_left _ hc)
      exact ⟨zeros, by rw [← List.append_assoc, hzeros]⟩

theorem of_parseDigits {bound n value : ℕ} {cs : List Char} (hn : n < bound)
    (h : parseDigits bound n cs = .ok value) : value = Nat.ofDigitChars 10 cs n ∧ value < bound := by
  induction cs generalizing n with
  | nil =>
    cases h
    exact ⟨Nat.ofDigitChars_nil.symm, hn⟩
  | cons c cs ih =>
    rw [parseDigits] at h
    dsimp only at h
    split_ifs at h with hdigit hlarge
    rw [Nat.ofDigitChars_cons]
    exact ih (Nat.lt_of_not_le hlarge) h

theorem of_parse {bits value : ℕ} {text : List Char} (hdigits : ∀ c ∈ text, c.isDigit = true)
    (h : parse bits text = .ok value) : value = Nat.ofDigitChars 10 text 0 ∧ value < 2 ^ bits := by
  have hbound : 0 < 2 ^ bits := Nat.two_pow_pos bits
  unfold parse at h
  split at h
  · cases h
  · split_ifs at h
    exact of_parseDigits hbound h
  · next c cs _ =>
    have hplus : c ≠ '+' := by
      rintro rfl
      exact absurd (hdigits _ List.mem_cons_self) (by decide)
    rw [if_neg hplus] at h
    exact of_parseDigits hbound h

end Decimal
