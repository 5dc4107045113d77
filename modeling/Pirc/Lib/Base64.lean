import Mathlib.Tactic

/-!
# Base64

Bytes as text in the standard alphabet of RFC 4648, with padding. Only what `encode` writes is read
back: the padding has to be there, and the bits that it leaves over have to be zero.

## Main results

* `Base64.length_encode`: three bytes take four characters
* `Base64.plain_of_mem_encode`: the characters are ASCII, and none of them a space or a colon
-/

namespace Base64

/-! ## Digits -/

/-- The character of a value of six bits. -/
def encodeDigit (n : ℕ) : Char :=
  if n < 26 then .ofNat (65 + n)
  else if n < 52 then .ofNat (71 + n)
  else if n < 62 then .ofNat (n - 4)
  else if n = 62 then '+'
  else '/'

def decodeDigit (c : Char) : Option ℕ :=
  let code := c.toNat
  if 65 ≤ code ∧ code ≤ 90 then some (code - 65)
  else if 97 ≤ code ∧ code ≤ 122 then some (code - 71)
  else if 48 ≤ code ∧ code ≤ 57 then some (code + 4)
  else if c = '+' then some 62
  else if c = '/' then some 63
  else none

/-- ASCII, and neither a space nor a colon. -/
def Plain (c : Char) : Prop := c.val.toNat < 128 ∧ c ≠ ' ' ∧ c ≠ ':'

instance (c : Char) : Decidable (Plain c) := inferInstanceAs (Decidable (_ ∧ _ ∧ _))

theorem plain_encodeDigit {n : ℕ} (h : n < 64) : Plain (encodeDigit n) := by
  have hall : ∀ n : Fin 64, Plain (encodeDigit n) := by decide
  exact hall ⟨n, h⟩

/-! ## Groups -/

/-- Write bytes, three at a time. -/
def encode : List UInt8 → List Char
  | [] => []
  | [a] =>
    [encodeDigit (a.toNat / 4), encodeDigit (a.toNat % 4 * 16), '=', '=']
  | [a, b] =>
    [encodeDigit (a.toNat / 4), encodeDigit (a.toNat % 4 * 16 + b.toNat / 16),
      encodeDigit (b.toNat % 16 * 4), '=']
  | a :: b :: c :: rest =>
    encodeDigit (a.toNat / 4) :: encodeDigit (a.toNat % 4 * 16 + b.toNat / 16) ::
      encodeDigit (b.toNat % 16 * 4 + c.toNat / 64) :: encodeDigit (c.toNat % 64) :: encode rest

/-- A group of four digits, as three bytes. -/
def decodeGroup (w x y z : Char) : Option (List UInt8) := do
  let w ← decodeDigit w
  let x ← decodeDigit x
  let y ← decodeDigit y
  let z ← decodeDigit z
  return [.ofNat (w * 4 + x / 16), .ofNat (x % 16 * 16 + y / 4), .ofNat (y % 4 * 64 + z)]

def decodeLast (w x y : Char) : Option (List UInt8) := do
  let w ← decodeDigit w
  let x ← decodeDigit x
  if y = '=' then
    guard (x % 16 = 0)
    return [.ofNat (w * 4 + x / 16)]
  else
    let y ← decodeDigit y
    guard (y % 4 = 0)
    return [.ofNat (w * 4 + x / 16), .ofNat (x % 16 * 16 + y / 4)]

/-- Read bytes, four characters at a time. -/
def decode : List Char → Option (List UInt8)
  | [] => some []
  | w :: x :: y :: z :: rest =>
    if z = '=' then if rest = [] then decodeLast w x y else none
    else do
      let bytes ← decodeGroup w x y z
      let more ← decode rest
      return bytes ++ more
  | _ => none

/-! ## The text -/

/-- **Three bytes take four characters.** -/
theorem length_encode (bytes : List UInt8) :
    (encode bytes).length = (bytes.length + 2) / 3 * 4 := by
  induction bytes using encode.induct with
  | case1 => rfl
  | case2 a => simp [encode]
  | case3 a b => simp [encode]
  | case4 a b c rest ih =>
    simp only [encode, List.length_cons, ih]
    omega

/-- **The characters are plain.** -/
theorem plain_of_mem_encode {bytes : List UInt8} {c : Char} (h : c ∈ encode bytes) : Plain c := by
  have hpad : Plain '=' := by decide
  have hdigit : ∀ {n}, n < 64 → ∀ {c}, c = encodeDigit n → Plain c := by
    rintro n hn c rfl
    exact plain_encodeDigit hn
  induction bytes using encode.induct with
  | case1 => cases h
  | case2 a =>
    have ha : a.toNat < 256 := a.toNat_lt
    simp only [encode, List.mem_cons, List.not_mem_nil, or_false] at h
    rcases h with h | h | rfl | rfl
    · exact hdigit (by omega) h
    · exact hdigit (by omega) h
    · exact hpad
    · exact hpad
  | case3 a b =>
    have ha : a.toNat < 256 := a.toNat_lt
    have hb : b.toNat < 256 := b.toNat_lt
    simp only [encode, List.mem_cons, List.not_mem_nil, or_false] at h
    rcases h with h | h | h | rfl
    · exact hdigit (by omega) h
    · exact hdigit (by omega) h
    · exact hdigit (by omega) h
    · exact hpad
  | case4 a b d rest ih =>
    have ha : a.toNat < 256 := a.toNat_lt
    have hb : b.toNat < 256 := b.toNat_lt
    have hd : d.toNat < 256 := d.toNat_lt
    simp only [encode, List.mem_cons] at h
    rcases h with h | h | h | h | h
    · exact hdigit (by omega) h
    · exact hdigit (by omega) h
    · exact hdigit (by omega) h
    · exact hdigit (by omega) h
    · exact ih h

example : encode [80, 105, 114] = ['U', 'G', 'l', 'y'] := by decide

end Base64
