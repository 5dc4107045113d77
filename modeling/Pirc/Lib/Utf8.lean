import Pirc.Lib.Text

/-!
# Positions in the bytes of a text

A program that goes through a text byte by byte, and takes parts of it between two bytes, is right
as long as it stops between characters. What it asks a byte for is told by the character that the
byte is of, where the question is about ASCII characters.

## Main results

* `SeesBytes.takeWhile`: a loop over bytes stops where the one over characters does
-/

/-! ## ASCII texts -/

theorem length_utf8EncodeChar_pos (c : Char) : 0 < (String.utf8EncodeChar c).length := by
  rw [String.length_utf8EncodeChar]
  exact c.utf8Size_pos

/-- **ASCII texts** are those with as many bytes as characters. -/
theorem length_utf8_eq_iff {text : List Char} :
    (utf8 text).length = text.length ↔ ∀ c ∈ text, c.val.toNat < 128 := by
  induction text with
  | nil => simp
  | cons c text ih =>
    have hle := length_le_length_utf8 text
    have hone : (String.utf8EncodeChar c).length = 1 ↔ c.val.toNat < 128 := by
      rw [String.length_utf8EncodeChar, Char.utf8Size_eq_one_iff, UInt32.le_iff_toNat_le]
      exact Nat.lt_succ_iff.symm
    have hpos := length_utf8EncodeChar_pos c
    rw [utf8_cons, List.length_append, List.length_cons, List.forall_mem_cons, ← ih, ← hone]
    omega

/-! ## Positions -/

/-- A position between two characters of a text. -/
structure Cursor where
  before : List Char
  rest : List Char

namespace Cursor

variable (c : Cursor) (n : ℕ)

def text : List Char := c.before ++ c.rest

def offset : ℕ := (utf8 c.before).length

def width : ℕ := (utf8 (c.rest.take n)).length

/-- The position so many characters later. -/
def forward : Cursor := ⟨c.before ++ c.rest.take n, c.rest.drop n⟩

@[simp] theorem text_forward : (c.forward n).text = c.text := by
  simp [forward, text]

@[simp] theorem offset_forward : (c.forward n).offset = c.offset + c.width n := by
  simp [forward, offset, width]

@[simp] theorem rest_forward : (c.forward n).rest = c.rest.drop n := rfl

@[simp] theorem width_zero : c.width 0 = 0 := by
  simp [width]

@[simp] theorem forward_zero : c.forward 0 = c := by
  simp [forward]

theorem forward_length {part behind : List Char} (h : c.rest = part ++ behind) :
    c.forward part.length = ⟨c.before ++ part, behind⟩ := by
  rw [forward, h, List.take_left, List.drop_left]

theorem forward_forward (m : ℕ) : (c.forward m).forward n = c.forward (m + n) := by
  simp only [forward, List.append_assoc, ← List.take_add, List.drop_drop]

theorem width_add (m : ℕ) : c.width (m + n) = c.width m + (c.forward m).width n := by
  simp only [width, forward, List.take_add, utf8_append, List.length_append]

theorem drop_utf8 : (utf8 c.text).drop c.offset = utf8 c.rest := by
  rw [text, offset, utf8_append, List.drop_left]

theorem length_utf8_text : (utf8 c.text).length = c.offset + (utf8 c.rest).length := by
  rw [text, offset, utf8_append, List.length_append]

theorem width_one {a : Char} (h : c.rest.head? = some a) :
    c.width 1 = (String.utf8EncodeChar a).length := by
  obtain ⟨rest, hrest⟩ : ∃ rest, c.rest = a :: rest := List.head?_eq_some_iff.mp h
  rw [width, hrest]
  simp [utf8]

theorem width_pos (h : c.rest ≠ []) (hn : 0 < n) : 0 < c.width n := by
  obtain ⟨a, rest, hrest⟩ := List.exists_cons_of_ne_nil h
  obtain ⟨n, rfl⟩ := Nat.exists_eq_succ_of_ne_zero (Nat.ne_of_gt hn)
  rw [width, hrest, List.take_succ_cons, utf8_cons, List.length_append]
  exact Nat.add_pos_left (length_utf8EncodeChar_pos a) _

end Cursor

/-! ## Parts of a text -/

/-- The characters of the first so many bytes, and those behind, if the bytes end between
characters. -/
def splitBytes : List Char → ℕ → Option (List Char × List Char)
  | text, 0 => some ([], text)
  | [], _ + 1 => none
  | c :: text, n + 1 =>
    if (String.utf8EncodeChar c).length ≤ n + 1 then
      (splitBytes text (n + 1 - (String.utf8EncodeChar c).length)).map fun (before, behind) =>
        (c :: before, behind)
    else none

/-- The part from one byte up to another, if both are between characters. -/
def strSlice (text : List Char) (start stop : ℕ) : Option (List Char) :=
  if stop < start then none
  else do
    let (_, behind) ← splitBytes text start
    let (part, _) ← splitBytes behind (stop - start)
    some part

theorem splitBytes_zero (text : List Char) : splitBytes text 0 = some ([], text) := by
  unfold splitBytes
  rfl

theorem splitBytes_append (before behind : List Char) :
    splitBytes (before ++ behind) (utf8 before).length = some (before, behind) := by
  induction before with
  | nil => exact splitBytes_zero behind
  | cons c before ih =>
    obtain ⟨n, hn⟩ : ∃ n, (utf8 (c :: before)).length = n + 1 := by
      refine Nat.exists_eq_succ_of_ne_zero (Nat.ne_of_gt ?_)
      rw [utf8_cons, List.length_append]
      exact Nat.add_pos_left (length_utf8EncodeChar_pos c) _
    have hlength : (String.utf8EncodeChar c).length + (utf8 before).length = n + 1 := by
      rw [← hn, utf8_cons, List.length_append]
    rw [hn, List.cons_append, splitBytes, if_pos (by omega),
      show n + 1 - (String.utf8EncodeChar c).length = (utf8 before).length by omega, ih]
    rfl

theorem Cursor.eq_of_offset_eq {c c' : Cursor} (htext : c.text = c'.text)
    (h : c.offset = c'.offset) : c = c' := by
  have hsplit : splitBytes c.text c.offset = some (c.before, c.rest) := splitBytes_append _ _
  have hsplit' : splitBytes c'.text c'.offset = some (c'.before, c'.rest) := splitBytes_append _ _
  rw [htext, h, hsplit'] at hsplit
  obtain ⟨hbefore, hrest⟩ := Prod.mk.inj (Option.some.inj hsplit)
  cases c
  cases c'
  exact congrArg₂ Cursor.mk hbefore.symm hrest.symm

/-- **The part between two positions.** -/
theorem strSlice_cursor (c : Cursor) (n : ℕ) :
    strSlice c.text c.offset (c.offset + c.width n) = some (c.rest.take n) := by
  have hsplit : splitBytes c.rest (c.width n) = some (c.rest.take n, c.rest.drop n) := by
    have h := splitBytes_append (c.rest.take n) (c.rest.drop n)
    rwa [List.take_append_drop] at h
  have hstart : splitBytes c.text c.offset = some (c.before, c.rest) := splitBytes_append _ _
  rw [strSlice, if_neg (by omega), hstart]
  simp only [Option.bind_eq_bind, Option.bind_some, Nat.add_sub_cancel_left, hsplit]

/-! ## Questions about bytes -/

/-- **One answer for all bytes of a character.** -/
def SeesBytes (p : UInt8 → Bool) (q : Char → Bool) : Prop := ∀ c, ∀ b ∈ String.utf8EncodeChar c, p b = q c

theorem SeesBytes.not {p : UInt8 → Bool} {q : Char → Bool} (h : SeesBytes p q) :
    SeesBytes (fun b => !p b) fun c => !q c :=
  fun c b hb => congrArg Bool.not (h c b hb)

theorem SeesBytes.or {p p' : UInt8 → Bool} {q q' : Char → Bool} (h : SeesBytes p q)
    (h' : SeesBytes p' q') : SeesBytes (fun b => p b || p' b) fun c => q c || q' c :=
  fun c b hb => congrArg₂ Bool.or (h c b hb) (h' c b hb)

theorem SeesBytes.takeWhile {p : UInt8 → Bool} {q : Char → Bool} (h : SeesBytes p q)
    (text : List Char) : (utf8 text).takeWhile p = utf8 (text.takeWhile q) := by
  induction text with
  | nil => rfl
  | cons c text ih =>
    rw [utf8_cons, List.takeWhile_cons]
    cases hq : q c with
    | true =>
      have hall : ∀ b ∈ String.utf8EncodeChar c, p b = true := fun b hb => (h c b hb).trans hq
      rw [List.takeWhile_append_of_pos hall, ih, if_pos rfl, utf8_cons]
    | false =>
      obtain ⟨b, bytes, hbytes⟩ := List.exists_cons_of_length_pos (length_utf8EncodeChar_pos c)
      have hb : p b = false := (h c b (hbytes ▸ List.mem_cons_self)).trans hq
      rw [hbytes, List.cons_append, List.takeWhile_cons, hb]
      rfl

/-- The byte of an ASCII character. -/
def asciiByte (c : Char) : UInt8 := UInt8.ofNat c.val.toNat

/-- The byte is an ASCII character with this property. -/
def isAscii (q : Char → Bool) (b : UInt8) : Bool := b.toNat < 128 && q (Char.ofNat b.toNat)

theorem seesBytes_isAscii {q : Char → Bool} (h : ∀ c, q c = true → c.val.toNat < 128) :
    SeesBytes (isAscii q) q := by
  intro c b hb
  unfold isAscii
  by_cases hlt : b.toNat < 128
  · have hval := (eq_singleton_of_mem_utf8EncodeChar hb hlt).2
    have hchar : Char.ofNat b.toNat = c := by
      rw [← hval]
      exact Char.ofNat_toNat c
    rw [hchar, decide_eq_true hlt, Bool.true_and]
  · have hq : q c = false := by
      by_contra hne
      have hascii := h c (by simpa using hne)
      rw [utf8EncodeChar_of_ascii hascii, List.mem_singleton] at hb
      subst hb
      rw [UInt8.toNat_ofNat'] at hlt
      omega
    rw [hq, decide_eq_false hlt, Bool.false_and]

theorem isDigit_ascii {d : Char} (h : d.isDigit = true) : d.val.toNat < 128 := by
  have hnine : '9'.val.toNat = 57 := rfl
  simp only [Char.isDigit, Bool.and_eq_true, decide_eq_true_eq, ge_iff_le,
    UInt32.le_iff_toNat_le] at h
  omega

theorem seesBytes_asciiByte {a : Char} (ha : a.val.toNat < 128) :
    SeesBytes (fun b => b = asciiByte a) fun c => c = a := by
  intro c b hb
  refine decide_eq_decide.mpr ⟨?_, ?_⟩
  · rintro rfl
    exact eq_of_ascii_mem_utf8EncodeChar ha hb
  · rintro rfl
    rwa [utf8EncodeChar_of_ascii ha, List.mem_singleton] at hb

/-! ## Bytes as ASCII characters -/

/-- The ASCII character that a byte is, if it is one. -/
def asciiOf (b : UInt8) : Option Char := if b.toNat < 128 then some (Char.ofNat b.toNat) else none

def asciiOnly (c : Char) : Option Char := if c.val.toNat < 128 then some c else none

theorem asciiOf_of_mem {c : Char} {b : UInt8} (hb : b ∈ String.utf8EncodeChar c) :
    asciiOf b = asciiOnly c := by
  unfold asciiOf asciiOnly
  by_cases hlt : b.toNat < 128
  · obtain ⟨hlen, hval⟩ := eq_singleton_of_mem_utf8EncodeChar hb hlt
    rw [if_pos hlt, if_pos (hval ▸ hlt), ← hval]
    exact congrArg some (Char.ofNat_toNat c)
  · have hnot : ¬ c.val.toNat < 128 := by
      intro hascii
      rw [utf8EncodeChar_of_ascii hascii, List.mem_singleton] at hb
      subst hb
      rw [UInt8.toNat_ofNat'] at hlt
      omega
    rw [if_neg hlt, if_neg hnot]

theorem asciiOf_head?_utf8 (text : List Char) :
    (utf8 text).head?.bind asciiOf = text.head?.bind asciiOnly := by
  cases text with
  | nil => rfl
  | cons c text =>
    obtain ⟨b, bytes, hbytes⟩ := List.exists_cons_of_length_pos (length_utf8EncodeChar_pos c)
    rw [utf8_cons, hbytes]
    exact asciiOf_of_mem (hbytes ▸ List.mem_cons_self)

theorem asciiOnly_eq_some {c a : Char} : asciiOnly c = some a ↔ c = a ∧ c.val.toNat < 128 := by
  unfold asciiOnly
  split_ifs with h
  · exact ⟨fun heq => ⟨Option.some.inj heq, h⟩, fun heq => congrArg some heq.1⟩
  · exact ⟨nofun, fun heq => absurd heq.2 h⟩
