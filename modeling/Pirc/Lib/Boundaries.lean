import Pirc.Lib.Utf8

/-!
# Characters among bytes

The first byte of a character in UTF-8 is told from those that continue it, so that the bytes of a
text can be searched for the characters next to a position.

## Main results

* `takeWhile_isContinuation`: the bytes of a character end where the next one starts
* `insertByte_cursor`, `drainBytes_cursor`, `truncateBytes_cursor`: what is done at a position
  between characters
-/

/-- The byte continues a character. -/
def isContinuation (b : UInt8) : Bool := b &&& 0xC0 = 0x80

theorem isContinuation_iff (b : UInt8) : isContinuation b = true ↔ 128 ≤ b.toNat ∧ b.toNat < 192 := by
  have hall : ∀ n : Fin 256, isContinuation (UInt8.ofFin n) = true ↔ 128 ≤ n.val ∧ n.val < 192 := by
    decide +kernel
  exact hall b.toFin

/-- **The bytes of a character**: the first one does not continue a character, and the others do. -/
theorem utf8EncodeChar_eq_cons (c : Char) :
    ∃ lead tail, String.utf8EncodeChar c = lead :: tail ∧ isContinuation lead = false ∧
      ∀ b ∈ tail, isContinuation b = true := by
  have hlead : ∀ {b : UInt8}, ¬ (128 ≤ b.toNat ∧ b.toNat < 192) → isContinuation b = false := fun h =>
    Bool.eq_false_iff.mpr (mt (isContinuation_iff _).mp h)
  have hvalid := c.valid
  unfold String.utf8EncodeChar
  dsimp only
  split_ifs with h1 h2 h3
  · refine ⟨_, _, rfl, hlead ?_, List.forall_mem_nil _⟩
    rw [UInt8.toNat_ofNat']
    omega
  all_goals
    refine ⟨_, _, rfl, hlead ?_, ?_⟩
    · rw [UInt8.toNat_ofNat']
      omega
    · intro b hb
      rw [isContinuation_iff]
      simp only [List.mem_cons, List.not_mem_nil, or_false] at hb
      rcases hb with rfl | rfl | rfl
      all_goals
        rw [UInt8.toNat_ofNat']
        omega

theorem takeWhile_isContinuation {tail : List UInt8} (h : ∀ b ∈ tail, isContinuation b = true)
    (text : List Char) : (tail ++ utf8 text).takeWhile isContinuation = tail := by
  have hnone : (utf8 text).takeWhile isContinuation = [] := by
    cases text with
    | nil => rfl
    | cons c text =>
      obtain ⟨lead, others, hbytes, hlead, -⟩ := utf8EncodeChar_eq_cons c
      rw [utf8_cons, hbytes, List.cons_append, List.takeWhile_cons_of_neg (by simp [hlead])]
  rw [List.takeWhile_append_of_pos h, hnone, List.append_nil]

/-! ## Changes of a text at a byte -/

/-- The byte is between characters of the text, or at an end of it. -/
def isCharBoundary (text : List Char) (pos : ℕ) : Bool := (splitBytes text pos).isSome

/-- The text with a character inserted, if that is done between two characters. -/
def insertByte (text : List Char) (pos : ℕ) (c : Char) : Option (List Char) := do
  let (before, behind) ← splitBytes text pos
  some (before ++ c :: behind)

/-- The text without the part from one byte up to another. -/
def drainBytes (text : List Char) (start stop : ℕ) : Option (List Char) :=
  if stop < start then none
  else do
    let (before, behind) ← splitBytes text start
    let (_, behind) ← splitBytes behind (stop - start)
    some (before ++ behind)

/-- The text up to a byte; one behind the text changes nothing. -/
def truncateBytes (text : List Char) (len : ℕ) : Option (List Char) :=
  if len ≤ (utf8 text).length then (splitBytes text len).map Prod.fst else some text

variable (c : Cursor)

theorem splitBytes_cursor : splitBytes c.text c.offset = some (c.before, c.rest) := splitBytes_append _ _

theorem isCharBoundary_cursor : isCharBoundary c.text c.offset = true := by
  rw [isCharBoundary, splitBytes_cursor]
  rfl

theorem insertByte_cursor (a : Char) : insertByte c.text c.offset a = some (c.before ++ a :: c.rest) := by
  rw [insertByte, splitBytes_cursor]
  rfl

theorem drainBytes_cursor (before part behind : List Char) :
    drainBytes (before ++ (part ++ behind)) (utf8 before).length (utf8 (before ++ part)).length =
      some (before ++ behind) := by
  have hlength : (utf8 (before ++ part)).length = (utf8 before).length + (utf8 part).length := by
    rw [utf8_append, List.length_append]
  rw [drainBytes, hlength, if_neg (by omega), splitBytes_append]
  simp only [Option.bind_eq_bind, Option.bind_some, Nat.add_sub_cancel_left, splitBytes_append]

theorem truncateBytes_cursor : truncateBytes c.text c.offset = some c.before := by
  rw [truncateBytes, if_pos (by rw [c.length_utf8_text]; exact Nat.le_add_right _ _), splitBytes_cursor]
  rfl
