import Mathlib.Data.List.DropRight
import Pirc.Lib.Boundaries
import Pirc.Server.Channel

/-!
# Terminal interface: the input line

`tui/input_line_state.rs`: the text that is typed, with a cursor that is counted in characters and
in bytes. The two counts are moved side by side, and the bytes are searched for the next character.
Calls that cut the text panic where that is not between characters; `update_scroll` panics where its
sum is out of range, and wraps around in a release build.

## Main results

* `prevCharBoundary_concat`, `nextCharBoundary_cons`: the characters next to a position are found
* `run_refines`: **every run does what it does on a list with an index**
-/

namespace Pirc.Tui

open Protocol (Str)
open Server (isWhitespace)

/-! ## The code -/

/-- The start of the character in front of a byte. -/
def prevCharBoundary (bytes : List UInt8) : ℕ → Option ℕ
  | 0 => some 0
  | i + 1 => do
    let b ← bytes[i]?
    if isContinuation b then prevCharBoundary bytes i else some i

/-- The byte behind `pos` at which a character starts, or the end. -/
def nextCharBoundary (bytes : List UInt8) (pos : ℕ) : ℕ :=
  pos + 1 + ((bytes.drop (pos + 1)).takeWhile isContinuation).length

/-- The text, with the cursor in bytes and in characters. -/
structure InputLineState where
  buf : Str
  /-- The cursor, in characters. -/
  cursorChar : ℕ
  /-- The cursor, in bytes. -/
  cursorByte : ℕ
  scrollOffset : ℕ
  deriving DecidableEq

namespace InputLineState

def new : InputLineState := ⟨[], 0, 0, 0⟩

variable (s : InputLineState)

def clear (_ : InputLineState) : InputLineState := ⟨[], 0, 0, 0⟩

def insertChar (ch : Char) : Option InputLineState := do
  let buf ← insertByte s.buf s.cursorByte ch
  some { s with
    buf := buf
    cursorByte := s.cursorByte + (String.utf8EncodeChar ch).length
    cursorChar := s.cursorChar + 1 }

/-- Says whether there was a character to remove. -/
def backspace : Option (Bool × InputLineState) :=
  if s.cursorChar = 0 then some (false, s)
  else do
    let prev ← prevCharBoundary (utf8 s.buf) s.cursorByte
    let buf ← drainBytes s.buf prev s.cursorByte
    some (true, { s with buf := buf, cursorByte := prev, cursorChar := s.cursorChar - 1 })

def delete : Option (Bool × InputLineState) :=
  if (utf8 s.buf).length ≤ s.cursorByte then some (false, s)
  else do
    let next := nextCharBoundary (utf8 s.buf) s.cursorByte
    let buf ← drainBytes s.buf s.cursorByte next
    some (true, { s with buf := buf })

def moveLeft : Option InputLineState :=
  if s.cursorChar = 0 then some s
  else do
    let prev ← prevCharBoundary (utf8 s.buf) s.cursorByte
    some { s with cursorByte := prev, cursorChar := s.cursorChar - 1 }

def moveRight : InputLineState :=
  if (utf8 s.buf).length ≤ s.cursorByte then s
  else
    let next := nextCharBoundary (utf8 s.buf) s.cursorByte
    { s with cursorByte := next, cursorChar := s.cursorChar + 1 }

def moveHome : InputLineState := { s with cursorChar := 0, cursorByte := 0 }

def moveEnd : InputLineState :=
  { s with cursorChar := s.buf.length, cursorByte := (utf8 s.buf).length }

def killLine : InputLineState := s.clear

/-- Drop what stands behind the cursor. -/
def killToEnd : Option InputLineState := do
  let buf ← truncateBytes s.buf s.cursorByte
  some { s with buf := buf }

/-- Go back over characters of a kind. -/
def skipBack (buf : Str) (kind : Char → Bool) : ℕ → ℕ → Option (ℕ × ℕ)
  | 0, cursorByte => some (0, cursorByte)
  | cursorChar + 1, cursorByte => do
    let prev ← prevCharBoundary (utf8 buf) cursorByte
    let part ← strSlice buf prev cursorByte
    let ch ← part.head?
    if kind ch then skipBack buf kind cursorChar prev else some (cursorChar + 1, cursorByte)

def deleteWordBackward : Option InputLineState :=
  if s.cursorChar = 0 then some s
  else do
    let (cursorChar, cursorByte) ← skipBack s.buf isWhitespace s.cursorChar s.cursorByte
    let (cursorChar, cursorByte) ← skipBack s.buf (fun ch => !isWhitespace ch) cursorChar cursorByte
    if 0 < s.cursorChar - cursorChar then
      let buf ← drainBytes s.buf cursorByte s.cursorByte
      some { s with buf := buf, cursorChar := cursorChar, cursorByte := cursorByte }
    else some { s with cursorChar := cursorChar, cursorByte := cursorByte }

/-- Scroll the cursor into view; also says from which column on the line is shown. -/
def updateScroll (visibleWidth : ℕ) : Option (ℕ × InputLineState) :=
  if visibleWidth = 0 then some (0, { s with scrollOffset := 0 })
  else if s.cursorChar < s.scrollOffset then some (s.cursorChar, { s with scrollOffset := s.cursorChar })
  else if 2 ^ 64 ≤ s.scrollOffset + visibleWidth then none
  else if s.scrollOffset + visibleWidth ≤ s.cursorChar then
    let scrollOffset := s.cursorChar - visibleWidth + 1
    some (scrollOffset, { s with scrollOffset := scrollOffset })
  else some (s.scrollOffset, s)

/-- `update_scroll` of a release build, where sums and differences wrap around. -/
def updateScrollWrapping (visibleWidth : UInt64) : InputLineState :=
  let cursorChar := UInt64.ofNat s.cursorChar
  let scrollOffset := UInt64.ofNat s.scrollOffset
  if visibleWidth = 0 then { s with scrollOffset := 0 }
  else if cursorChar < scrollOffset then { s with scrollOffset := s.cursorChar }
  else if scrollOffset + visibleWidth ≤ cursorChar then
    { s with scrollOffset := (cursorChar - visibleWidth + 1).toNat }
  else s

def setContent (_ : InputLineState) (text : Str) :
    InputLineState := ⟨text, text.length, (utf8 text).length, 0⟩

/-! ## Runs -/

/-- What is done with the line. -/
inductive Call
  | insertChar (ch : Char)
  | backspace
  | delete
  | moveLeft
  | moveRight
  | moveHome
  | moveEnd
  | killLine
  | killToEnd
  | deleteWordBackward
  | setContent (text : Str)
  | updateScroll (visibleWidth : ℕ)

def step : Call → Option InputLineState
  | .insertChar ch => s.insertChar ch
  | .backspace => s.backspace.map Prod.snd
  | .delete => s.delete.map Prod.snd
  | .moveLeft => s.moveLeft
  | .moveRight => some s.moveRight
  | .moveHome => some s.moveHome
  | .moveEnd => some s.moveEnd
  | .killLine => some s.killLine
  | .killToEnd => s.killToEnd
  | .deleteWordBackward => s.deleteWordBackward
  | .setContent text => some (s.setContent text)
  | .updateScroll visibleWidth => (s.updateScroll visibleWidth).map Prod.snd

/-- Several calls, as long as none panics. -/
def run (calls : List Call) : Option InputLineState := calls.foldlM step s

theorem run_concat (calls : List Call) (call : Call) :
    s.run (calls ++ [call]) = (s.run calls).bind fun s => s.step call := by
  rw [run, List.foldlM_append, ← run]
  exact congrArg _ (funext fun s => List.foldlM_cons.trans (bind_pure _))

end InputLineState

/-! ## A list of characters with an index -/

/-- A list of characters with an index. -/
@[ext] structure EditLine where
  chars : List Char
  cursor : ℕ
  le : cursor ≤ chars.length

namespace EditLine

variable (e : EditLine)

def new : EditLine := ⟨[], 0, le_rfl⟩

def step : InputLineState.Call → EditLine
  | .insertChar ch =>
    ⟨e.chars.insertIdx e.cursor ch, e.cursor + 1, by
      rw [List.length_insertIdx_of_le_length e.le]
      exact Nat.succ_le_succ e.le⟩
  | .backspace =>
    if h : e.cursor = 0 then e
    else
      ⟨e.chars.eraseIdx (e.cursor - 1), e.cursor - 1, by
        rw [List.length_eraseIdx_of_lt (by have := e.le; omega)]
        exact Nat.sub_le_sub_right e.le 1⟩
  | .delete =>
    if h : e.cursor < e.chars.length then
      ⟨e.chars.eraseIdx e.cursor, e.cursor, by
        rw [List.length_eraseIdx_of_lt h]
        exact Nat.le_sub_one_of_lt h⟩
    else e
  | .moveLeft => ⟨e.chars, e.cursor - 1, (Nat.sub_le _ _).trans e.le⟩
  | .moveRight => ⟨e.chars, min (e.cursor + 1) e.chars.length, Nat.min_le_right _ _⟩
  | .moveHome => ⟨e.chars, 0, Nat.zero_le _⟩
  | .moveEnd => ⟨e.chars, e.chars.length, le_rfl⟩
  | .killLine => new
  | .killToEnd => ⟨e.chars.take e.cursor, e.cursor, by rw [List.length_take, Nat.min_eq_left e.le]⟩
  | .deleteWordBackward =>
    let kept := ((e.chars.take e.cursor).rdropWhile isWhitespace).rdropWhile fun ch => !isWhitespace ch
    ⟨kept ++ e.chars.drop e.cursor, kept.length, by simp⟩
  | .setContent text => ⟨text, text.length, le_rfl⟩
  | .updateScroll _ => e

def run (calls : List InputLineState.Call) : EditLine := calls.foldl step e

theorem run_concat (calls : List InputLineState.Call) (call : InputLineState.Call) :
    e.run (calls ++ [call]) = (e.run calls).step call := List.foldl_concat step e call calls

/-- The list and the index that a position between characters is. -/
def ofCursor (c : Cursor) : EditLine := ⟨c.text, c.before.length, by simp [Cursor.text]⟩

end EditLine

/-! ## The characters next to a position -/

theorem prevCharBoundary_concat (before : Str) (a : Char) (rest : Str) :
    prevCharBoundary (utf8 (before ++ a :: rest)) (utf8 (before ++ [a])).length =
      some (utf8 before).length := by
  obtain ⟨lead, tail, hbytes, hlead, htail⟩ := utf8EncodeChar_eq_cons a
  have htext : utf8 (before ++ a :: rest) = utf8 before ++ lead :: (tail ++ utf8 rest) := by
    rw [utf8_append, utf8_cons, hbytes, List.cons_append]
  -- from within the bytes that continue the character, the search goes back to its first byte
  have hback : ∀ k, k ≤ tail.length → prevCharBoundary (utf8 before ++ lead :: (tail ++ utf8 rest))
      ((utf8 before).length + (k + 1)) = some (utf8 before).length := by
    intro k
    induction k with
    | zero =>
      intro _
      rw [prevCharBoundary, List.getElem?_append_right le_rfl]
      simp [hlead]
    | succ k ih =>
      intro hk
      have hlt : k < (tail ++ utf8 rest).length := by
        rw [List.length_append]
        omega
      have hbyte : (utf8 before ++ lead :: (tail ++ utf8 rest))[(utf8 before).length + (k + 1)]? =
          some tail[k] := by
        rw [List.getElem?_append_right (Nat.le_add_right _ _), Nat.add_sub_cancel_left,
          List.getElem?_cons_succ, List.getElem?_append_left hk, List.getElem?_eq_getElem]
      rw [← Nat.add_assoc, prevCharBoundary, hbyte]
      simp only [Option.bind_eq_bind, Option.bind_some, htail _ (List.getElem_mem _), if_true]
      exact ih (by omega)
  have hlength : (utf8 (before ++ [a])).length = (utf8 before).length + (tail.length + 1) := by
    rw [utf8_append, utf8_cons, hbytes, utf8_nil, List.append_nil, List.length_append, List.length_cons]
  rw [htext, hlength]
  exact hback tail.length le_rfl

theorem nextCharBoundary_cons (before : Str) (a : Char) (rest : Str) :
    nextCharBoundary (utf8 (before ++ a :: rest)) (utf8 before).length = (utf8 (before ++ [a])).length := by
  obtain ⟨lead, tail, hbytes, hlead, htail⟩ := utf8EncodeChar_eq_cons a
  have hdrop : (utf8 (before ++ a :: rest)).drop ((utf8 before).length + 1) = tail ++ utf8 rest := by
    rw [utf8_append, utf8_cons, hbytes, List.drop_append, List.drop_of_length_le (by omega)]
    simp
  rw [nextCharBoundary, hdrop, takeWhile_isContinuation htail, utf8_append, utf8_cons, hbytes,
    utf8_nil, List.append_nil, List.length_append, List.length_cons]
  omega

/-! ## Calls on a line whose cursor is between characters -/

namespace InputLineState

/-- The line whose cursor is at a position between characters. -/
def ofCursor (c : Cursor) (scrollOffset : ℕ) : InputLineState :=
  ⟨c.text, c.before.length, c.offset, scrollOffset⟩

variable (c : Cursor) (before rest : Str) (a : Char) (scrollOffset : ℕ)

private theorem text_concat : (⟨before ++ [a], rest⟩ : Cursor).text = before ++ a :: rest := by
  simp [Cursor.text]

private theorem offset_lt :
    (ofCursor ⟨before, a :: rest⟩ scrollOffset).cursorByte <
      (utf8 (ofCursor ⟨before, a :: rest⟩ scrollOffset).buf).length := by
  have hpos := length_utf8EncodeChar_pos a
  show (utf8 before).length < (utf8 (before ++ a :: rest)).length
  rw [utf8_append, utf8_cons, List.length_append, List.length_append]
  omega

theorem insertChar_ofCursor :
    (ofCursor c scrollOffset).insertChar a = some (ofCursor ⟨c.before ++ [a], c.rest⟩ scrollOffset) := by
  simp only [insertChar, ofCursor, insertByte_cursor, Option.bind_eq_bind, Option.bind_some, text_concat]
  simp only [Cursor.offset, utf8_append, List.length_append, List.length_singleton]
  rw [utf8_cons, utf8_nil, List.append_nil]

theorem backspace_concat :
    (ofCursor ⟨before ++ [a], rest⟩ scrollOffset).backspace =
      some (true, ofCursor ⟨before, rest⟩ scrollOffset) := by
  have hdrain := drainBytes_cursor before [a] rest
  rw [List.singleton_append] at hdrain
  rw [backspace, if_neg (by simp [ofCursor])]
  simp only [ofCursor, text_concat, Cursor.offset, prevCharBoundary_concat, hdrain, Option.bind_eq_bind,
    Option.bind_some, List.length_append, List.length_singleton, Nat.add_sub_cancel]
  rfl

theorem delete_cons :
    (ofCursor ⟨before, a :: rest⟩ scrollOffset).delete =
      some (true, ofCursor ⟨before, rest⟩ scrollOffset) := by
  have hdrain := drainBytes_cursor before [a] rest
  rw [List.singleton_append] at hdrain
  rw [delete, if_neg (offset_lt before rest a scrollOffset).not_ge]
  simp only [ofCursor, Cursor.text, Cursor.offset, nextCharBoundary_cons, hdrain,
    Option.bind_eq_bind, Option.bind_some]

theorem moveLeft_concat :
    (ofCursor ⟨before ++ [a], rest⟩ scrollOffset).moveLeft =
      some (ofCursor ⟨before, a :: rest⟩ scrollOffset) := by
  rw [moveLeft, if_neg (by simp [ofCursor])]
  simp only [ofCursor, text_concat, Cursor.offset, prevCharBoundary_concat, Option.bind_eq_bind,
    Option.bind_some, List.length_append, List.length_singleton, Nat.add_sub_cancel]
  rfl

theorem moveRight_cons :
    (ofCursor ⟨before, a :: rest⟩ scrollOffset).moveRight = ofCursor
      ⟨before ++ [a], rest⟩ scrollOffset := by
  rw [moveRight, if_neg (offset_lt before rest a scrollOffset).not_ge]
  simp only [ofCursor, text_concat, Cursor.offset, List.length_append, List.length_singleton]
  exact congrArg (fun pos => InputLineState.mk _ _ pos _) (nextCharBoundary_cons before a rest)

theorem killToEnd_ofCursor :
    (ofCursor c scrollOffset).killToEnd = some (ofCursor ⟨c.before, []⟩ scrollOffset) := by
  simp only [killToEnd, ofCursor, truncateBytes_cursor, Option.bind_eq_bind, Option.bind_some]
  simp [Cursor.text, Cursor.offset]

/-- **A loop that goes back** over the characters of one kind. -/
theorem skipBack_append (kind : Char → Bool) :
    skipBack (before ++ rest) kind before.length (utf8 before).length =
      some ((before.rdropWhile kind).length, (utf8 (before.rdropWhile kind)).length) := by
  induction before using List.reverseRecOn generalizing rest with
  | nil => rfl
  | append_singleton before a ih =>
    have hpart : strSlice (before ++ a :: rest) (utf8 before).length (utf8 (before ++ [a])).length =
        some [a] := by
      have h := strSlice_cursor ⟨before, a :: rest⟩ 1
      rwa [show Cursor.offset ⟨before, a :: rest⟩ + Cursor.width ⟨before, a :: rest⟩ 1 =
        (utf8 (before ++ [a])).length by simp [Cursor.offset, Cursor.width]] at h
    rw [List.append_assoc, List.singleton_append, List.length_append, List.length_singleton,
      skipBack, prevCharBoundary_concat, Option.bind_eq_bind, Option.bind_some, hpart]
    simp only [Option.bind_eq_bind, Option.bind_some, List.head?_cons]
    by_cases hkind : kind a = true
    · rw [if_pos hkind, ih (a :: rest), List.rdropWhile_concat_pos _ _ _ hkind]
    · rw [if_neg hkind, List.rdropWhile_concat_neg _ _ _ hkind, List.length_append, List.length_singleton]

def wordDropped (before : Str) :
    Str := (before.rdropWhile isWhitespace).rdropWhile fun ch => !isWhitespace ch

theorem deleteWordBackward_ofCursor :
    (ofCursor c scrollOffset).deleteWordBackward =
      some (ofCursor ⟨wordDropped c.before, c.rest⟩ scrollOffset) := by
  obtain ⟨before, rest⟩ := c
  by_cases hnil : before = []
  · subst hnil
    rfl
  obtain ⟨blanks, hblanks⟩ := List.rdropWhile_prefix isWhitespace before
  obtain ⟨word, hword⟩ :=
    List.rdropWhile_prefix (fun ch => !isWhitespace ch) (before.rdropWhile isWhitespace)
  have hbefore : wordDropped before ++ (word ++ blanks) = before := by
    rw [← List.append_assoc, wordDropped, hword, hblanks]
  have htext : before ++ rest = before.rdropWhile isWhitespace ++ (blanks ++ rest) := by
    rw [← List.append_assoc, hblanks]
  have hfirst := skipBack_append before rest isWhitespace
  have hsecond := skipBack_append (before.rdropWhile isWhitespace) (blanks ++ rest)
    fun ch => !isWhitespace ch
  rw [← htext] at hsecond
  have hdrain := drainBytes_cursor (wordDropped before) (word ++ blanks) rest
  rw [← List.append_assoc, hbefore] at hdrain
  rw [deleteWordBackward, if_neg (by simpa [ofCursor] using hnil)]
  simp only [ofCursor, Cursor.text, Cursor.offset, hfirst, hsecond, Option.bind_eq_bind, Option.bind_some]
  change (if 0 < before.length - (wordDropped before).length then _ else _) = _
  split_ifs with hdeleted
  · exact congrArg (Option.bind · _) hdrain
  · -- nothing was skipped, so that nothing is left out
    have hlength := congrArg List.length hbefore
    rw [List.length_append] at hlength
    have hempty : word ++ blanks = [] := List.length_eq_zero_iff.mp (by omega)
    rw [hempty, List.append_nil] at hbefore
    rw [hbefore]
    exact congrArg (fun pre : Str =>
      some (InputLineState.mk (before ++ rest) pre.length (utf8 pre).length _)) hbefore

/-! ## Scrolling -/

/-- **The cursor is in view** after `update_scroll`, and it scrolls no further than it has to. -/
theorem updateScroll_of_lt {s : InputLineState} {visibleWidth : ℕ}
    (hscroll : s.scrollOffset < 2 ^ 63) (hwidth : visibleWidth < 2 ^ 63) :
    ∃ scrollOffset, s.updateScroll visibleWidth = some
      (scrollOffset, { s with scrollOffset := scrollOffset }) ∧
      scrollOffset ≤ max s.scrollOffset s.cursorChar ∧
      (0 < visibleWidth → scrollOffset ≤ s.cursorChar ∧ s.cursorChar < scrollOffset + visibleWidth) := by
  unfold updateScroll
  split_ifs with hzero hleft hover hright
  · exact ⟨0, rfl, Nat.zero_le _, by omega⟩
  · exact ⟨s.cursorChar, rfl, le_max_right _ _, by omega⟩
  · omega
  · exact ⟨s.cursorChar - visibleWidth + 1, rfl, by omega, by omega⟩
  · exact ⟨s.scrollOffset, rfl, le_max_left _ _, by omega⟩

/-- A release build does the same where nothing is out of range. -/
theorem updateScrollWrapping_eq {s s' : InputLineState} {visibleWidth scrollOffset : ℕ}
    (hscroll : s.scrollOffset < 2 ^ 63) (hcursor : s.cursorChar < 2 ^ 63) (hwidth : visibleWidth < 2 ^ 63)
    (h : s.updateScroll visibleWidth = some (scrollOffset, s')) :
    s.updateScrollWrapping (UInt64.ofNat visibleWidth) = s' := by
  have hofNat : ∀ {n : ℕ}, n < 2 ^ 63 → (UInt64.ofNat n).toNat = n := fun hn =>
    UInt64.toNat_ofNat_of_lt' (hn.trans (by norm_num [UInt64.size]))
  have hzero : UInt64.ofNat visibleWidth = 0 ↔ visibleWidth = 0 := by
    rw [← UInt64.toNat_inj, hofNat hwidth, UInt64.toNat_zero]
  have hsum := UInt64.toNat_add (UInt64.ofNat s.scrollOffset) (UInt64.ofNat visibleWidth)
  have hdiff := UInt64.toNat_sub (UInt64.ofNat s.cursorChar) (UInt64.ofNat visibleWidth)
  have hnext := UInt64.toNat_add (UInt64.ofNat s.cursorChar - UInt64.ofNat visibleWidth) 1
  rw [hofNat hscroll, hofNat hwidth] at hsum
  rw [hofNat hcursor, hofNat hwidth] at hdiff
  rw [hdiff, UInt64.toNat_one] at hnext
  unfold updateScroll at h
  simp only [updateScrollWrapping, hzero, UInt64.lt_iff_toNat_lt, UInt64.le_iff_toNat_le, hsum,
    hofNat hscroll, hofNat hcursor, hnext]
  grind

end InputLineState

/-! ## The list with an index follows -/

namespace EditLine

variable (c : Cursor) (before rest : Str) (a : Char)

private theorem insertIdx_length_append :
    (before ++ rest).insertIdx before.length a = before ++ a :: rest := by
  induction before with
  | nil => rfl
  | cons b before ih => exact congrArg (b :: ·) ih

theorem insertChar_ofCursor : (ofCursor c).step (.insertChar a) = ofCursor ⟨c.before ++ [a], c.rest⟩ := by
  ext1
  · show (c.before ++ c.rest).insertIdx c.before.length a = (c.before ++ [a]) ++ c.rest
    rw [insertIdx_length_append, List.append_assoc, List.singleton_append]
  · show c.before.length + 1 = (c.before ++ [a]).length
    rw [List.length_append, List.length_singleton]

theorem backspace_concat : (ofCursor ⟨before ++ [a], rest⟩).step .backspace = ofCursor ⟨before, rest⟩ := by
  have hcursor : (ofCursor ⟨before ++ [a], rest⟩).cursor = before.length + 1 := List.length_append
  rw [step, dif_neg (by omega)]
  ext1
  · show ((before ++ [a]) ++ rest).eraseIdx ((ofCursor ⟨before ++ [a], rest⟩).cursor - 1) = before ++ rest
    rw [hcursor, Nat.add_sub_cancel, List.append_assoc, List.eraseIdx_append_of_length_le le_rfl,
      Nat.sub_self]
    rfl
  · show (ofCursor ⟨before ++ [a], rest⟩).cursor - 1 = before.length
    rw [hcursor, Nat.add_sub_cancel]

theorem delete_cons : (ofCursor ⟨before, a :: rest⟩).step .delete = ofCursor ⟨before, rest⟩ := by
  rw [step, dif_pos (by simp [ofCursor, Cursor.text])]
  ext1
  · show (before ++ a :: rest).eraseIdx before.length = before ++ rest
    rw [List.eraseIdx_append_of_length_le le_rfl, Nat.sub_self]
    rfl
  · rfl

theorem moveRight_ofCursor : ((ofCursor c).step .moveRight).chars = c.text ∧
    ((ofCursor c).step .moveRight).cursor = c.before.length + (c.rest.take 1).length := by
  refine ⟨rfl, ?_⟩
  show min (c.before.length + 1) (c.before ++ c.rest).length = _
  rw [List.length_append, List.length_take]
  omega

theorem killToEnd_ofCursor : (ofCursor c).step .killToEnd = ofCursor ⟨c.before, []⟩ := by
  ext1
  · show (c.before ++ c.rest).take c.before.length = c.before ++ []
    rw [List.take_left, List.append_nil]
  · rfl

theorem deleteWordBackward_ofCursor :
    (ofCursor c).step .deleteWordBackward = ofCursor ⟨InputLineState.wordDropped c.before, c.rest⟩ := by
  have htake : (c.before ++ c.rest).take c.before.length = c.before := List.take_left
  have hdrop : (c.before ++ c.rest).drop c.before.length = c.rest := List.drop_left
  ext1
  · show InputLineState.wordDropped ((c.before ++ c.rest).take c.before.length) ++
      (c.before ++ c.rest).drop c.before.length = _
    rw [htake, hdrop]
    rfl
  · show (InputLineState.wordDropped ((c.before ++ c.rest).take c.before.length)).length = _
    rw [htake]
    rfl

end EditLine

/-! ## Refinement -/

namespace InputLineState

/-- **The line is the list with the index.** -/
structure Refines (s : InputLineState) (e : EditLine) : Prop where
  buf : s.buf = e.chars
  cursorChar : s.cursorChar = e.cursor
  cursorByte : s.cursorByte = (utf8 (e.chars.take e.cursor)).length
  boundary : isCharBoundary s.buf s.cursorByte = true

theorem refines_ofCursor (c : Cursor) (scrollOffset : ℕ) :
    Refines (ofCursor c scrollOffset) (EditLine.ofCursor c) where
  buf := rfl
  cursorChar := rfl
  cursorByte := by
    show c.offset = (utf8 ((c.before ++ c.rest).take c.before.length)).length
    rw [List.take_left]
    rfl
  boundary := isCharBoundary_cursor c

/-- **A call** on a line whose cursor is between characters. -/
theorem step_ofCursor (c : Cursor) {scrollOffset : ℕ} (call : Call)
    (hscroll : scrollOffset < 2 ^ 63) (hwidth : ∀ w, call = .updateScroll w → w < 2 ^ 63) :
    ∃ c' scrollOffset', (ofCursor c scrollOffset).step call = some (ofCursor c' scrollOffset') ∧
      (EditLine.ofCursor c).step call = EditLine.ofCursor c' ∧
      scrollOffset' ≤ max scrollOffset c.before.length := by
  have hkept : scrollOffset ≤ max scrollOffset c.before.length := le_max_left _ _
  cases call with
  | insertChar ch =>
    exact ⟨_, _, insertChar_ofCursor c ch _, EditLine.insertChar_ofCursor c ch, hkept⟩
  | backspace =>
    obtain ⟨before, rest⟩ := c
    rcases List.eq_nil_or_concat' before with rfl | ⟨before, a, rfl⟩
    · exact ⟨_, _, rfl, rfl, hkept⟩
    · exact ⟨_, _, congrArg (Option.map Prod.snd) (backspace_concat before rest a _),
        EditLine.backspace_concat before rest a, hkept⟩
  | delete =>
    obtain ⟨before, rest⟩ := c
    cases rest with
    | nil =>
      refine ⟨⟨before, []⟩, _, ?_, ?_, hkept⟩
      · rw [step, delete, if_pos (by simp [ofCursor, Cursor.text, Cursor.offset])]
        rfl
      · rw [EditLine.step, dif_neg (by simp [EditLine.ofCursor, Cursor.text])]
    | cons a rest =>
      exact ⟨_, _, congrArg (Option.map Prod.snd) (delete_cons before rest a _),
        EditLine.delete_cons before rest a, hkept⟩
  | moveLeft =>
    obtain ⟨before, rest⟩ := c
    rcases List.eq_nil_or_concat' before with rfl | ⟨before, a, rfl⟩
    · exact ⟨_, _, rfl, rfl, hkept⟩
    · refine ⟨_, _, moveLeft_concat before rest a _, ?_, hkept⟩
      ext1
      · exact text_concat before rest a
      · exact congrArg (· - 1) List.length_append
  | moveRight =>
    obtain ⟨before, rest⟩ := c
    obtain ⟨hchars, hcursor⟩ := EditLine.moveRight_ofCursor ⟨before, rest⟩
    cases rest with
    | nil =>
      refine ⟨⟨before, []⟩, _, ?_, EditLine.ext hchars hcursor, hkept⟩
      rw [step, moveRight, if_pos (by simp [ofCursor, Cursor.text, Cursor.offset])]
    | cons a rest =>
      refine ⟨⟨before ++ [a], rest⟩, _, congrArg some (moveRight_cons before rest a _), ?_, hkept⟩
      refine EditLine.ext (hchars.trans (text_concat before rest a).symm) (hcursor.trans ?_)
      exact List.length_append.symm
  | moveHome => exact ⟨⟨[], c.text⟩, _, rfl, rfl, hkept⟩
  | moveEnd =>
    refine ⟨⟨c.text, []⟩, scrollOffset, ?_, ?_, hkept⟩
    · simp [step, moveEnd, ofCursor, Cursor.text, Cursor.offset]
    · ext1
      · exact (List.append_nil _).symm
      · rfl
  | killLine => exact ⟨⟨[], []⟩, 0, rfl, rfl, Nat.zero_le _⟩
  | killToEnd => exact ⟨_, _, killToEnd_ofCursor c _, EditLine.killToEnd_ofCursor c, hkept⟩
  | deleteWordBackward =>
    exact ⟨_, _, deleteWordBackward_ofCursor c _, EditLine.deleteWordBackward_ofCursor c, hkept⟩
  | setContent text =>
    refine ⟨⟨text, []⟩, 0, ?_, ?_, Nat.zero_le _⟩
    · simp [step, setContent, ofCursor, Cursor.text, Cursor.offset]
    · ext1
      · exact (List.append_nil _).symm
      · rfl
  | updateScroll w =>
    obtain ⟨scroll, hrun, hmax, -⟩ :=
      updateScroll_of_lt (s := ofCursor c scrollOffset) hscroll (hwidth w rfl)
    exact ⟨c, scroll, congrArg (Option.map Prod.snd) hrun, rfl, hmax⟩

theorem run_ofCursor (calls : List Call) (hwidth : ∀ w, .updateScroll w ∈ calls → w < 2 ^ 63)
    (hfit : ∀ first, first <+: calls → (utf8 (EditLine.new.run first).chars).length < 2 ^ 63) :
    ∃ c scrollOffset, new.run calls = some (ofCursor c scrollOffset) ∧
      EditLine.new.run calls = EditLine.ofCursor c ∧ scrollOffset < 2 ^ 63 := by
  induction calls using List.reverseRecOn with
  | nil => exact ⟨⟨[], []⟩, 0, rfl, rfl, by norm_num⟩
  | append_singleton calls call ih =>
    obtain ⟨c, scrollOffset, hrun, hlist, hscroll⟩ := ih (fun w h => hwidth w (List.mem_append_left _ h))
      fun first h => hfit first (h.trans (List.prefix_append _ _))
    obtain ⟨c', scrollOffset', hstep, hstep', hmax⟩ := step_ofCursor c call hscroll fun w h =>
      hwidth w (List.mem_append_right _ (List.mem_singleton.mpr h.symm))
    have hbefore : c.before.length < 2 ^ 63 := by
      have hbytes := hfit calls (List.prefix_append _ _)
      have hle := length_le_length_utf8 c.text
      rw [hlist] at hbytes
      refine lt_of_le_of_lt ?_ (hle.trans_lt hbytes)
      rw [Cursor.text, List.length_append]
      exact Nat.le_add_right _ _
    refine ⟨c', scrollOffset', ?_, ?_, hmax.trans_lt (max_lt hscroll hbefore)⟩
    · rw [run_concat, hrun]
      exact hstep
    · rw [EditLine.run_concat, hlist]
      exact hstep'

/-- **Every run does what it does on a list with an index**, without a panic, and the cursor is in
view after `update_scroll`. Widths are those of terminals, and texts are held in memory. -/
theorem run_refines (calls : List Call) (hwidth : ∀ w, .updateScroll w ∈ calls → w < 2 ^ 63)
    (hfit : ∀ first, first <+: calls → (utf8 (EditLine.new.run first).chars).length < 2 ^ 63) :
    ∃ s, new.run calls = some s ∧ Refines s (EditLine.new.run calls) ∧
      ∀ w, calls.getLast? = some (.updateScroll w) → 0 < w →
        s.scrollOffset ≤ s.cursorChar ∧ s.cursorChar < s.scrollOffset + w := by
  obtain ⟨c, scrollOffset, hrun, hlist, -⟩ := run_ofCursor calls hwidth hfit
  refine ⟨_, hrun, hlist ▸ refines_ofCursor c scrollOffset, ?_⟩
  intro w hlast hw
  obtain ⟨first, rfl⟩ := List.getLast?_eq_some_iff.mp hlast
  obtain ⟨c₀, scroll₀, hrun₀, -, hscroll₀⟩ := run_ofCursor first
    (fun w h => hwidth w (List.mem_append_left _ h))
      fun pre h => hfit pre (h.trans (List.prefix_append _ _))
  obtain ⟨scroll, hstep, -, hview⟩ := updateScroll_of_lt (s := ofCursor c₀ scroll₀) hscroll₀
    (hwidth w (List.mem_append_right _ (List.mem_singleton.mpr rfl)))
  have hlaststep : new.run (first ++ [.updateScroll w]) =
      some { ofCursor c₀ scroll₀ with scrollOffset := scroll } := by
    rw [run_concat, hrun₀]
    exact congrArg (Option.map Prod.snd) hstep
  rw [← Option.some.inj (hrun.symm.trans hlaststep).symm]
  exact hview hw

def narrowCalls : List Call :=
  [.setContent ['h', 'é', ' ', 'w'], .moveLeft, .backspace, .insertChar '…', .deleteWordBackward,
    .insertChar 'ä', .moveEnd, .updateScroll 1]

theorem narrowCalls_refine :
    ∃ s, new.run narrowCalls = some s ∧ Refines s (EditLine.new.run narrowCalls) ∧
      ∀ w, narrowCalls.getLast? = some (.updateScroll w) → 0 < w →
        s.scrollOffset ≤ s.cursorChar ∧ s.cursorChar < s.scrollOffset + w := by
  have hshort : ∀ first ∈ narrowCalls.inits, (utf8 (EditLine.new.run first).chars).length < 2 ^ 63 := by
    decide +kernel
  refine run_refines narrowCalls (fun w hw => ?_) fun first h => hshort first (List.mem_inits _ _ |>.mpr h)
  simp only [narrowCalls, List.mem_cons, reduceCtorEq, false_or, List.not_mem_nil, or_false,
    Call.updateScroll.injEq] at hw
  omega

/-- A width near `2 ^ 64`, which no terminal has: the sum is out of range, and a release build
scrolls past the cursor. -/
theorem wideScroll_not_in_view :
    (¬ ∀ calls : List Call,
      (∀ first, first <+: calls → (utf8 (EditLine.new.run first).chars).length < 2 ^ 63) →
      ∃ s, new.run calls = some s ∧ ∀ w, calls.getLast? = some (.updateScroll w) → 0 < w →
        s.scrollOffset ≤ s.cursorChar ∧ s.cursorChar < s.scrollOffset + w) ∧
    ∃ s, new.run [.setContent ['a', 'b'], .updateScroll 1] = some s ∧
      (s.updateScrollWrapping (.ofNat (2 ^ 64 - 1))).cursorChar = 2 ∧
      (s.updateScrollWrapping (.ofNat (2 ^ 64 - 1))).scrollOffset = 4 := by
  refine ⟨?_, ⟨['a', 'b'], 2, 2, 2⟩, by decide +kernel, by decide +kernel, by decide +kernel⟩
  intro h
  have hshort : ∀ first ∈ [Call.setContent ['a', 'b'], .updateScroll 1,
      .updateScroll (2 ^ 64 - 1)].inits, (utf8 (EditLine.new.run first).chars).length < 2 ^ 63 := by
    decide +kernel
  obtain ⟨s, hrun, -⟩ := h _ fun first hfirst => hshort first (List.mem_inits _ _ |>.mpr hfirst)
  have hpanic : new.run [.setContent ['a', 'b'], .updateScroll 1, .updateScroll (2 ^ 64 - 1)] = none := by
    decide +kernel
  exact Option.some_ne_none s (hrun.symm.trans hpanic)

end InputLineState

end Pirc.Tui
