import Pirc.Lib.Utf8
import Pirc.Tui.Style

/-!
# Terminal interface: formatting codes in texts

`tui/mirc_colors.rs`: a text with mIRC codes is split into spans that have a style each. The text is
gone through by its bytes, and spans are taken from it between two bytes, which panics where these
are not between characters.
-/

namespace Pirc.Tui

open Protocol (Str)

/-! ## The code -/

def mircColor : Char := '\x03'
def mircBold : Char := '\x02'
def mircUnderline : Char := '\x1f'
def mircReverse : Char := '\x16'
def mircReset : Char := '\x0f'
def mircItalic : Char := '\x1d'

/-- A text in one style. -/
structure StyledSpan where
  text : Str
  style : Style
  deriving DecidableEq

def mircToColor : ℕ → Option Color
  | 0 => some .white
  | 1 => some .black
  | 2 => some .blue
  | 3 => some .green
  | 4 => some .red
  | 5 => some .brightRed
  | 6 => some .magenta
  | 7 => some .yellow
  | 8 => some .brightYellow
  | 9 => some .brightGreen
  | 10 => some .cyan
  | 11 => some .brightCyan
  | 12 => some .brightBlue
  | 13 => some .brightMagenta
  | 14 => some .brightBlack
  | 15 => some .brightWhite
  | _ => none

/-- One or two digits. -/
def parseColorNumber (bytes : List UInt8) (pos : ℕ) : Option ℕ × ℕ :=
  match bytes[pos]? with
  | none => (none, pos)
  | some b =>
    if !isAscii Char.isDigit b then (none, pos)
    else
      let first := b.toNat - 48
      match bytes[pos + 1]? with
      | none => (some first, pos + 1)
      | some b' =>
        if isAscii Char.isDigit b' && first * 10 + (b'.toNat - 48) ≤ 15 then
          (some (first * 10 + (b'.toNat - 48)), pos + 2)
        else (some first, pos + 1)

/-- What the numbers behind a colour code do to the style, and the position behind them. -/
def colorCode (bytes : List UInt8) (style : Style) (i : ℕ) : Style × ℕ :=
  match parseColorNumber bytes i with
  | (none, i) => ({ style with fg := none, bg := none }, i)
  | (some fg, i) =>
    let style := { style with fg := mircToColor fg }
    if bytes[i]? = some (asciiByte ',') then
      match parseColorNumber bytes (i + 1) with
      | (some bg, i) => ({ style with bg := mircToColor bg }, i)
      | (none, _) => (style, i)
    else (style, i)

def isControl (ch : Char) : Bool :=
  ch = mircBold || ch = mircItalic || ch = mircUnderline || ch = mircReverse || ch = mircReset ||
    ch = mircColor

/-- The style behind a control character, and where the text goes on. -/
def controlCode (bytes : List UInt8) (ch : Char) (style : Style) (i : ℕ) : Option (Style × ℕ) :=
  if ch = mircBold then some ({ style with bold := !style.bold }, i + 1)
  else if ch = mircItalic then some ({ style with italic := !style.italic }, i + 1)
  else if ch = mircUnderline then some ({ style with underline := !style.underline }, i + 1)
  else if ch = mircReverse then some ({ style with reverse := !style.reverse }, i + 1)
  else if ch = mircReset then some (.new, i + 1)
  else if ch = mircColor then some (colorCode bytes style (i + 1))
  else none

/-- What the parser keeps between two bytes. -/
structure Scan where
  spans : List StyledSpan
  style : Style
  i : ℕ
  spanStart : ℕ

def Scan.flush (input : Str) (s : Scan) (stop : ℕ) : Option (List StyledSpan) :=
  if s.spanStart < stop then
    (strSlice input s.spanStart stop).map fun text => s.spans ++ [⟨text, s.style⟩]
  else some s.spans

def parseStep (input : Str) (s : Scan) (b : UInt8) : Option Scan :=
  let ch := Char.ofNat b.toNat
  if isControl ch then do
    let spans ← s.flush input s.i
    let (style, i) ← controlCode (utf8 input) ch s.style s.i
    some ⟨spans, style, i, i⟩
  else some { s with i := s.i + 1 }

/-- **The loop**, which takes no more rounds than there are bytes. -/
def parseLoop (input : Str) : ℕ → Scan → Option Scan
  | 0, s => if s.i < (utf8 input).length then none else some s
  | fuel + 1, s =>
    match (utf8 input)[s.i]? with
    | none => some s
    | some b => (parseStep input s b).bind (parseLoop input fuel)

/-- A text with formatting codes as spans with styles. -/
def parseMircFormat (input : Str) : Option (List StyledSpan) := do
  let s ← parseLoop input (utf8 input).length ⟨[], .new, 0, 0⟩
  s.flush input (utf8 input).length

/-! ## Codes and characters -/

/-- A formatting code. -/
inductive Code
  | bold
  | italic
  | underline
  | reverse
  | reset
  | color (fg bg : Option ℕ)

def Code.apply (style : Style) : Code → Style
  | bold => { style with bold := !style.bold }
  | italic => { style with italic := !style.italic }
  | underline => { style with underline := !style.underline }
  | reverse => { style with reverse := !style.reverse }
  | reset => .new
  | color none _ => { style with fg := none, bg := none }
  | color (some fg) none => { style with fg := mircToColor fg }
  | color (some fg) (some bg) => { style with fg := mircToColor fg, bg := mircToColor bg }

def digitValue (c : Char) : ℕ := c.toNat - 48

/-- The number at the beginning of a text, of at most two digits and at most 15, and its digits. -/
def colorNumber : Str → Option (ℕ × Str)
  | [] => none
  | [c] => if c.isDigit then some (digitValue c, [c]) else none
  | c :: c' :: _ =>
    if !c.isDigit then none
    else if c'.isDigit && digitValue c * 10 + digitValue c' ≤ 15 then
      some (digitValue c * 10 + digitValue c', [c, c'])
    else some (digitValue c, [c])

/-- The colours behind the control character, and how they are written. -/
def readColor (text : Str) : Code × Str :=
  match colorNumber text with
  | none => (.color none none, [])
  | some (fg, digits) =>
    match text.drop digits.length with
    | ',' :: rest =>
      match colorNumber rest with
      | some (bg, digits') => (.color (some fg) (some bg), digits ++ ',' :: digits')
      | none => (.color (some fg) none, digits)
    | _ => (.color (some fg) none, digits)

/-- The code at the beginning of a text, and how it is written. -/
def readCode : Str → Option (Code × Str)
  | [] => none
  | c :: rest =>
    if c = mircBold then some (.bold, [c])
    else if c = mircItalic then some (.italic, [c])
    else if c = mircUnderline then some (.underline, [c])
    else if c = mircReverse then some (.reverse, [c])
    else if c = mircReset then some (.reset, [c])
    else if c = mircColor then some ((readColor rest).1, c :: (readColor rest).2)
    else none

/-- A character of a text, or a code and how it is written. -/
inductive Item
  | char (c : Char)
  | code (code : Code) (spelling : Str)

def Item.spelling : Item → Str
  | char c => [c]
  | code _ spelling => spelling

def Item.text : Item → Str
  | char c => [c]
  | code .. => []

/-- The codes and characters of a text, from behind so many characters on. -/
def items : ℕ → Str → List Item
  | _, [] => []
  | skip + 1, _ :: rest => items skip rest
  | 0, c :: rest =>
    match readCode (c :: rest) with
    | some (code, spelling) => .code code spelling :: items (spelling.length - 1) rest
    | none => .char c :: items 0 rest

/-- The characters, each with the style that the codes before it give. -/
def styled : Style → List Item → List (Char × Style)
  | _, [] => []
  | style, .char c :: rest => (c, style) :: styled style rest
  | style, .code code _ :: rest => styled (code.apply style) rest

def StyledSpan.chars (span : StyledSpan) : List (Char × Style) := span.text.map (·, span.style)

/-! ## Lemmas about the specification -/

theorem items_skip (skip : ℕ) (text : Str) : items skip text = items 0 (text.drop skip) := by
  induction text generalizing skip with
  | nil => rw [List.drop_nil, items, items]
  | cons c rest ih =>
    cases skip with
    | zero => rfl
    | succ skip => rw [items, ih, List.drop_succ_cons]

theorem colorNumber_spec {text digits : Str} {n : ℕ} (h : colorNumber text = some (n, digits)) :
    digits <+: text ∧ digits ≠ [] ∧ digits.length ≤ 2 ∧ n ≤ 15 ∧ ∀ c ∈ digits, c.isDigit = true := by
  have hvalue : ∀ c : Char, c.isDigit = true → digitValue c ≤ 9 := by
    intro c hc
    rw [Char.isDigit, Bool.and_eq_true, decide_eq_true_eq, decide_eq_true_eq] at hc
    have hle : c.toNat ≤ 57 := hc.2
    rw [digitValue]
    omega
  match text with
  | [] => simp [colorNumber] at h
  | [c] =>
    rw [colorNumber] at h
    split_ifs at h with hc
    obtain ⟨rfl, rfl⟩ := Prod.mk.inj (Option.some.inj h)
    exact ⟨List.prefix_rfl, by simp, by simp, (hvalue c hc).trans (by norm_num), by simpa using hc⟩
  | c :: c' :: rest =>
    rw [colorNumber] at h
    split_ifs at h with hc htwo
    · rw [Bool.and_eq_true, decide_eq_true_eq] at htwo
      obtain ⟨rfl, rfl⟩ := Prod.mk.inj (Option.some.inj h)
      refine ⟨⟨rest, rfl⟩, by simp, by simp, htwo.2, ?_⟩
      rw [List.forall_mem_cons, List.forall_mem_singleton]
      exact ⟨by simpa using hc, htwo.1⟩
    · obtain ⟨rfl, rfl⟩ := Prod.mk.inj (Option.some.inj h)
      have hdigit : c.isDigit = true := by simpa using hc
      exact ⟨⟨c' :: rest, rfl⟩, by simp, by simp,
        (hvalue c hdigit).trans (by norm_num), by simpa using hdigit⟩

theorem readColor_spec (text : Str) :
    (readColor text).2 <+: text ∧ ∀ c ∈ (readColor text).2, c.val.toNat < 128 := by
  have hascii : ∀ {s digits : Str} {n : ℕ}, colorNumber s = some (n, digits) →
      ∀ c ∈ digits, c.val.toNat < 128 := fun h c hc => isDigit_ascii ((colorNumber_spec h).2.2.2.2 c hc)
  unfold readColor
  cases hfg : colorNumber text with
  | none => exact ⟨List.nil_prefix, List.forall_mem_nil _⟩
  | some found =>
    obtain ⟨fg, digits⟩ := found
    obtain ⟨behind, rfl⟩ := (colorNumber_spec hfg).1
    simp only [List.drop_left]
    split
    · rename_i rest
      cases hbg : colorNumber rest with
      | none => exact ⟨List.prefix_append _ _, hascii hfg⟩
      | some found =>
        obtain ⟨bg, digits'⟩ := found
        obtain ⟨behind', rfl⟩ := (colorNumber_spec hbg).1
        refine ⟨⟨behind', by simp⟩, ?_⟩
        intro c hc
        rcases List.mem_append.mp hc with hc | hc
        · exact hascii hfg c hc
        · rcases List.mem_cons.mp hc with rfl | hc
          · decide
          · exact hascii hbg c hc
    · exact ⟨List.prefix_append _ _, hascii hfg⟩

theorem isControl_ascii {c : Char} (h : isControl c = true) : c.val.toNat < 128 := by
  simp only [isControl, Bool.or_eq_true, decide_eq_true_eq] at h
  rcases h with ((((rfl | rfl) | rfl) | rfl) | rfl) | rfl
  all_goals decide

theorem readCode_eq_none {c : Char} (rest : Str) (h : isControl c = false) :
    readCode (c :: rest) = none := by
  simp only [isControl, Bool.or_eq_false_iff, decide_eq_false_iff_not] at h
  obtain ⟨⟨⟨⟨⟨h1, h2⟩, h3⟩, h4⟩, h5⟩, h6⟩ := h
  rw [readCode, if_neg h1, if_neg h2, if_neg h3, if_neg h4, if_neg h5, if_neg h6]

/-- **How a code is written**: it begins with a control character and goes on with ASCII
characters. -/
theorem readCode_spec {c : Char} (rest : Str) (h : isControl c = true) :
    ∃ code spelling, readCode (c :: rest) = some (code, c :: spelling) ∧ spelling <+: rest ∧
      ∀ a ∈ c :: spelling, a.val.toNat < 128 := by
  have hone : ∀ a ∈ [c], a.val.toNat < 128 := List.forall_mem_singleton.mpr (isControl_ascii h)
  have hcolor : ∀ a ∈ c :: (readColor rest).2, a.val.toNat < 128 :=
    List.forall_mem_cons.mpr ⟨isControl_ascii h, (readColor_spec rest).2⟩
  simp only [isControl, Bool.or_eq_true, decide_eq_true_eq] at h
  rw [readCode]
  split_ifs with h1 h2 h3 h4 h5 h6
  · exact ⟨_, _, rfl, List.nil_prefix, hone⟩
  · exact ⟨_, _, rfl, List.nil_prefix, hone⟩
  · exact ⟨_, _, rfl, List.nil_prefix, hone⟩
  · exact ⟨_, _, rfl, List.nil_prefix, hone⟩
  · exact ⟨_, _, rfl, List.nil_prefix, hone⟩
  · exact ⟨_, _, rfl, (readColor_spec rest).1, hcolor⟩
  · tauto

/-- **Nothing is lost**: the codes and characters are those of the text. -/
theorem flatMap_spelling_items (text : Str) (skip : ℕ) :
    (items skip text).flatMap Item.spelling = text.drop skip := by
  induction text generalizing skip with
  | nil => rw [List.drop_nil, items, List.flatMap_nil]
  | cons c rest ih =>
    cases skip with
    | succ skip => rw [items, ih, List.drop_succ_cons]
    | zero =>
      rw [items, List.drop_zero]
      cases hcontrol : isControl c with
      | false =>
        rw [readCode_eq_none rest hcontrol, List.flatMap_cons, ih 0]
        rfl
      | true =>
        obtain ⟨code, spelling, hread, ⟨behind, rfl⟩, -⟩ := readCode_spec rest hcontrol
        rw [hread]
        simp only [List.flatMap_cons, ih, Item.spelling, List.length_cons, Nat.add_sub_cancel,
          List.drop_left]
        rfl

theorem map_fst_styled (style : Style) (l : List Item) :
    (styled style l).map Prod.fst = l.flatMap Item.text := by
  induction l generalizing style with
  | nil => rfl
  | cons item rest ih =>
    cases item with
    | char c => exact congrArg (c :: ·) (ih style)
    | code code spelling => exact ih _

/-! ## Bytes and characters -/

section Bytes

variable (c : Cursor) {a : Char} {rest : Str}

private theorem byte_mem (h : c.rest = a :: rest) :
    ∃ b, (utf8 c.text)[c.offset]? = some b ∧ b ∈ String.utf8EncodeChar a := by
  obtain ⟨b, tail, hbytes⟩ := List.exists_cons_of_length_pos (length_utf8EncodeChar_pos a)
  refine ⟨b, ?_, hbytes ▸ List.mem_cons_self⟩
  rw [← List.head?_drop, c.drop_utf8, h, utf8_cons, hbytes]
  rfl

private theorem byte_nil (h : c.rest = []) : (utf8 c.text)[c.offset]? = none := by
  rw [← List.head?_drop, c.drop_utf8, h]
  rfl

private theorem offset_forward_ascii {n : ℕ} (hle : n ≤ c.rest.length)
    (hascii : ∀ d ∈ c.rest.take n, d.val.toNat < 128) : (c.forward n).offset = c.offset + n := by
  rw [c.offset_forward, Cursor.width, length_utf8_eq_iff.mpr hascii, List.length_take, Nat.min_eq_left hle]

private theorem offset_forward_append (part : Str) {behind : Str} (h : c.rest = part ++ behind)
    (hascii : ∀ d ∈ part, d.val.toNat < 128) : (c.forward part.length).offset = c.offset + part.length := by
  refine offset_forward_ascii c (by simp [h]) ?_
  rwa [h, List.take_left]

private theorem isDigit_byte {b : UInt8} (hb : b ∈ String.utf8EncodeChar a) :
    isAscii Char.isDigit b = a.isDigit := seesBytes_isAscii (fun _ => isDigit_ascii) a b hb

private theorem toNat_byte {b : UInt8} (hb : b ∈ String.utf8EncodeChar a) (ha : a.val.toNat < 128) :
    b.toNat = a.toNat := by
  rw [utf8EncodeChar_of_ascii ha, List.mem_singleton] at hb
  subst hb
  rw [UInt8.toNat_ofNat']
  exact Nat.mod_eq_of_lt (by omega)

/-- **A number between characters.** -/
theorem parseColorNumber_cursor :
    parseColorNumber (utf8 c.text) c.offset =
      match colorNumber c.rest with
      | none => (none, c.offset)
      | some (n, digits) => (some n, c.offset + digits.length) := by
  unfold parseColorNumber
  cases hrest : c.rest with
  | nil => rw [byte_nil c hrest, colorNumber]
  | cons a rest =>
    obtain ⟨b, hbyte, hb⟩ := byte_mem c hrest
    rw [hbyte]
    simp only [isDigit_byte hb]
    by_cases hdigit : a.isDigit = true
    · have hascii := isDigit_ascii hdigit
      have hvalue : b.toNat - 48 = digitValue a := by rw [toNat_byte hb hascii, digitValue]
      have hnext : (c.forward 1).offset = c.offset + 1 :=
        offset_forward_append c [a] hrest (List.forall_mem_singleton.mpr hascii)
      have hbehind : (c.forward 1).rest = rest := by rw [c.rest_forward, hrest, List.drop_one,
        List.tail_cons]
      rw [hdigit, ← hnext, ← c.text_forward 1]
      cases rest with
      | nil =>
        rw [byte_nil _ hbehind, colorNumber, if_pos hdigit]
        simp [hvalue, hnext]
      | cons a' rest =>
        obtain ⟨b', hbyte', hb'⟩ := byte_mem _ hbehind
        rw [hbyte', colorNumber]
        simp only [hdigit, isDigit_byte hb', hvalue, Bool.not_true, Bool.false_eq_true, if_false]
        by_cases hdigit' : a'.isDigit = true
        · have hvalue' : b'.toNat - 48 = digitValue a' := by
            rw [toNat_byte hb' (isDigit_ascii hdigit'), digitValue]
          simp only [hdigit', hvalue', Bool.true_and]
          split_ifs
          · rfl
          · rw [hnext]
            rfl
        · simp only [hdigit', Bool.false_and, Bool.false_eq_true, if_false, hnext]
          rfl
    · rw [Bool.not_eq_true] at hdigit
      have hnone : colorNumber (a :: rest) = none := by
        cases rest with
        | nil => rw [colorNumber, if_neg (by simp [hdigit])]
        | cons a' rest => rw [colorNumber, if_pos (by simp [hdigit])]
      rw [hdigit, hnone]
      rfl

private theorem comma_byte : (utf8 c.text)[c.offset]? = some (asciiByte ',') ↔ ∃ rest,
    c.rest = ',' :: rest := by
  cases hrest : c.rest with
  | nil => simp [byte_nil c hrest]
  | cons a rest =>
    obtain ⟨b, hbyte, hb⟩ := byte_mem c hrest
    have hcomma := seesBytes_asciiByte (a := ',') (by decide) a b hb
    rw [decide_eq_decide] at hcomma
    rw [hbyte, Option.some_inj, hcomma]
    exact ⟨fun h => ⟨rest, h ▸ rfl⟩, fun ⟨_, h⟩ => (List.cons.inj h).1⟩

/-- **Colours between characters.** -/
theorem colorCode_cursor (style : Style) :
    colorCode (utf8 c.text) style c.offset =
      ((readColor c.rest).1.apply style, c.offset + (readColor c.rest).2.length) := by
  rw [colorCode, parseColorNumber_cursor, readColor]
  cases hfg : colorNumber c.rest with
  | none => rfl
  | some found =>
    obtain ⟨fg, digits⟩ := found
    obtain ⟨⟨behind, hrest⟩, -, -, -, hdigits⟩ := colorNumber_spec hfg
    have hoffset : (c.forward digits.length).offset = c.offset + digits.length :=
      offset_forward_append c _ hrest.symm fun d hd => isDigit_ascii (hdigits d hd)
    have hbehind : (c.forward digits.length).rest = c.rest.drop digits.length := c.rest_forward _
    simp only [← hoffset, ← hbehind, ← c.text_forward digits.length]
    generalize c.forward digits.length = c' at hoffset
    by_cases hcomma : ∃ rest, c'.rest = ',' :: rest
    · obtain ⟨rest, hrest'⟩ := hcomma
      have hnext : (c'.forward 1).offset = c'.offset + 1 :=
        offset_forward_append c' [','] hrest' (List.forall_mem_singleton.mpr (by decide))
      have hrest'' : (c'.forward 1).rest = rest := by rw [c'.rest_forward, hrest', List.drop_one,
        List.tail_cons]
      rw [if_pos ((comma_byte c').mpr ⟨rest, hrest'⟩), ← hnext, ← c'.text_forward 1,
        parseColorNumber_cursor, hrest', hrest'']
      cases hbg : colorNumber rest with
      | none =>
        simp only [hbg, hoffset]
        rfl
      | some found =>
        simp only [hbg, hnext, hoffset, List.length_append, List.length_cons]
        refine congrArg (Prod.mk _) ?_
        omega
    · rw [if_neg (mt (comma_byte c').mp hcomma)]
      split
      · rename_i rest heq
        exact absurd ⟨rest, heq⟩ hcomma
      · rw [hoffset]
        rfl

/-- **A code between characters.** -/
theorem controlCode_cursor (style : Style) (hrest : c.rest = a :: rest) (hcontrol : isControl a = true) :
    ∃ code spelling, readCode c.rest = some (code, a :: spelling) ∧
      controlCode (utf8 c.text) a style c.offset =
        some (code.apply style, c.offset + (a :: spelling).length) := by
  have hnext : (c.forward 1).offset = c.offset + 1 :=
    offset_forward_append c [a] hrest (List.forall_mem_singleton.mpr (isControl_ascii hcontrol))
  have hbehind : (c.forward 1).rest = rest := by rw [c.rest_forward, hrest, List.drop_one, List.tail_cons]
  have hcolor := colorCode_cursor (c.forward 1) style
  rw [c.text_forward, hnext, hbehind] at hcolor
  simp only [isControl, Bool.or_eq_true, decide_eq_true_eq] at hcontrol
  rw [hrest, controlCode, readCode]
  split_ifs with h1 h2 h3 h4 h5 h6
  · exact ⟨_, _, rfl, rfl⟩
  · exact ⟨_, _, rfl, rfl⟩
  · exact ⟨_, _, rfl, rfl⟩
  · exact ⟨_, _, rfl, rfl⟩
  · exact ⟨_, _, rfl, rfl⟩
  · refine ⟨_, _, rfl, ?_⟩
    rw [hcolor, List.length_cons, Nat.add_assoc, Nat.add_comm 1]
  · tauto

end Bytes

/-! ## The loop -/

def pendingSpans (pending : Str) (style : Style) : List StyledSpan :=
  if pending = [] then [] else [⟨pending, style⟩]

theorem flatMap_pendingSpans (pending : Str) (style : Style) :
    (pendingSpans pending style).flatMap StyledSpan.chars = pending.map (·, style) := by
  unfold pendingSpans
  split_ifs with h
  · rw [h]
    rfl
  · exact List.append_nil _

theorem pendingSpans_ne_nil {pending : Str} {style : Style} :
    ∀ span ∈ pendingSpans pending style, span.text ≠ [] := by
  unfold pendingSpans
  split_ifs with h
  · exact List.forall_mem_nil _
  · exact List.forall_mem_singleton.mpr h

theorem flush_cursor (before pending rest : Str) (spans : List StyledSpan) (style : Style) (i : ℕ) :
    Scan.flush (before ++ (pending ++ rest)) ⟨spans, style, i, (utf8 before).length⟩
      (utf8 (before ++ pending)).length = some (spans ++ pendingSpans pending style) := by
  have hlength : (utf8 (before ++ pending)).length = (utf8 before).length + (utf8 pending).length := by
    rw [utf8_append, List.length_append]
  unfold Scan.flush pendingSpans
  by_cases hnil : pending = []
  · rw [if_neg (by simp [hnil]), if_pos hnil, List.append_nil]
  · have hpos : 0 < (utf8 pending).length :=
      (List.length_pos_of_ne_nil hnil).trans_le (length_le_length_utf8 pending)
    have hslice := strSlice_cursor ⟨before, pending ++ rest⟩ pending.length
    rw [Cursor.text, Cursor.offset, Cursor.width, List.take_left] at hslice
    simp only [hlength, hslice, if_neg hnil, Option.map_some]
    rw [if_pos (by omega)]

theorem parseLoop_skip (input : Str) (fuel : ℕ) (s : Scan) (n : ℕ)
    (h : ∀ j < n, ∃ b, (utf8 input)[s.i + j]? = some b ∧ isControl (Char.ofNat b.toNat) = false) :
    parseLoop input (fuel + n) s = parseLoop input fuel { s with i := s.i + n } := by
  induction n generalizing s with
  | zero => rfl
  | succ n ih =>
    obtain ⟨b, hbyte, hplain⟩ := h 0 (Nat.succ_pos n)
    rw [Nat.add_zero] at hbyte
    rw [← Nat.add_assoc, parseLoop, hbyte]
    simp only [parseStep, hplain, Bool.false_eq_true, if_false, Option.bind_some]
    rw [ih, Nat.add_right_comm, Nat.add_assoc]
    intro j hj
    have hnext := h (j + 1) (by omega)
    rwa [Nat.add_comm j 1, ← Nat.add_assoc] at hnext

theorem isControl_byte {a : Char} {b : UInt8} (hb : b ∈ String.utf8EncodeChar a) :
    isControl (Char.ofNat b.toNat) = isControl a := by
  have hall : ∀ n : Fin 256, isControl (Char.ofNat n.val) = isAscii isControl (UInt8.ofNat n) := by
    decide +kernel
  have hbyte : UInt8.ofNat b.toFin.val = b := UInt8.ofNat_toNat
  have hsees : isAscii isControl b = isControl a := seesBytes_isAscii (fun _ => isControl_ascii) a b hb
  exact (hall b.toFin).trans (hbyte.symm ▸ hsees)

/-- The loop goes on from a position between characters, with some of those before it not in a span
yet, and adds the spans that there should be. -/
def Scans (before pending rest : Str) (spans : List StyledSpan) (style : Style) (fuel : ℕ) : Prop :=
  ∃ s more, parseLoop (before ++ (pending ++ rest)) fuel
      ⟨spans, style, (utf8 (before ++ pending)).length, (utf8 before).length⟩ = some s ∧
    s.flush (before ++ (pending ++ rest)) (utf8 (before ++ (pending ++ rest))).length =
      some (spans ++ more) ∧
    more.flatMap StyledSpan.chars = pending.map (·, style) ++ styled style (items 0 rest) ∧
    ∀ span ∈ more, span.text ≠ []

section Loop

variable {before pending rest : Str} {spans : List StyledSpan} {style : Style} {fuel : ℕ} {a : Char}

theorem scans_nil : Scans before pending [] spans style fuel := by
  have hend := flush_cursor before pending [] spans style (utf8 (before ++ pending)).length
  refine ⟨⟨spans, style, (utf8 (before ++ pending)).length, (utf8 before).length⟩,
    pendingSpans pending style, ?_, ?_, ?_, pendingSpans_ne_nil⟩
  · cases fuel with
    | zero => rw [parseLoop, if_neg (by simp)]
    | succ fuel => rw [parseLoop, List.getElem?_eq_none (by simp)]
  · rw [List.append_nil] at hend ⊢
    exact hend
  · rw [flatMap_pendingSpans, items, styled, List.append_nil]

theorem Scans.char (h : Scans before (pending ++ [a]) rest spans style fuel)
    (hplain : isControl a = false) :
    Scans before pending (a :: rest) spans style (fuel + (String.utf8EncodeChar a).length) := by
  obtain ⟨s, more, hloop, hflush, hchars, hne⟩ := h
  set c : Cursor := ⟨before ++ pending, a :: rest⟩ with hc
  have htext : before ++ (pending ++ a :: rest) = c.text := (List.append_assoc _ _ _).symm
  have hsame : before ++ ((pending ++ [a]) ++ rest) = c.text := by
    rw [← htext, List.append_assoc, List.singleton_append]
  have hoffset : (utf8 (before ++ (pending ++ [a]))).length =
      c.offset + (String.utf8EncodeChar a).length := by
    rw [← List.append_assoc, utf8_append, utf8_cons, utf8_nil, List.append_nil, List.length_append]
    rfl
  have hskip : ∀ j < (String.utf8EncodeChar a).length, ∃ b,
      (utf8 c.text)[c.offset + j]? = some b ∧ isControl (Char.ofNat b.toNat) = false := by
    intro j hj
    refine ⟨(String.utf8EncodeChar a)[j], ?_, (isControl_byte (List.getElem_mem hj)).trans hplain⟩
    rw [← List.getElem?_drop, c.drop_utf8, hc, utf8_cons, List.getElem?_append_left hj,
      List.getElem?_eq_getElem hj]
  rw [hsame] at hloop hflush
  rw [hoffset] at hloop
  refine ⟨s, more, ?_, htext ▸ hflush, ?_, hne⟩
  · rw [htext]
    exact (parseLoop_skip c.text fuel ⟨spans, style, c.offset, (utf8 before).length⟩ _ hskip).trans hloop
  · rw [hchars, items, readCode_eq_none rest hplain, styled, List.map_append, List.append_assoc]
    rfl

theorem Scans.code {code : Code} {spelling : Str} (hcontrol : isControl a = true)
    (hread : readCode (a :: (spelling ++ rest)) = some (code, a :: spelling))
    (hascii : ∀ d ∈ a :: spelling, d.val.toNat < 128)
    (h : Scans (before ++ pending ++ a :: spelling) [] rest (spans ++ pendingSpans pending style)
      (code.apply style) fuel) :
    Scans before pending (a :: (spelling ++ rest)) spans style (fuel + 1) := by
  obtain ⟨s, more, hloop, hflush, hchars, hne⟩ := h
  set c : Cursor := ⟨before ++ pending, a :: (spelling ++ rest)⟩ with hc
  have htext : before ++ (pending ++ a :: (spelling ++ rest)) = c.text := (List.append_assoc _ _ _).symm
  have hsame : (before ++ pending ++ a :: spelling) ++ ([] ++ rest) = c.text := by
    rw [List.nil_append, List.append_assoc, List.cons_append]
    rfl
  have hoffset : (utf8 (before ++ pending ++ a :: spelling)).length =
      c.offset + (a :: spelling).length := by
    rw [utf8_append, List.length_append, length_utf8_eq_iff.mpr hascii]
    rfl
  obtain ⟨b, hbyte, hb⟩ := byte_mem c (show c.rest = a :: (spelling ++ rest) from rfl)
  have hchar : Char.ofNat b.toNat = a := by
    rw [toNat_byte hb (isControl_ascii hcontrol)]
    exact Char.ofNat_toNat a
  obtain ⟨_, _, hread', hcode⟩ :=
    controlCode_cursor c style (show c.rest = a :: (spelling ++ rest) from rfl) hcontrol
  obtain ⟨rfl, hspelling⟩ := Prod.mk.inj (Option.some.inj (hread.symm.trans hread'))
  rw [← hspelling] at hcode
  have hpart := flush_cursor before pending (a :: (spelling ++ rest)) spans style c.offset
  rw [htext] at hpart
  have hstep : parseStep c.text ⟨spans, style, c.offset, (utf8 before).length⟩ b =
      some ⟨spans ++ pendingSpans pending style, code.apply style,
        c.offset + (a :: spelling).length, c.offset + (a :: spelling).length⟩ := by
    simp only [parseStep, hchar, hcontrol, if_true]
    exact (congrArg (Option.bind · _) hpart).trans (congrArg (Option.bind · _) hcode)
  rw [hsame] at hloop hflush
  rw [List.append_nil, hoffset] at hloop
  refine ⟨s, pendingSpans pending style ++ more, ?_, ?_, ?_, ?_⟩
  · have hround : parseLoop c.text (fuel + 1) ⟨spans, style, c.offset, (utf8 before).length⟩ =
        (parseStep c.text ⟨spans, style, c.offset, (utf8 before).length⟩ b).bind
            (parseLoop c.text fuel) := by
      rw [parseLoop, hbyte]
    rw [htext]
    exact hround.trans ((congrArg (Option.bind · _) hstep).trans hloop)
  · rw [htext, ← List.append_assoc]
    exact hflush
  · rw [List.flatMap_append, flatMap_pendingSpans, hchars, items, hread, styled]
    simp only [List.length_cons, Nat.add_sub_cancel, items_skip spelling.length, List.drop_left,
      List.map_nil, List.nil_append]
  · exact List.forall_mem_append.mpr ⟨pendingSpans_ne_nil, hne⟩

end Loop

/-- **The loop**, from any position between characters, by how many of them are ahead. -/
theorem parseLoop_cursor (n : ℕ) :
    ∀ (before pending rest : Str) (spans : List StyledSpan) (style : Style) (fuel : ℕ),
      rest.length ≤ n → (utf8 rest).length ≤ fuel → Scans before pending rest spans style fuel := by
  induction n with
  | zero =>
    intro before pending rest spans style fuel hn _
    obtain rfl := List.length_eq_zero_iff.mp (Nat.le_zero.mp hn)
    exact scans_nil
  | succ n ih =>
    intro before pending rest spans style fuel hn hfuel
    cases rest with
    | nil => exact scans_nil
    | cons a rest =>
      have hpos := length_utf8EncodeChar_pos a
      rw [utf8_cons, List.length_append] at hfuel
      rw [List.length_cons] at hn
      cases hcontrol : isControl a with
      | false =>
        obtain ⟨fuel, rfl⟩ := Nat.exists_eq_add_of_le'
          (show (String.utf8EncodeChar a).length ≤ fuel by omega)
        exact (ih before (pending ++ [a]) rest spans style fuel (by omega) (by omega)).char hcontrol
      | true =>
        obtain ⟨code, spelling, hread, ⟨behind, rfl⟩, hascii⟩ := readCode_spec rest hcontrol
        obtain ⟨fuel, rfl⟩ := Nat.exists_eq_add_of_le' (show 1 ≤ fuel by omega)
        rw [List.length_append] at hn
        rw [utf8_append, List.length_append] at hfuel
        exact Scans.code hcontrol hread hascii (ih _ [] behind _ _ fuel (by omega) (by omega))

/-- **Codes are removed and nothing else**, no span is empty, and every character has the style that
the codes before it give. -/
theorem parseMircFormat_eq (s : Str) :
    ∃ spans, parseMircFormat s = some spans ∧
      (items 0 s).flatMap Item.spelling = s ∧
      spans.flatMap StyledSpan.text = (items 0 s).flatMap Item.text ∧
      spans.flatMap StyledSpan.chars = styled .new (items 0 s) ∧
      ∀ span ∈ spans, span.text ≠ [] := by
  obtain ⟨scan, spans, hloop, hflush, hchars, hne⟩ :=
    parseLoop_cursor s.length [] [] s [] .new (utf8 s).length le_rfl le_rfl
  rw [List.map_nil, List.nil_append] at hchars
  refine ⟨spans, ?_, flatMap_spelling_items s 0, ?_, hchars, hne⟩
  · exact (congrArg (Option.bind · _) hloop).trans hflush
  · have htext : (spans.flatMap StyledSpan.chars).map Prod.fst = spans.flatMap StyledSpan.text := by
      rw [List.map_flatMap]
      refine congrArg (spans.flatMap ·) (funext fun span => ?_)
      rw [StyledSpan.chars, List.map_map]
      exact List.map_id _
    rw [← htext, hchars, map_fst_styled]

end Pirc.Tui
