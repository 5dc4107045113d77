import Pirc.Lib.Terminal
import Pirc.Tui.Buffer

/-!
# Terminal interface: the renderer

`tui/renderer.rs` and `tui/ansi.rs`: of two buffers, one holds what is displayed and one what is to
be displayed. Flushing writes the cells in which they differ, in runs, and erases the rest of a row
behind a run if it is blank.
-/

namespace Pirc.Tui

open Protocol (Str decimal)

/-! ## Control sequences -/

def moveTo (col row : ℕ) : Str := "\x1b[".toList ++ decimal row ++ ';' :: decimal col ++ ['H']

def clearScreen : Str := "\x1b[2J".toList

def clearToEndOfLine : Str := "\x1b[K".toList

def hideCursor : Str := "\x1b[?25l".toList

def showCursor : Str := "\x1b[?25h".toList

/-! ## The renderer -/

/-- The renderer. What it writes is given back by each of its functions. -/
structure Renderer where
  front : Buffer
  back : Buffer
  width : UInt16
  height : UInt16
  cursorPos : Option (UInt16 × UInt16)

/-- What a flush has written, and the style that is set. -/
structure Frame where
  output : Str
  currentStyle : Option Style

namespace Frame

variable (f : Frame)

def write (text : Str) : Frame := { f with output := f.output ++ text }

def emitStyleChange (newStyle : Style) : Frame :=
  if f.currentStyle = some newStyle then f
  else if newStyle.isEmpty then { f.write Style.writeReset with currentStyle := some newStyle }
  else { (f.write Style.writeReset).write newStyle.writeSgr with currentStyle := some newStyle }

/-- A cell, with the change of style that it needs. -/
def emitCell (cell : Cell) : Frame := (f.emitStyleChange cell.style).write [cell.ch]

end Frame

namespace Renderer

def new (width height : UInt16) : Renderer where
  front := .new width height
  back := (Buffer.new width height).markAllDirty
  width := width
  height := height
  cursorPos := none

variable (r : Renderer)

def setCursor (col row : UInt16) : Renderer := { r with cursorPos := some (col, row) }

/-- A row has default cells only from a column on. -/
def restOfRowIsDefault (buf : Buffer) (col row : ℕ) : Bool :=
  (List.range' col (r.width.toNat - col)).all (fun c => buf.get c row = .default) &&
    decide (col < r.width.toNat)

/-- The changed cells from a column on, and the column behind them. -/
def flushRun (row runStart col : ℕ) (f : Frame) : Frame × ℕ :=
  if col < r.width.toNat then
    if r.back.get col row = r.front.get col row ∧ col ≠ runStart then (f, col)
    else flushRun row runStart (col + 1) (f.emitCell (r.back.get col row))
  else (f, col)
termination_by r.width.toNat - col

theorem le_flushRun (row runStart col : ℕ) (f : Frame) : col ≤ (r.flushRun row runStart col f).2 := by
  induction col, f using flushRun.induct r row runStart with
  | case1 col f hcol hend =>
    rw [flushRun, if_pos hcol, if_pos hend]
  | case2 col f hcol hend ih =>
    rw [flushRun, if_pos hcol, if_neg hend]
    omega
  | case3 col f hcol =>
    rw [flushRun, if_neg hcol]

theorem lt_flushRun (row : ℕ) {col : ℕ} (f : Frame) (hcol : col < r.width.toNat) :
    col < (r.flushRun row col col f).2 := by
  rw [flushRun, if_pos hcol, if_neg fun h => h.2 rfl]
  exact r.le_flushRun row col (col + 1) _

/-- Clear the rest of a row that is default cells only. -/
def clearRest (row col : ℕ) (f : Frame) : Frame :=
  if r.restOfRowIsDefault r.back col row then
    let f :=
      if f.currentStyle.isSome ∧ f.currentStyle ≠ some .new then
        { f.write Style.writeReset with currentStyle := some .new }
      else f
    f.write clearToEndOfLine
  else f

/-- The runs of changed cells of a row. -/
def flushRow (row col : ℕ) (f : Frame) : Frame :=
  if h : col < r.width.toNat then
    if r.back.get col row = r.front.get col row then flushRow row (col + 1) f
    else
      let run := r.flushRun row col col (f.write (moveTo (col + 1) (row + 1)))
      flushRow row run.2 (r.clearRest row run.2 run.1)
  else f
termination_by r.width.toNat - col
decreasing_by
  · omega
  · have hlt := r.lt_flushRun row (f.write (moveTo (col + 1) (row + 1))) h
    omega

def flushRows (f : Frame) : Frame := (List.range r.height.toNat).foldl (fun f row => r.flushRow row 0 f) f

/-- What is shown becomes the front buffer. -/
def syncFrontFromBack : Renderer :=
  let cells := (List.range r.height.toNat).flatMap fun row => (List.range r.width.toNat).map
    fun col => (col, row)
  let front := cells.foldl (fun front pos =>
    front.set pos.1 pos.2 (r.back.get pos.1 pos.2).ch (r.back.get pos.1 pos.2).style) r.front
  { r with front := front.clearDirty, back := r.back.clearDirty }

/-- **Write what differs**, and the renderer once that is displayed. -/
def flush : Str × Renderer :=
  if r.width = 0 ∨ r.height = 0 then ([], r)
  else
    let f : Frame := ⟨if r.cursorPos.isSome then hideCursor else [], none⟩
    let f := r.flushRows f
    let f :=
      if f.currentStyle.isSome ∧ f.currentStyle ≠ some .new then f.write Style.writeReset else f
    let f :=
      match r.cursorPos with
      | some (col, row) => (f.write (moveTo (col + 1).toNat (row + 1).toNat)).write showCursor
      | none => f
    (f.output, r.syncFrontFromBack)

/-- Forget what was painted. -/
def forceRedraw : Renderer :=
  { r with front := .new r.width r.height, back := r.back.markAllDirty }

/-- Another size, on a cleared screen. -/
def resize (newWidth newHeight : UInt16) : Str × Renderer :=
  (clearScreen ++ moveTo 1 1,
    { r with
      width := newWidth
      height := newHeight
      front := r.front.resize newWidth newHeight
      back := r.back.resize newWidth newHeight })

end Renderer

/-! ## How cells look in a terminal -/

namespace Color

def shown : Color → Terminal.Color
  | default_ => .default_
  | black => .ansi 0
  | red => .ansi 1
  | green => .ansi 2
  | yellow => .ansi 3
  | blue => .ansi 4
  | magenta => .ansi 5
  | cyan => .ansi 6
  | white => .ansi 7
  | brightBlack => .bright 0
  | brightRed => .bright 1
  | brightGreen => .bright 2
  | brightYellow => .bright 3
  | brightBlue => .bright 4
  | brightMagenta => .bright 5
  | brightCyan => .bright 6
  | brightWhite => .bright 7
  | palette n => .indexed n.toNat
  | rgb r g b => .rgb r.toNat g.toNat b.toNat

def fgCodes : Color → List ℕ
  | default_ => [39]
  | black => [30]
  | red => [31]
  | green => [32]
  | yellow => [33]
  | blue => [34]
  | magenta => [35]
  | cyan => [36]
  | white => [37]
  | brightBlack => [90]
  | brightRed => [91]
  | brightGreen => [92]
  | brightYellow => [93]
  | brightBlue => [94]
  | brightMagenta => [95]
  | brightCyan => [96]
  | brightWhite => [97]
  | palette n => [38, 5, n.toNat]
  | rgb r g b => [38, 2, r.toNat, g.toNat, b.toNat]

/-- Those for the background are ten more, where they are not of the colour itself. -/
def bgCodes (c : Color) : List ℕ :=
  match c.fgCodes with
  | [] => []
  | code :: rest => (code + 10) :: rest

theorem writeFgParam_eq (c : Color) :
    c.writeFgParam = [';'].intercalate (c.fgCodes.map (Nat.toDigits 10)) := by
  cases c with
  | palette n =>
    have hlead : "38;5;".toList = Nat.toDigits 10 38 ++ ';' :: Nat.toDigits 10 5 ++ [';'] := rfl
    change "38;5;".toList ++ decimal n.toNat = _
    rw [hlead]
    simp [fgCodes, decimal]
  | rgb r g b =>
    have hlead : "38;2;".toList = Nat.toDigits 10 38 ++ ';' :: Nat.toDigits 10 2 ++ [';'] := rfl
    change "38;2;".toList ++ decimal r.toNat ++ ';' :: decimal g.toNat ++ ';' :: decimal b.toNat = _
    rw [hlead]
    simp [fgCodes, decimal]
  | _ => rfl

theorem writeBgParam_eq (c : Color) :
    c.writeBgParam = [';'].intercalate (c.bgCodes.map (Nat.toDigits 10)) := by
  cases c with
  | palette n =>
    have hlead : "48;5;".toList = Nat.toDigits 10 48 ++ ';' :: Nat.toDigits 10 5 ++ [';'] := rfl
    change "48;5;".toList ++ decimal n.toNat = _
    rw [hlead]
    simp [bgCodes, fgCodes, decimal]
  | rgb r g b =>
    have hlead : "48;2;".toList = Nat.toDigits 10 48 ++ ';' :: Nat.toDigits 10 2 ++ [';'] := rfl
    change "48;2;".toList ++ decimal r.toNat ++ ';' :: decimal g.toNat ++ ';' :: decimal b.toNat = _
    rw [hlead]
    simp [bgCodes, fgCodes, decimal]
  | _ => rfl

theorem sgr_fgCodes (c : Color) (rest : List ℕ) (pen : Terminal.Pen) :
    Terminal.sgr (c.fgCodes ++ rest) pen = Terminal.sgr rest { pen with fg := c.shown } := by
  cases c <;> rfl

theorem sgr_bgCodes (c : Color) (rest : List ℕ) (pen : Terminal.Pen) :
    Terminal.sgr (c.bgCodes ++ rest) pen = Terminal.sgr rest { pen with bg := c.shown } := by
  cases c <;> rfl

end Color

theorem intercalate_append {α : Type} (sep : List α) {l m : List (List α)} (hl : l ≠ [])
    (hm : m ≠ []) : sep.intercalate (l ++ m) = sep.intercalate l ++ sep ++ sep.intercalate m := by
  induction l with
  | nil => exact absurd rfl hl
  | cons a l ih =>
    cases l with
    | nil => rw [List.singleton_append, List.intercalate_cons_of_ne_nil hm, List.intercalate_singleton]
    | cons b l =>
      rw [List.cons_append, List.intercalate_cons_of_ne_nil (by simp), ih (List.cons_ne_nil b l),
        List.intercalate_cons_of_ne_nil (List.cons_ne_nil b l)]
      simp only [List.append_assoc]

theorem intercalate_map_intercalate {α : Type} (sep : List α) {groups : List (List (List α))}
    (h : ∀ group ∈ groups, group ≠ []) :
    sep.intercalate (groups.map sep.intercalate) = sep.intercalate groups.flatten := by
  induction groups with
  | nil => rfl
  | cons group groups ih =>
    obtain ⟨hgroup, hrest⟩ := List.forall_mem_cons.mp h
    cases groups with
    | nil => simp
    | cons next groups =>
      have hflatten : (next :: groups).flatten ≠ [] := by
        rw [List.flatten_cons]
        exact List.append_ne_nil_of_left_ne_nil (h next (by simp)) _
      rw [List.map_cons, List.intercalate_cons_of_ne_nil (by simp), ih hrest,
        List.flatten_cons (l := group),
        intercalate_append sep hgroup hflatten]

namespace Style

/-- How a terminal shows a style. -/
def pen (s : Style) : Terminal.Pen where
  fg := (s.fg.map Color.shown).getD .default_
  bg := (s.bg.map Color.shown).getD .default_
  bold := s.bold
  italic := s.italic
  underline := s.underline
  reverse := s.reverse

/-- The numbers of the parameters, for each thing that is set. -/
def codes (s : Style) : List (List ℕ) :=
  (if s.bold then [[1]] else []) ++ (if s.italic then [[3]] else []) ++
    (if s.underline then [[4]] else []) ++
    (if s.reverse then [[7]] else []) ++ (s.fg.map Color.fgCodes).toList ++ (s.bg.map Color.bgCodes).toList

theorem sgrParams_eq (s : Style) :
    s.sgrParams = s.codes.map fun group => [';'].intercalate (group.map (Nat.toDigits 10)) := by
  have hflag (flag : Bool) (code : ℕ) :
      ((if flag then [[code]] else []).map fun group => [';'].intercalate (group.map (Nat.toDigits 10))) =
        if flag then [Nat.toDigits 10 code] else [] := by
    cases flag <;> simp
  have hfg : ((s.fg.map Color.fgCodes).toList.map
      fun group => [';'].intercalate (group.map (Nat.toDigits 10))) =
      (s.fg.map Color.writeFgParam).toList := by
    cases s.fg <;> simp [Color.writeFgParam_eq]
  have hbg : ((s.bg.map Color.bgCodes).toList.map
      fun group => [';'].intercalate (group.map (Nat.toDigits 10))) =
      (s.bg.map Color.writeBgParam).toList := by
    cases s.bg <;> simp [Color.writeBgParam_eq]
  unfold sgrParams codes
  simp only [List.map_append, hflag, hfg, hbg]
  rfl

theorem sgr_codes (s : Style) : Terminal.sgr s.codes.flatten {} = s.pen := by
  have hflag {code : ℕ} {set : Terminal.Pen → Terminal.Pen}
      (hset : ∀ rest pen, Terminal.sgr (code :: rest) pen = Terminal.sgr rest (set pen)) (flag : Bool)
      (rest : List ℕ) (pen : Terminal.Pen) :
      Terminal.sgr ((if flag then [[code]] else []).flatten ++ rest) pen =
        Terminal.sgr rest (if flag then set pen else pen) := by
    cases flag with
    | false => rfl
    | true => exact hset rest pen
  have hbold := @hflag 1 (fun pen => { pen with bold := true }) fun _ _ => rfl
  have hitalic := @hflag 3 (fun pen => { pen with italic := true }) fun _ _ => rfl
  have hunderline := @hflag 4 (fun pen => { pen with underline := true }) fun _ _ => rfl
  have hreverse := @hflag 7 (fun pen => { pen with reverse := true }) fun _ _ => rfl
  have hfg (rest : List ℕ) (pen : Terminal.Pen) :
      Terminal.sgr ((s.fg.map Color.fgCodes).toList.flatten ++ rest) pen =
        Terminal.sgr rest { pen with fg := (s.fg.map Color.shown).getD pen.fg } := by
    cases s.fg with
    | none => rfl
    | some c => simpa using Color.sgr_fgCodes c rest pen
  have hbg (rest : List ℕ) (pen : Terminal.Pen) :
      Terminal.sgr ((s.bg.map Color.bgCodes).toList.flatten ++ rest) pen =
        Terminal.sgr rest { pen with bg := (s.bg.map Color.shown).getD pen.bg } := by
    cases s.bg with
    | none => rfl
    | some c => simpa using Color.sgr_bgCodes c rest pen
  have hlast := hbg []
  rw [List.append_nil] at hlast
  unfold codes
  simp only [List.flatten_append, List.append_assoc, hbold, hitalic, hunderline, hreverse, hfg, hlast]
  unfold pen
  cases s.bold <;> cases s.italic <;> cases s.underline <;> cases s.reverse <;> rfl

theorem ne_nil_of_mem_codes {s : Style} {group : List ℕ} (h : group ∈ s.codes) : group ≠ [] := by
  have hfg (c : Color) : c.fgCodes ≠ [] := by cases c <;> exact List.cons_ne_nil _ _
  have hbg (c : Color) : c.bgCodes ≠ [] := by cases c <;> exact List.cons_ne_nil _ _
  unfold codes at h
  simp only [List.mem_append, List.mem_ite_nil_right, List.mem_singleton, Option.mem_toList,
    Option.map_eq_some_iff] at h
  rcases h with ((((⟨-, rfl⟩ | ⟨-, rfl⟩) | ⟨-, rfl⟩) | ⟨-, rfl⟩) | ⟨c, -, rfl⟩) | ⟨c, -, rfl⟩
  · exact List.cons_ne_nil _ _
  · exact List.cons_ne_nil _ _
  · exact List.cons_ne_nil _ _
  · exact List.cons_ne_nil _ _
  · exact hfg c
  · exact hbg c

theorem flatten_codes_ne_nil {s : Style} (h : s.isEmpty = false) : s.codes.flatten ≠ [] := by
  intro hnil
  have hcodes : s.codes = [] := by
    rw [List.eq_nil_iff_forall_not_mem]
    exact fun group hgroup => ne_nil_of_mem_codes hgroup (List.flatten_eq_nil_iff.mp hnil group hgroup)
  obtain ⟨fg, bg, bold, underline, italic, reverse⟩ := s
  cases fg <;> cases bg <;> simp_all [codes, isEmpty]

theorem writeSgr_eq {s : Style} (h : s.isEmpty = false) :
    s.writeSgr = Terminal.csiText false s.codes.flatten 'm' := by
  have hparams : [';'].intercalate s.sgrParams =
      [';'].intercalate (s.codes.flatten.map (Nat.toDigits 10)) := by
    have hgroups : ∀ group ∈ s.codes.map (List.map (Nat.toDigits 10)), group ≠ [] := by
      intro group hgroup
      obtain ⟨codes, hcodes, rfl⟩ := List.mem_map.mp hgroup
      exact fun hnil => ne_nil_of_mem_codes hcodes (List.map_eq_nil_iff.mp hnil)
    rw [sgrParams_eq, List.map_flatten, ← intercalate_map_intercalate [';'] hgroups, List.map_map]
    rfl
  unfold writeSgr
  rw [h, if_neg Bool.false_ne_true, hparams]
  rfl

end Style

theorem feed_writeReset {t : Terminal} (hstate : t.state = .ground) :
    t.feed Style.writeReset = { t with pen := {} } := by
  have htext : Style.writeReset = Terminal.csiText false [0] 'm' := rfl
  rw [htext, Terminal.feed_csiText hstate false (by simp) (by decide)]
  rfl

theorem feed_moveTo {t : Terminal} (hstate : t.state = .ground) (col row : ℕ) :
    t.feed (moveTo col row) = t.moveTo row col := by
  have htext : moveTo col row = Terminal.csiText false [row, col] 'H' := by
    unfold moveTo Terminal.csiText decimal
    simp
  rw [htext, Terminal.feed_csiText hstate false (by simp) (by decide)]
  rfl

/-- **The sequence for a style** sets how characters look. -/
theorem feed_style {t : Terminal} (hstate : t.state = .ground) (style : Style) :
    t.feed (if style.isEmpty then Style.writeReset else Style.writeReset ++ style.writeSgr) =
      { t with pen := style.pen } := by
  have hreset := feed_writeReset hstate
  cases hempty : style.isEmpty with
  | true =>
    rw [if_pos rfl, hreset, (Style.isEmpty_iff style).mp hempty]
    rfl
  | false =>
    rw [if_neg Bool.false_ne_true, Terminal.feed_append, hreset, Style.writeSgr_eq hempty,
      Terminal.feed_csiText
      (t := { t with pen := {} }) hstate false (Style.flatten_codes_ne_nil hempty) (by decide)]
    change { t with pen := Terminal.sgr style.codes.flatten {} } = _
    rw [Style.sgr_codes]

/-- How a terminal shows a cell. -/
def Cell.glyph (cell : Cell) : Terminal.Glyph := ⟨cell.ch, cell.style.pen⟩

/-! ## Runs -/

namespace Renderer

variable {r : Renderer} {t : Terminal} {f : Frame} {row col : ℕ}

/-- After what was written, the terminal is between sequences, has the renderer's size, and
characters look as the style that is set says. -/
structure Follows (r : Renderer) (t : Terminal) (f : Frame) : Prop where
  ground : (t.feed f.output).state = .ground
  pen : ∀ style, f.currentStyle = some style → (t.feed f.output).pen = style.pen
  unset : f.currentStyle = none → (t.feed f.output).pen = t.pen
  width : (t.feed f.output).width = r.width.toNat
  height : (t.feed f.output).height = r.height.toNat

theorem Follows.emitStyleChange (h : r.Follows t f) (style : Style) :
    t.feed (f.emitStyleChange style).output = { t.feed f.output with pen := style.pen } ∧
      (f.emitStyleChange style).currentStyle = some style := by
  have hstyle := feed_style h.ground style
  unfold Frame.emitStyleChange Frame.write
  by_cases hsame : f.currentStyle = some style
  · rw [if_pos hsame, ← h.pen style hsame]
    exact ⟨rfl, hsame⟩
  · rw [if_neg hsame]
    cases hempty : style.isEmpty with
    | true =>
      rw [hempty, if_pos rfl] at hstyle
      rw [if_pos rfl]
      exact ⟨(Terminal.feed_append _ _).trans hstyle, rfl⟩
    | false =>
      rw [hempty, if_neg Bool.false_ne_true] at hstyle
      rw [if_neg Bool.false_ne_true]
      refine ⟨?_, rfl⟩
      dsimp only
      rw [List.append_assoc, Terminal.feed_append, hstyle]

/-- **One cell** is shown where the cursor is. -/
theorem Follows.emitCell (h : r.Follows t f) (hat : (t.feed f.output).At col row)
    (hcol : col < r.width.toNat) {cell : Cell} (hprint : Terminal.isControl cell.ch = false) :
    r.Follows t (f.emitCell cell) ∧ (t.feed (f.emitCell cell).output).At (col + 1) row ∧
      (f.emitCell cell).currentStyle = some cell.style ∧
      ∀ c r', (t.feed (f.emitCell cell).output).screen c r' =
        if c = col ∧ r' = row then cell.glyph else (t.feed f.output).screen c r' := by
  obtain ⟨hstyled, hcurrent⟩ := h.emitStyleChange cell.style
  let styled : Terminal := { t.feed f.output with pen := cell.style.pen }
  have hput : t.feed (f.emitCell cell).output = styled.put cell.ch := by
    unfold Frame.emitCell Frame.write
    rw [Terminal.feed_append, hstyled]
    exact Terminal.feed_put (t := styled) h.ground hprint
  have hat' : styled.At col row := ⟨hat.row, hat.col⟩
  obtain ⟨hnext, hstate, hpen, hwidth, hheight, hscreen⟩ := hat'.put (h.width.symm ▸ hcol) cell.ch
  rw [hput]
  refine ⟨⟨?_, ?_, ?_, ?_, ?_⟩, hnext, hcurrent, hscreen⟩
  · rw [hput, hstate]
    exact h.ground
  · intro style hstyle
    have heq : cell.style = style := Option.some.inj (hcurrent.symm.trans hstyle)
    rw [hput, hpen, ← heq]
  · exact fun hnone => nomatch hcurrent.symm.trans hnone
  · rw [hput, hwidth]
    exact h.width
  · rw [hput, hheight]
    exact h.height

/-- The cell is to be displayed in another way than it is. -/
def Changed (r : Renderer) (col row : ℕ) : Prop := r.back.get col row ≠ r.front.get col row

theorem flushRun_cells (row runStart : ℕ) (f : Frame) (hle : col ≤ r.width.toNat) :
    (r.flushRun row runStart col f).2 ≤ r.width.toNat ∧
      (∀ c, col ≤ c → c < (r.flushRun row runStart col f).2 → c = runStart ∨ r.Changed c row) ∧
      ((r.flushRun row runStart col f).2 < r.width.toNat →
        ¬ r.Changed (r.flushRun row runStart col f).2 row ∧
          (r.flushRun row runStart col f).2 ≠ runStart) := by
  induction col, f using flushRun.induct r row runStart with
  | case1 col f hcol hend =>
    rw [flushRun, if_pos hcol, if_pos hend]
    exact ⟨hle, fun c hc hlt => absurd hlt (by omega), fun _ => ⟨not_not.mpr hend.1, hend.2⟩⟩
  | case2 col f hcol hgo ih =>
    obtain ⟨hbound, hchanged, hend⟩ := ih (by omega)
    rw [flushRun, if_pos hcol, if_neg hgo]
    refine ⟨hbound, fun c hc hlt => ?_, hend⟩
    rcases Nat.eq_or_lt_of_le hc with rfl | hgt
    · by_cases hstart : col = runStart
      · exact .inl hstart
      · exact .inr fun hsame => hgo ⟨hsame, hstart⟩
    · exact hchanged c hgt hlt
  | case3 col f hcol =>
    rw [flushRun, if_neg hcol]
    exact ⟨hle, fun c hc hlt => absurd hlt (by omega), fun hlt => absurd hlt hcol⟩

/-- **A run** is shown. -/
theorem Follows.flushRun (hprint : ∀ c r', Terminal.isControl (r.back.get c r').ch = false)
    (runStart : ℕ) (h : r.Follows t f) (hat : (t.feed f.output).At col row) :
    r.Follows t (r.flushRun row runStart col f).1 ∧
      (t.feed (r.flushRun row runStart col f).1.output).At (r.flushRun row runStart col f).2 row ∧
      (f.currentStyle.isSome ∨ col < (r.flushRun row runStart col f).2 →
        (r.flushRun row runStart col f).1.currentStyle.isSome) ∧
      ∀ c r', (t.feed (r.flushRun row runStart col f).1.output).screen c r' =
        if r' = row ∧ col ≤ c ∧ c < (r.flushRun row runStart col f).2 then (r.back.get c row).glyph
        else (t.feed f.output).screen c r' := by
  induction col, f using flushRun.induct r row runStart with
  | case1 col f hcol hend =>
    rw [Renderer.flushRun, if_pos hcol, if_pos hend]
    refine ⟨h, hat, fun hsome => hsome.resolve_right (lt_irrefl _), fun c r' => ?_⟩
    rw [if_neg (by omega)]
  | case2 col f hcol hgo ih =>
    obtain ⟨hfollows, hnext, hcurrent, hcell⟩ := h.emitCell hat hcol (hprint col row)
    obtain ⟨hfollows', hat', hsome, hscreen⟩ := ih hfollows hnext
    have hle := r.le_flushRun row runStart (col + 1) (f.emitCell (r.back.get col row))
    rw [Renderer.flushRun, if_pos hcol, if_neg hgo]
    refine ⟨hfollows', hat', fun _ => hsome (.inl (by rw [hcurrent]; rfl)), fun c r' => ?_⟩
    rw [hscreen, hcell]
    by_cases hrow : r' = row
    · subst hrow
      rcases lt_trichotomy c col with hlt | rfl | hgt
      · rw [if_neg (by omega), if_neg (by omega), if_neg (by omega)]
      · rw [if_neg (by omega), if_pos ⟨rfl, rfl⟩, if_pos ⟨rfl, le_rfl, by omega⟩]
      · rw [if_neg (c := c = col ∧ r' = r') (by omega)]
        exact if_congr (by omega) rfl rfl
    · rw [if_neg (by tauto), if_neg (by tauto), if_neg (by tauto)]
  | case3 col f hcol =>
    rw [Renderer.flushRun, if_neg hcol]
    refine ⟨h, hat, fun hsome => hsome.resolve_right (lt_irrefl _), fun c r' => ?_⟩
    rw [if_neg (by omega)]

/-! ## Rows -/

theorem restOfRowIsDefault_iff {buf : Buffer} :
    r.restOfRowIsDefault buf col row = true ↔
      col < r.width.toNat ∧ ∀ c, col ≤ c → c < r.width.toNat → buf.get c row = .default := by
  unfold restOfRowIsDefault
  rw [Bool.and_eq_true, List.all_eq_true, decide_eq_true_iff, and_comm]
  refine and_congr_right fun hcol => ⟨fun h c hle hlt => ?_, fun h c hc => ?_⟩
  · exact of_decide_eq_true (h c (List.mem_range'_1.mpr (by omega)))
  · have hrange := List.mem_range'_1.mp hc
    exact decide_eq_true (h c hrange.1 (by omega))

theorem Follows.moveTo (h : r.Follows t f) (col : ℕ) (hrow : row < r.height.toNat) :
    r.Follows t (f.write (moveTo (col + 1) (row + 1))) ∧
      (t.feed (f.write (moveTo (col + 1) (row + 1))).output).At col row ∧
      (t.feed (f.write (moveTo (col + 1) (row + 1))).output).screen = (t.feed f.output).screen := by
  have hmoved : t.feed (f.write (Tui.moveTo (col + 1) (row + 1))).output =
      (t.feed f.output).moveTo (row + 1) (col + 1) :=
    (Terminal.feed_append _ _).trans (feed_moveTo h.ground _ _)
  refine ⟨⟨?_, ?_, ?_, ?_, ?_⟩, ?_, ?_⟩ <;> rw [hmoved]
  · exact h.ground
  · exact h.pen
  · exact h.unset
  · exact h.width
  · exact h.height
  · exact Terminal.at_moveTo (h.height.symm ▸ hrow)
  · rfl

theorem feed_clearToEndOfLine {t : Terminal} (hstate : t.state = .ground) :
    t.feed clearToEndOfLine = t.eraseLine := by
  have hground : ({ t with state := .ground } : Terminal) = t := by rw [← hstate]
  have herase : t.feed clearToEndOfLine = ({ t with state := .ground } : Terminal).eraseLine := rfl
  rw [herase, hground]

/-- **The rest of a row** is erased in no style. -/
theorem Follows.clearRest (h : r.Follows t f) (hat : (t.feed f.output).At col row)
    (hsome : f.currentStyle.isSome) : r.Follows t (r.clearRest row col f) ∧
      ∀ c r', (t.feed (r.clearRest row col f).output).screen c r' =
        if r.restOfRowIsDefault r.back col row = true ∧ r' = row ∧ col ≤ c then Cell.default.glyph
        else (t.feed f.output).screen c r' := by
  unfold Renderer.clearRest
  by_cases hrest : r.restOfRowIsDefault r.back col row = true
  · obtain ⟨hcol, -⟩ := restOfRowIsDefault_iff.mp hrest
    obtain ⟨hatcol, -⟩ := hat.col (h.width.symm ▸ hcol)
    obtain ⟨hplain, hcurrent⟩ := h.emitStyleChange .new
    let plain : Terminal := { t.feed f.output with pen := {} }
    have hunstyled : (if f.currentStyle.isSome ∧ f.currentStyle ≠ some .new then
        { f.write Style.writeReset with currentStyle := some .new } else f) = f.emitStyleChange .new := by
      unfold Frame.emitStyleChange
      by_cases hnew : f.currentStyle = some .new
      · rw [if_pos hnew, if_neg fun h => h.2 hnew]
      · rw [if_neg hnew, if_pos ⟨hsome, hnew⟩]
        rfl
    have herased : t.feed ((f.emitStyleChange .new).write clearToEndOfLine).output = plain.eraseLine := by
      unfold Frame.write
      rw [Terminal.feed_append, hplain]
      exact feed_clearToEndOfLine h.ground
    rw [if_pos hrest, hunstyled]
    dsimp only
    refine ⟨⟨?_, ?_, ?_, ?_, ?_⟩, fun c r' => ?_⟩
    · rw [herased]
      exact h.ground
    · intro style hstyle
      have heq : Style.new = style := Option.some.inj (hcurrent.symm.trans hstyle)
      rw [herased, ← heq]
      rfl
    · exact fun hnone => nomatch hcurrent.symm.trans hnone
    · rw [herased]
      exact h.width
    · rw [herased]
      exact h.height
    · rw [herased]
      change (if r' = (t.feed f.output).row ∧ (t.feed f.output).col ≤ c then _ else _) = _
      rw [hat.row, hatcol]
      exact if_congr (by rw [and_iff_right hrest]) rfl rfl
  · rw [if_neg hrest]
    refine ⟨h, fun c r' => ?_⟩
    rw [if_neg fun hcell => hrest hcell.1]

/-- What was written of a row up to a column paints a cell: it was changed, or is blank as all cells
are behind a changed one that ends a run. -/
def Painted (r : Renderer) (row col c : ℕ) : Prop :=
  c < col ∧ r.Changed c row ∨
    ∃ last, last < col ∧ last < c ∧ r.Changed last row ∧ ¬ r.Changed (last + 1) row ∧
      r.restOfRowIsDefault r.back (last + 1) row = true

theorem painted_succ {c : ℕ} (hsame : ¬ r.Changed col row) : r.Painted row (col + 1) c ↔
    r.Painted row col c := by
  unfold Painted
  constructor
  · rintro (⟨hlt, hchanged⟩ | ⟨last, hlast, hbefore, hchanged, hend⟩)
    · have hne : c ≠ col := fun h => hsame (h ▸ hchanged)
      exact .inl ⟨by omega, hchanged⟩
    · have hne : last ≠ col := fun h => hsame (h ▸ hchanged)
      exact .inr ⟨last, by omega, hbefore, hchanged, hend⟩
  · rintro (⟨hlt, hchanged⟩ | ⟨last, hlast, hrest⟩)
    · exact .inl ⟨by omega, hchanged⟩
    · exact .inr ⟨last, by omega, hrest⟩

theorem painted_run {stop c : ℕ} (hlt : col < stop) (hchanged : ∀ c, col ≤ c → c < stop → r.Changed c row)
    (hend : stop < r.width.toNat → ¬ r.Changed stop row) :
    r.Painted row stop c ↔ r.Painted row col c ∨ (col ≤ c ∧ c < stop) ∨
      (r.restOfRowIsDefault r.back stop row = true ∧ stop ≤ c) := by
  constructor
  · rintro (⟨hc, hcell⟩ | ⟨last, hlast, hbefore, hcell, hsame, hrest⟩)
    · rcases Nat.lt_or_ge c col with hbefore | hin
      · exact .inl (.inl ⟨hbefore, hcell⟩)
      · exact .inr (.inl ⟨hin, hc⟩)
    · rcases Nat.lt_or_ge last col with hearlier | hin
      · exact .inl (.inr ⟨last, hearlier, hbefore, hcell, hsame, hrest⟩)
      · -- the run goes on up to its end
        have hstop : last + 1 = stop := by
          by_contra hne
          exact hsame (hchanged (last + 1) (by omega) (by omega))
        exact .inr (.inr ⟨hstop ▸ hrest, by omega⟩)
  · rintro ((⟨hc, hcell⟩ | ⟨last, hlast, hrest⟩) | ⟨hc, hin⟩ | ⟨hrest, hc⟩)
    · exact .inl ⟨by omega, hcell⟩
    · exact .inr ⟨last, by omega, hrest⟩
    · exact .inl ⟨hin, hchanged c hc hin⟩
    · have hlast : stop - 1 + 1 = stop := by omega
      refine .inr ⟨stop - 1, by omega, by omega, hchanged _ (by omega) (by omega), ?_⟩
      rw [hlast]
      exact ⟨hend (restOfRowIsDefault_iff.mp hrest).1, hrest⟩

/-- **The runs of a row.** The row is painted where it is so up to a column, and is otherwise as it
was. -/
theorem Follows.flushRow (hprint : ∀ c r', Terminal.isControl (r.back.get c r').ch = false)
    (hrow : row < r.height.toNat) (base : ℕ → Terminal.Glyph) (hcol : col ≤ r.width.toNat)
    (h : r.Follows t f)
    (hpainted : ∀ c < r.width.toNat,
      (r.Painted row col c → (t.feed f.output).screen c row = (r.back.get c row).glyph) ∧
      (¬ r.Painted row col c → (t.feed f.output).screen c row = base c)) :
    r.Follows t (r.flushRow row col f) ∧
      (∀ c r', r' ≠ row → (t.feed (r.flushRow row col f).output).screen c r' =
        (t.feed f.output).screen c r') ∧
      ∀ c < r.width.toNat,
        (r.Painted row r.width.toNat c →
          (t.feed (r.flushRow row col f).output).screen c row = (r.back.get c row).glyph) ∧
        (¬ r.Painted row r.width.toNat c →
          (t.feed (r.flushRow row col f).output).screen c row = base c) := by
  induction col, f using flushRow.induct r row with
  | case1 col f hlt hsame ih =>
    rw [Renderer.flushRow, dif_pos hlt, if_pos hsame]
    refine ih (by omega) h fun c hc => ?_
    rw [painted_succ (not_not.mpr hsame)]
    exact hpainted c hc
  | case2 col f hlt hchanged run ih =>
    obtain ⟨hmoved, hat, hscreen⟩ := h.moveTo col hrow
    obtain ⟨hbound, hcells, hend⟩ :=
      flushRun_cells row col (f.write (Tui.moveTo (col + 1) (row + 1))) hcol
    have hgrow : col < run.2 := r.lt_flushRun row _ hlt
    obtain ⟨hran, hat', hsome, hscreen'⟩ := hmoved.flushRun hprint col hat
    obtain ⟨hcleared, hscreen''⟩ := hran.clearRest hat' (hsome (.inr hgrow))
    have hrun : ∀ c, r.Painted row run.2 c ↔ r.Painted row col c ∨ (col ≤ c ∧ c < run.2) ∨
        (r.restOfRowIsDefault r.back run.2 row = true ∧ run.2 ≤ c) := fun c => by
      refine painted_run hgrow (fun c hle hin => ?_) fun hin => (hend hin).1
      rcases hcells c hle hin with rfl | hcell
      · exact hchanged
      · exact hcell
    have hcell : ∀ c r', (t.feed (r.clearRest row run.2 run.1).output).screen c r' =
        if r.restOfRowIsDefault r.back run.2 row = true ∧ r' = row ∧ run.2 ≤ c then Cell.default.glyph
        else if r' = row ∧ col ≤ c ∧ c < run.2 then (r.back.get c row).glyph
        else (t.feed f.output).screen c r' := fun c r' => by
      rw [hscreen'', hscreen', hscreen]
    rw [Renderer.flushRow, dif_pos hlt, if_neg hchanged]
    obtain ⟨hfollows, hother, hfinal⟩ := ih hbound hcleared fun c hc => by
      rw [hcell, hrun]
      by_cases hrest : r.restOfRowIsDefault r.back run.2 row = true ∧ run.2 ≤ c
      · have hblank : r.back.get c row = .default := (restOfRowIsDefault_iff.mp hrest.1).2 c hrest.2 hc
        rw [if_pos ⟨hrest.1, rfl, hrest.2⟩, hblank]
        exact ⟨fun _ => rfl, fun hnot => absurd (.inr (.inr hrest)) hnot⟩
      · rw [if_neg fun hcell => hrest ⟨hcell.1, hcell.2.2⟩]
        by_cases hin : col ≤ c ∧ c < run.2
        · rw [if_pos ⟨rfl, hin⟩]
          exact ⟨fun _ => rfl, fun hnot => absurd (.inr (.inl hin)) hnot⟩
        · rw [if_neg fun hcell => hin hcell.2, or_iff_left (not_or.mpr ⟨hin, hrest⟩)]
          exact hpainted c hc
    refine ⟨hfollows, fun c r' hr' => ?_, hfinal⟩
    rw [hother c r' hr', hcell, if_neg (by tauto), if_neg (by tauto)]
  | case3 col f hge =>
    have heq : col = r.width.toNat := by omega
    subst heq
    rw [Renderer.flushRow, dif_neg hge]
    exact ⟨h, fun _ _ _ => rfl, hpainted⟩

/-! ## The whole flush -/

/-- A flush writes the cell, or erases it. -/
def Repainted (r : Renderer) (col row : ℕ) : Prop := r.Painted row r.width.toNat col

theorem Follows.flushRows (hprint : ∀ c r', Terminal.isControl (r.back.get c r').ch = false)
    (h : r.Follows t f) :
    r.Follows t (r.flushRows f) ∧ ∀ c r', c < r.width.toNat → r' < r.height.toNat →
      (r.Repainted c r' → (t.feed (r.flushRows f).output).screen c r' = (r.back.get c r').glyph) ∧
      (¬ r.Repainted c r' → (t.feed (r.flushRows f).output).screen c r' =
        (t.feed f.output).screen c r') := by
  have hrows : ∀ n ≤ r.height.toNat,
      r.Follows t ((List.range n).foldl (fun f row => r.flushRow row 0 f) f) ∧
      ∀ c r', c < r.width.toNat → r' < r.height.toNat →
        (r' < n ∧ r.Repainted c r' →
          (t.feed ((List.range n).foldl (fun f row => r.flushRow row 0 f) f).output).screen c r' =
            (r.back.get c r').glyph) ∧
        (¬ (r' < n ∧ r.Repainted c r') →
          (t.feed ((List.range n).foldl (fun f row => r.flushRow row 0 f) f).output).screen c r' =
            (t.feed f.output).screen c r') := by
    intro n hn
    induction n with
    | zero => exact ⟨h, fun c r' _ _ => ⟨fun hlt => absurd hlt.1 (Nat.not_lt_zero _), fun _ => rfl⟩⟩
    | succ n ih =>
      obtain ⟨hbefore, hcells⟩ := ih (by omega)
      rw [List.range_succ, List.foldl_append, List.foldl_cons, List.foldl_nil]
      set before := (List.range n).foldl (fun f row => r.flushRow row 0 f) f
      have hnone : ∀ c, ¬ r.Painted n 0 c := by
        rintro c (⟨hlt, -⟩ | ⟨last, hlt, -⟩)
        · exact absurd hlt (Nat.not_lt_zero _)
        · exact absurd hlt (Nat.not_lt_zero _)
      obtain ⟨hfollows, hother, hrow⟩ := hbefore.flushRow hprint (by omega)
        (fun c => (t.feed before.output).screen c n) (Nat.zero_le _) fun c _ =>
          ⟨fun hpainted => absurd hpainted (hnone c), fun _ => rfl⟩
      refine ⟨hfollows, fun c r' hc hr' => ?_⟩
      obtain ⟨hpainted, hkept⟩ := hcells c r' hc hr'
      rcases Nat.lt_trichotomy r' n with hlt | rfl | hgt
      · have hiff : r' < n + 1 ∧ r.Repainted c r' ↔ r' < n ∧ r.Repainted c r' := by
          rw [and_iff_right (by omega), and_iff_right hlt]
        rw [hother c r' hlt.ne, hiff]
        exact ⟨hpainted, hkept⟩
      · have hlast := hkept fun hcell => absurd hcell.1 (lt_irrefl _)
        rw [and_iff_right (Nat.lt_succ_self _), ← hlast]
        exact hrow c hc
      · rw [hother c r' hgt.ne']
        exact ⟨fun hcell => absurd hcell.1 (by omega),
          fun _ => hkept fun hcell => absurd hcell.1 (by omega)⟩
  obtain ⟨hfollows, hcells⟩ := hrows r.height.toNat le_rfl
  refine ⟨hfollows, fun c r' hc hr' => ?_⟩
  obtain ⟨hpainted, hkept⟩ := hcells c r' hc hr'
  rw [and_iff_right hr'] at hpainted hkept
  exact ⟨hpainted, hkept⟩

theorem feed_hideCursor (hstate : t.state = .ground) :
    t.feed hideCursor = { t with cursorShown := false } := by
  have htext : hideCursor = Terminal.csiText true [25] 'l' := rfl
  rw [htext, Terminal.feed_csiText hstate true (by simp) (by decide)]
  rfl

theorem feed_showCursor (hstate : t.state = .ground) :
    t.feed showCursor = { t with cursorShown := true } := by
  have htext : showCursor = Terminal.csiText true [25] 'h' := rfl
  rw [htext, Terminal.feed_csiText hstate true (by simp) (by decide)]
  rfl

theorem follows_start (hstate : t.state = .ground) (hwidth : t.width = r.width.toNat)
    (hheight : t.height = r.height.toNat) (hidden : Bool) :
    r.Follows t ⟨if hidden then hideCursor else [], none⟩ ∧
      (t.feed (if hidden then hideCursor else [])).screen = t.screen := by
  cases hidden with
  | false => exact ⟨⟨hstate, fun _ h => (nomatch h), fun _ => rfl, hwidth, hheight⟩, rfl⟩
  | true =>
    have hhidden : t.feed (if true then hideCursor else []) = { t with cursorShown := false } :=
      feed_hideCursor hstate
    refine ⟨⟨?_, fun _ h => (nomatch h), fun _ => ?_, ?_, ?_⟩, ?_⟩ <;> rw [hhidden]
    exacts [hstate, hwidth, hheight]

/-- **What a flush does to a terminal** of the renderer's size: it paints the cells that differ, and
some that are blank, and leaves the others alone. -/
theorem screen_flush (hprint : ∀ c r', Terminal.isControl (r.back.get c r').ch = false)
    (hstate : t.state = .ground)
    (hwidth : t.width = r.width.toNat) (hheight : t.height = r.height.toNat) :
    (t.feed r.flush.1).state = .ground ∧ (t.feed r.flush.1).width = t.width ∧
      (t.feed r.flush.1).height = t.height ∧
        ((t.feed r.flush.1).pen = {} ∨ (t.feed r.flush.1).pen = t.pen) ∧
      ∀ c r', c < r.width.toNat → r' < r.height.toNat →
        (r.Repainted c r' → (t.feed r.flush.1).screen c r' = (r.back.get c r').glyph) ∧
        (¬ r.Repainted c r' → (t.feed r.flush.1).screen c r' = t.screen c r') := by
  unfold flush
  by_cases hempty : r.width = 0 ∨ r.height = 0
  · rw [if_pos hempty]
    refine ⟨hstate, rfl, rfl, .inr rfl, fun c r' hc hr' => ?_⟩
    rcases hempty with hzero | hzero
    · rw [hzero] at hc
      exact absurd hc (Nat.not_lt_zero _)
    · rw [hzero] at hr'
      exact absurd hr' (Nat.not_lt_zero _)
  rw [if_neg hempty]
  obtain ⟨hstart, hscreen⟩ := follows_start hstate hwidth hheight r.cursorPos.isSome
  obtain ⟨hrows, hcells⟩ := hstart.flushRows hprint
  rw [hscreen] at hcells
  set rows := r.flushRows ⟨if r.cursorPos.isSome then hideCursor else [], none⟩
  -- at the end no style is set
  obtain ⟨reset, hreset, hpen, hsame⟩ : ∃ reset : Frame,
      (if rows.currentStyle.isSome ∧ rows.currentStyle ≠ some .new then rows.write Style.writeReset
        else rows) = reset ∧ ((t.feed reset.output).pen = {} ∨ (t.feed reset.output).pen = t.pen) ∧
      t.feed reset.output = { t.feed rows.output with pen := (t.feed reset.output).pen } := by
    refine ⟨_, rfl, ?_⟩
    split_ifs with hstyle
    · have hwritten : t.feed (rows.write Style.writeReset).output = { t.feed rows.output with pen := {} } :=
        (Terminal.feed_append _ _).trans (feed_writeReset hrows.ground)
      rw [hwritten]
      exact ⟨.inl rfl, rfl⟩
    · refine ⟨?_, rfl⟩
      cases hcurrent : rows.currentStyle with
      | none => exact .inr (hrows.unset hcurrent)
      | some style =>
        rw [hcurrent] at hstyle
        have hnew : style = .new := by simpa using hstyle
        exact .inl ((hrows.pen style hcurrent).trans (by rw [hnew]; rfl))
  -- moving the cursor and showing it changes nothing else
  obtain ⟨placed, hplaced, hstate', hpen', hwidth', hheight', hscreen'⟩ : ∃ placed : Frame,
      (match r.cursorPos with
        | some (col, row) => (reset.write (Tui.moveTo (col + 1).toNat (row + 1).toNat)).write showCursor
        | none => reset) = placed ∧
      (t.feed placed.output).state = (t.feed rows.output).state ∧
      (t.feed placed.output).pen = (t.feed reset.output).pen ∧
      (t.feed placed.output).width = (t.feed rows.output).width ∧
      (t.feed placed.output).height = (t.feed rows.output).height ∧
      (t.feed placed.output).screen = (t.feed rows.output).screen := by
    refine ⟨_, rfl, ?_⟩
    cases r.cursorPos with
    | none =>
      dsimp only
      refine ⟨?_, rfl, ?_, ?_, ?_⟩ <;> rw [hsame]
    | some pos =>
      have hground : (t.feed reset.output).state = .ground := by
        rw [hsame]
        exact hrows.ground
      have hmoved := feed_moveTo hground (pos.1 + 1).toNat (pos.2 + 1).toNat
      have hshown : t.feed ((reset.write (Tui.moveTo (pos.1 + 1).toNat (pos.2 + 1).toNat)).write
          showCursor).output =
          { (t.feed reset.output).moveTo (pos.2 + 1).toNat (pos.1 + 1).toNat with
            cursorShown := true } := by
        unfold Frame.write
        dsimp only
        rw [Terminal.feed_append, Terminal.feed_append, hmoved]
        exact feed_showCursor hground
      dsimp only
      rw [hshown]
      refine ⟨?_, rfl, ?_, ?_, ?_⟩ <;> rw [hsame] <;> rfl
  dsimp only
  rw [hreset, hplaced]
  refine ⟨hstate'.trans hrows.ground, ?_, ?_, ?_, ?_⟩
  · rw [hwidth', hrows.width, hwidth]
  · rw [hheight', hrows.height, hheight]
  · rw [hpen']
    exact hpen
  · rw [hscreen']
    exact hcells

end Renderer

end Pirc.Tui
