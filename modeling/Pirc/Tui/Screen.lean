import Pirc.Lib.Run
import Pirc.Tui.Renderer

/-!
# Terminal interface: what the screen shows

The renderer with a terminal that reads what it writes. It is drawn into the back buffer, the
buffers are resized after the terminal was, and now and then they are flushed. That only the cells
that differ are written is right as long as the front buffer is what the terminal shows.
-/

namespace Pirc.Tui

open Protocol (Str)

/-- The screen shows the buffer. -/
def Shows (t : Terminal) (b : Buffer) : Prop :=
  ∀ c r, c < b.width → r < b.height → t.screen c r = (b.get c r).glyph

/-! ## Taking the back buffer over -/

namespace Renderer

variable {r : Renderer}

/-- Both buffers have the size of the renderer. -/
structure Sized (r : Renderer) : Prop where
  front : r.front.width = r.width.toNat ∧ r.front.height = r.height.toNat
  back : r.back.width = r.width.toNat ∧ r.back.height = r.height.toNat

theorem Sized.flush (h : r.Sized) :
    r.flush.2.Sized ∧ r.flush.2.width = r.width ∧ r.flush.2.height = r.height ∧
      (∀ c r', r.flush.2.back.get c r' = r.back.get c r') ∧
      ∀ c r', c < r.width.toNat → r' < r.height.toNat → r.flush.2.front.get c r' = r.back.get c r' := by
  unfold Renderer.flush
  by_cases hempty : r.width = 0 ∨ r.height = 0
  · rw [if_pos hempty]
    refine ⟨h, rfl, rfl, fun _ _ => rfl, fun c r' hc hr' => ?_⟩
    rcases hempty with hzero | hzero
    · rw [hzero] at hc
      exact absurd hc (Nat.not_lt_zero _)
    · rw [hzero] at hr'
      exact absurd hr' (Nat.not_lt_zero _)
  · rw [if_neg hempty]
    let cells := (List.range r.height.toNat).flatMap fun row => (List.range r.width.toNat).map
      fun col => (col, row)
    obtain ⟨hwidth, hheight, hget⟩ := Buffer.foldl_set cells r.back.get r.front
    refine ⟨⟨⟨hwidth.trans h.front.1, hheight.trans h.front.2⟩, h.back⟩, rfl, rfl, fun _ _ => rfl,
      fun c r' hc hr' => ?_⟩
    have hmem : (c, r') ∈ cells := by
      simp only [cells, List.mem_flatMap, List.mem_map, List.mem_range]
      exact ⟨r', hr', c, hc, rfl⟩
    refine (hget c r').trans (if_pos ⟨hmem, ?_, ?_⟩)
    · rw [h.front.1]
      exact hc
    · rw [h.front.2]
      exact hr'

end Renderer

/-! ## The renderer and the terminal -/

/-- The renderer and the terminal. -/
structure Session where
  renderer : Renderer
  terminal : Terminal

/-- Drawing into the back buffer, and what is done with the renderer. A terminal that gets another
size shows something, and has its cursor somewhere. -/
inductive RendererCall
  | set (col row : ℕ) (ch : Char) (style : Style)
  | writeStr (col row : ℕ) (text : Str) (style : Style)
  | writeStyledSpans (col row : ℕ) (spans : List StyledSpan)
  | clearRegion (col row width height : ℕ) (style : Style)
  | setCursor (col row : UInt16)
  | resize (newWidth newHeight : UInt16) (left : Terminal)
  | flush

def RendererCall.Prints : RendererCall → Prop
  | set _ _ ch _ => Terminal.isControl ch = false
  | writeStr _ _ text _ => ∀ ch ∈ text, Terminal.isControl ch = false
  | writeStyledSpans _ _ spans => ∀ span ∈ spans, ∀ ch ∈ span.text, Terminal.isControl ch = false
  | clearRegion .. | setCursor .. | resize .. | flush => True

namespace Session

variable (s : Session)

def draw (b : Buffer) : RendererCall → Buffer
  | .set col row ch style => b.set col row ch style
  | .writeStr col row text style => b.writeStr col row text style
  | .writeStyledSpans col row spans => b.writeStyledSpans col row spans
  | .clearRegion col row width height style => b.clearRegion col row width height style
  | .setCursor .. | .resize .. | .flush => b

/-- A call, and what the terminal makes of its output. -/
def step : RendererCall → Session
  | .setCursor col row => { s with renderer := s.renderer.setCursor col row }
  | .resize newWidth newHeight left =>
    let terminal := { s.terminal with
      width := newWidth.toNat
      height := newHeight.toNat
      screen := left.screen
      col := left.col
      row := left.row
      wrapPending := left.wrapPending }
    let (written, renderer) := s.renderer.resize newWidth newHeight
    ⟨renderer, terminal.read (utf8 written)⟩
  | .flush =>
    let (written, renderer) := s.renderer.flush
    ⟨renderer, s.terminal.read (utf8 written)⟩
  | call => { s with renderer := { s.renderer with back := draw s.renderer.back call } }

/-- **The renderer and the terminal as a system.** -/
def system : System Session RendererCall where
  enabled _ call := call.Prints
  step := step

def start (width height : UInt16) : Session := ⟨.new width height, .cleared width.toNat height.toNat⟩

/-- **The invariant**: the terminal has the renderer's size, is between sequences, and shows the
front buffer. -/
structure Valid (s : Session) : Prop where
  sized : s.renderer.Sized
  width : s.terminal.width = s.renderer.width.toNat
  height : s.terminal.height = s.renderer.height.toNat
  ground : s.terminal.state = .ground
  pen : s.terminal.pen = {}
  front : Shows s.terminal s.renderer.front
  prints : ∀ c r, Terminal.isControl (s.renderer.back.get c r).ch = false

theorem valid_start (width height : UInt16) : (start width height).Valid where
  sized := ⟨⟨rfl, rfl⟩, ⟨rfl, rfl⟩⟩
  width := rfl
  height := rfl
  ground := rfl
  pen := rfl
  front c r _ _ := by
    change Terminal.Pen.blank {} = ((Buffer.new width height).get c r).glyph
    rw [Buffer.get_new]
    rfl
  prints c r := by
    change Terminal.isControl ((Buffer.new width height).get c r).ch = false
    rw [Buffer.get_new]
    rfl

/-! ## Calls -/

theorem prints_setRun {b : Buffer} (hb : ∀ c r, Terminal.isControl (b.get c r).ch = false)
    {chars : List (Char × Style)} (hchars : ∀ ch ∈ chars, Terminal.isControl ch.1 = false)
    (row col c r : ℕ) :
    Terminal.isControl ((b.setRun row b.width col chars).get c r).ch = false := by
  rw [Buffer.get_setRun row b.width_lt.le]
  split_ifs with hcell
  · exact hchars _ (List.get_mem _ _)
  · exact hb c r

/-- **Drawing** keeps the size of the buffer, and characters that are printed. -/
theorem draw_valid {b : Buffer} (hb : ∀ c r, Terminal.isControl (b.get c r).ch = false)
    {call : RendererCall} (hcall : call.Prints) :
    (draw b call).width = b.width ∧ (draw b call).height = b.height ∧
      ∀ c r, Terminal.isControl ((draw b call).get c r).ch = false := by
  cases call with
  | set col row ch style =>
    refine ⟨Buffer.width_set, Buffer.height_set, fun c r => ?_⟩
    rw [draw, Buffer.get_set]
    split_ifs
    · exact hcall
    · exact hb c r
  | writeStr col row text style =>
    rw [draw, Buffer.writeStr]
    split_ifs
    · exact ⟨rfl, rfl, hb⟩
    · obtain ⟨hwidth, hheight⟩ := Buffer.setRun_size row b.width (text.map (·, style)) col b
      refine ⟨hwidth, hheight, prints_setRun hb (fun ch hch => ?_) row col⟩
      obtain ⟨c, hc, rfl⟩ := List.mem_map.mp hch
      exact hcall c hc
  | writeStyledSpans col row spans =>
    rw [draw, Buffer.writeStyledSpans]
    split_ifs
    · exact ⟨rfl, rfl, hb⟩
    · obtain ⟨hwidth, hheight⟩ := Buffer.setRun_size row b.width (spans.flatMap StyledSpan.chars) col b
      refine ⟨hwidth, hheight, prints_setRun hb (fun ch hch => ?_) row col⟩
      obtain ⟨span, hspan, hch⟩ := List.mem_flatMap.mp hch
      obtain ⟨c, hc, rfl⟩ := List.mem_map.mp hch
      exact hcall span hspan c hc
  | clearRegion col row width height style =>
    obtain ⟨hwidth, hheight⟩ := Buffer.clearRegion_size b col row width height style
    refine ⟨hwidth, hheight, fun c r => ?_⟩
    rw [draw, Buffer.get_clearRegion]
    split_ifs
    · rfl
    · exact hb c r
  | setCursor _ _ => exact ⟨rfl, rfl, hb⟩
  | resize _ _ _ => exact ⟨rfl, rfl, hb⟩
  | flush => exact ⟨rfl, rfl, hb⟩

variable {s}

/-- **A flush**: the front buffer, which is the back buffer then, is shown. -/
theorem Valid.flush (h : s.Valid) : (s.step .flush).Valid := by
  obtain ⟨hsized, hrwidth, hrheight, hback, hfront⟩ := h.sized.flush
  obtain ⟨hstate, hwidth, hheight, hpen, hcells⟩ := Renderer.screen_flush h.prints h.ground h.width h.height
  have hread : (s.step .flush).terminal = s.terminal.feed s.renderer.flush.1 := Terminal.read_utf8 _
  refine ⟨hsized, ?_, ?_, ?_, ?_, fun c r hc hr => ?_, fun c r => ?_⟩
  · rw [hread, hwidth, h.width]
    exact congrArg UInt16.toNat hrwidth.symm
  · rw [hread, hheight, h.height]
    exact congrArg UInt16.toNat hrheight.symm
  · rw [hread, hstate]
  · rw [hread]
    rcases hpen with hpen | hpen
    · exact hpen
    · exact hpen.trans h.pen
  · have hc' : c < s.renderer.width.toNat := by
      rw [← hrwidth]
      exact lt_of_lt_of_eq hc hsized.front.1
    have hr' : r < s.renderer.height.toNat := by
      rw [← hrheight]
      exact lt_of_lt_of_eq hr hsized.front.2
    obtain ⟨hpainted, hkept⟩ := hcells c r hc' hr'
    have hshown : (s.step .flush).renderer.front.get c r = s.renderer.back.get c r := hfront c r hc' hr'
    rw [hread, hshown]
    by_cases hrepainted : s.renderer.Repainted c r
    · exact hpainted hrepainted
    · -- the cell was displayed before
      have hsame : s.renderer.back.get c r = s.renderer.front.get c r := by
        by_contra hchanged
        exact hrepainted (.inl ⟨hc', hchanged⟩)
      rw [hkept hrepainted, hsame]
      exact h.front c r (h.sized.front.1 ▸ hc') (h.sized.front.2 ▸ hr')
  · have hsame : (s.step .flush).renderer.back.get c r = s.renderer.back.get c r := hback c r
    rw [hsame]
    exact h.prints c r

/-- **A resize** clears the terminal, whatever it showed. -/
theorem Valid.resize (h : s.Valid) (newWidth newHeight : UInt16) (left : Terminal) :
    (s.step (.resize newWidth newHeight left)).Valid := by
  let resized : Terminal := { s.terminal with
    width := newWidth.toNat
    height := newHeight.toNat
    screen := left.screen
    col := left.col
    row := left.row
    wrapPending := left.wrapPending }
  have hcleared : resized.feed clearScreen = resized.eraseScreen := by
    have htext : clearScreen = Terminal.csiText false [2] 'J' := rfl
    rw [htext, Terminal.feed_csiText (t := resized) h.ground false (by simp) (by decide)]
    rfl
  have hread : (s.step (.resize newWidth newHeight left)).terminal = resized.eraseScreen.moveTo 1 1 := by
    refine (Terminal.read_utf8 _).trans ?_
    change resized.feed (clearScreen ++ moveTo 1 1) = _
    rw [Terminal.feed_append, hcleared]
    exact feed_moveTo (t := resized.eraseScreen) h.ground 1 1
  refine ⟨⟨⟨rfl, rfl⟩, ⟨rfl, rfl⟩⟩, ?_, ?_, ?_, ?_, fun c r _ _ => ?_, fun c r => ?_⟩
  · rw [hread]
    rfl
  · rw [hread]
    rfl
  · rw [hread]
    exact h.ground
  · rw [hread]
    exact h.pen
  · have hblank : (s.step (.resize newWidth newHeight left)).renderer.front.get c r = .default :=
      Buffer.get_new newWidth newHeight c r
    rw [hread, hblank]
    change s.terminal.pen.blank = _
    rw [h.pen]
    rfl
  · have hblank : (s.step (.resize newWidth newHeight left)).renderer.back.get c r = .default :=
      Buffer.get_new newWidth newHeight c r
    rw [hblank]
    rfl

theorem Valid.draw (h : s.Valid) {call : RendererCall} (hcall : call.Prints) :
    Valid { s with renderer := { s.renderer with back := Session.draw s.renderer.back call } } := by
  obtain ⟨hwidth, hheight, hprints⟩ := draw_valid h.prints hcall
  exact ⟨⟨h.sized.front, hwidth.trans h.sized.back.1, hheight.trans h.sized.back.2⟩, h.width,
    h.height, h.ground, h.pen, h.front, hprints⟩

theorem Valid.step (h : s.Valid) {call : RendererCall} (hcall : call.Prints) : (s.step call).Valid := by
  cases call with
  | set col row ch style => exact h.draw hcall
  | writeStr col row text style => exact h.draw hcall
  | writeStyledSpans col row spans => exact h.draw hcall
  | clearRegion col row width height style => exact h.draw hcall
  | setCursor col row =>
    exact ⟨⟨h.sized.front, h.sized.back⟩, h.width, h.height, h.ground, h.pen, h.front, h.prints⟩
  | resize newWidth newHeight left => exact h.resize newWidth newHeight left
  | flush => exact h.flush

/-- **After every flush the back buffer is shown**, in every run of calls that draw characters that
are printed. -/
theorem flush_shows {width height : UInt16} (h : system.Steps System.Free (start width height) s) :
    Shows (s.step .flush).terminal (s.step .flush).renderer.back := by
  have hvalid : s.Valid := h.invariant (fun s call hcall _ hs => hs.step hcall) (valid_start width height)
  have hflushed := hvalid.flush
  obtain ⟨-, hrwidth, hrheight, hback, hfront⟩ := hvalid.sized.flush
  intro c r hc hr
  have hc' := lt_of_lt_of_eq hc hflushed.sized.back.1
  have hr' := lt_of_lt_of_eq hr hflushed.sized.back.2
  have hsame : (s.step .flush).renderer.back.get c r = (s.step .flush).renderer.front.get c r := by
    refine (hback c r).trans (hfront c r ?_ ?_).symm
    · rw [← hrwidth]
      exact hc'
    · rw [← hrheight]
      exact hr'
  rw [hsame]
  exact hflushed.front c r (hflushed.sized.front.1 ▸ hc') (hflushed.sized.front.2 ▸ hr')

def letterCalls : List RendererCall :=
  [.set 0 0 'a' { Style.new with bold := true }, .flush, .set 0 0 ' ' .new]

/-- After the first flush a bold letter is on the screen; the second one paints a blank over it. -/
theorem letter_shown :
    (system.exec (start 2 1) (letterCalls.take 2)).terminal.screen 0 0 = ⟨'a', { bold := true }⟩ ∧
      Shows ((system.exec (start 2 1) letterCalls).step .flush).terminal
        ((system.exec (start 2 1) letterCalls).step .flush).renderer.back := by
  have hlegal : system.Legal System.Free (start 2 1) letterCalls :=
    ⟨rfl, trivial, trivial, trivial, rfl, trivial, trivial⟩
  exact ⟨by decide +kernel, flush_shows hlegal.steps⟩

end Session

/-! ## Painting everything again -/

namespace Renderer

variable {r : Renderer} {t : Terminal}

/-- The cell is blank, and either one right of it is not, or none of its row is otherwise. -/
def LeftAlone (r : Renderer) (col row : ℕ) : Prop :=
  r.back.get col row = .default ∧
    ((∃ c, col < c ∧ c < r.width.toNat ∧ r.back.get c row ≠ .default) ∨
      ∀ c < r.width.toNat, r.back.get c row = .default)

theorem repainted_forceRedraw_iff {col row : ℕ} (hcol : col < r.width.toNat) :
    r.forceRedraw.Repainted col row ↔ ¬ r.LeftAlone col row := by
  have hchanged (c : ℕ) : r.forceRedraw.Changed c row ↔ r.back.get c row ≠ .default := by
    change r.back.get c row ≠ (Buffer.new r.width r.height).get c row ↔ _
    rw [Buffer.get_new]
  have hrest (c : ℕ) : r.forceRedraw.restOfRowIsDefault r.forceRedraw.back c row = true ↔
      c < r.width.toNat ∧ ∀ c', c ≤ c' → c' < r.width.toNat → r.back.get c' row = .default :=
    restOfRowIsDefault_iff
  have hpainted : r.forceRedraw.Repainted col row ↔ r.back.get col row ≠ .default ∨
      ∃ last, last < col ∧ r.back.get last row ≠ .default ∧
        ∀ c, last < c → c < r.width.toNat → r.back.get c row = .default := by
    unfold Repainted Painted
    constructor
    · rintro (⟨-, hcell⟩ | ⟨last, -, hlast, hcell, -, hblank⟩)
      · exact .inl ((hchanged col).mp hcell)
      · exact .inr ⟨last, hlast, (hchanged last).mp hcell, ((hrest (last + 1)).mp hblank).2⟩
    · rintro (hcell | ⟨last, hlast, hcell, hblank⟩)
      · exact .inl ⟨hcol, (hchanged col).mpr hcell⟩
      · have hnext : last + 1 < r.width.toNat := by omega
        refine .inr ⟨last, hlast.trans hcol, hlast, (hchanged last).mpr hcell, fun h => ?_,
          (hrest (last + 1)).mpr ⟨hnext, hblank⟩⟩
        exact (hchanged (last + 1)).mp h (hblank (last + 1) (Nat.lt_succ_self last) hnext)
  rw [hpainted]
  constructor
  · rintro (hcell | ⟨last, hlast, hcell, hblank⟩) ⟨halone, hright | hall⟩
    · exact hcell halone
    · exact hcell halone
    · obtain ⟨c, hc, hlt, hne⟩ := hright
      exact hne (hblank c (by omega) hlt)
    · exact hcell (hall last (by omega))
  · intro hnot
    by_cases halone : r.back.get col row = .default
    · have hright : ∀ c, col < c → c < r.width.toNat → r.back.get c row = .default := by
        intro c hc hlt
        by_contra hne
        exact hnot ⟨halone, .inl ⟨c, hc, hlt, hne⟩⟩
      obtain ⟨c, hc, hne⟩ : ∃ c < r.width.toNat, r.back.get c row ≠ .default := by
        by_contra hall
        exact hnot ⟨halone, .inr fun c hc => not_not.mp fun hne => hall ⟨c, hc, hne⟩⟩
      have hleft : c ≤ col := not_lt.mp fun hgt => hne (hright c hgt hc)
      -- the last cell of the row that is not blank
      let last := Nat.findGreatest (fun c => r.back.get c row ≠ .default) col
      have hlast : r.back.get last row ≠ .default :=
        Nat.findGreatest_spec (P := fun c => r.back.get c row ≠ .default) hleft hne
      have hle : last ≤ col := Nat.findGreatest_le col
      refine .inr ⟨last, lt_of_le_of_ne hle fun heq => hlast (heq ▸ halone), hlast, fun c' hc' hlt => ?_⟩
      rcases Nat.lt_or_ge col c' with hbeyond | hwithin
      · exact hright c' hbeyond hlt
      · exact not_not.mp (Nat.findGreatest_is_greatest hc' hwithin)
    · exact .inl halone

/-- **When everything is painted again**: exactly if the terminal shows a blank wherever nothing is
painted. -/
theorem forceRedraw_shows_iff (hsize : r.back.width = r.width.toNat ∧ r.back.height = r.height.toNat)
    (hprint : ∀ c row, Terminal.isControl (r.back.get c row).ch = false) (hstate : t.state = .ground)
    (hwidth : t.width = r.width.toNat) (hheight : t.height = r.height.toNat) :
    Shows (t.read (utf8 r.forceRedraw.flush.1)) r.back ↔
      ∀ col row, col < r.width.toNat → row < r.height.toNat → r.LeftAlone col row →
        t.screen col row = Cell.default.glyph := by
  obtain ⟨-, -, -, -, hcells⟩ := screen_flush (r := r.forceRedraw) hprint hstate hwidth hheight
  rw [Terminal.read_utf8]
  unfold Shows
  rw [hsize.1, hsize.2]
  refine forall₄_congr fun col row hcol hrow => ?_
  obtain ⟨hpainted, hkept⟩ := hcells col row hcol hrow
  by_cases halone : r.LeftAlone col row
  · rw [hkept fun h => (repainted_forceRedraw_iff hcol).mp h halone, halone.1]
    exact ⟨fun h _ => h, fun h => h halone⟩
  · have hshown := hpainted ((repainted_forceRedraw_iff hcol).mpr halone)
    exact ⟨fun _ h => absurd h halone, fun _ => hshown⟩

def letterOnScreen : Terminal := { Terminal.cleared 1 1 with screen := fun _ _ => ⟨'x', {}⟩ }

/-- Another letter is drawn over it. -/
theorem letter_repainted :
    Shows (letterOnScreen.read
      (utf8 ({ Renderer.new 1 1 with back := (Buffer.new 1 1).set 0 0 'a' .new } :
        Renderer).forceRedraw.flush.1))
      ((Buffer.new 1 1).set 0 0 'a' .new) := by
  have hcell (c row : ℕ) : ((Buffer.new 1 1).set 0 0 'a' .new).get c row =
      if c = 0 ∧ row = 0 ∧ 0 < 1 ∧ 0 < 1 then ⟨'a', .new⟩ else .default := by
    rw [Buffer.get_set, Buffer.get_new]
    rfl
  refine (forceRedraw_shows_iff (r := { Renderer.new 1 1 with back := (Buffer.new 1 1).set 0 0 'a' .new })
    (t := letterOnScreen) ⟨Buffer.width_set, Buffer.height_set⟩ ?_ rfl rfl rfl).mpr ?_
  · intro c row
    dsimp only
    rw [hcell]
    split_ifs
    · rfl
    · rfl
  · intro col row hcol hrow halone
    have hpos : col = 0 ∧ row = 0 := ⟨Nat.lt_one_iff.mp hcol, Nat.lt_one_iff.mp hrow⟩
    have hblank := halone.1
    dsimp only at hblank
    rw [hcell, if_pos ⟨hpos.1, hpos.2, Nat.one_pos, Nat.one_pos⟩] at hblank
    cases hblank

/-- A blank is not drawn over it. -/
theorem blank_not_repainted :
    ¬ ∀ (r : Renderer) (t : Terminal), r.back.width = r.width.toNat ∧ r.back.height = r.height.toNat →
      (∀ c row, Terminal.isControl (r.back.get c row).ch = false) → t.state = .ground →
      t.width = r.width.toNat → t.height = r.height.toNat →
      Shows (t.read (utf8 r.forceRedraw.flush.1)) r.back := by
  intro h
  have hblank (c row : ℕ) : (Renderer.new 1 1).back.get c row = .default := Buffer.get_new 1 1 c row
  have hprint (c row : ℕ) : Terminal.isControl ((Renderer.new 1 1).back.get c row).ch = false := by
    rw [hblank]
    rfl
  have hshows := h (.new 1 1) letterOnScreen ⟨rfl, rfl⟩ hprint rfl rfl rfl 0 0 Nat.one_pos Nat.one_pos
  obtain ⟨-, -, -, -, hcells⟩ :=
    screen_flush (r := (Renderer.new 1 1).forceRedraw) (t := letterOnScreen) hprint rfl rfl rfl
  have halone : (Renderer.new 1 1).LeftAlone 0 0 := ⟨hblank 0 0, .inr fun c _ => hblank c 0⟩
  have hkept := (hcells 0 0 Nat.one_pos Nat.one_pos).2 fun hpainted =>
    (repainted_forceRedraw_iff Nat.one_pos).mp hpainted halone
  rw [Terminal.read_utf8, hkept, hblank] at hshows
  cases hshows

end Renderer

end Pirc.Tui
