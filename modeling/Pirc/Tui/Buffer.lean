import Pirc.Tui.MircColors

/-!
# Terminal interface: screen buffers

`tui/buffer.rs`: a grid of cells, row by row in one list, with a flag for every cell that says
whether it was changed. Positions outside are read as blank, and are not written.
-/

namespace Pirc.Tui

open Protocol (Str)

/-- A character with its style. -/
structure Cell where
  ch : Char
  style : Style
  deriving DecidableEq

def Cell.default : Cell := ⟨' ', .new⟩

/-- The grid of cells, row by row. -/
structure Buffer where
  cells : List Cell
  dirty : List Bool
  width : ℕ
  height : ℕ
  length_cells : cells.length = width * height
  width_lt : width < 2 ^ 16
  height_lt : height < 2 ^ 16

namespace Buffer

def new (width height : UInt16) : Buffer where
  cells := List.replicate (width.toNat * height.toNat) .default
  dirty := List.replicate (width.toNat * height.toNat) false
  width := width.toNat
  height := height.toNat
  length_cells := List.length_replicate
  width_lt := width.toNat_lt
  height_lt := height.toNat_lt

variable (b : Buffer)

/-- Where a cell of the buffer is kept. -/
def index (col row : ℕ) : Option ℕ :=
  if col < b.width ∧ row < b.height then some (row * b.width + col) else none

/-- The cell at a column and a row. -/
def get (col row : ℕ) : Cell :=
  match b.index col row with
  | some idx => b.cells.getD idx .default
  | none => .default

/-- Write a cell, and flag it if that changes it. -/
def set (col row : ℕ) (ch : Char) (style : Style) : Buffer :=
  match b.index col row with
  | some idx =>
    if b.cells.getD idx .default ≠ ⟨ch, style⟩ then
      { b with
        cells := b.cells.set idx ⟨ch, style⟩
        dirty := b.dirty.set idx true
        length_cells := by rw [List.length_set, b.length_cells] }
    else b
  | none => b

/-- Write characters from a column on, as far as another one. Columns are cast to 16 bits. -/
def setRun (row limit : ℕ) : ℕ → List (Char × Style) → Buffer → Buffer
  | _, [], b => b
  | col, (ch, style) :: rest, b =>
    if limit ≤ col then b else setRun row limit (col + 1) rest (b.set (col % 2 ^ 16) row ch style)

/-- Write a text from a cell on. -/
def writeStr (col row : ℕ) (text : Str) (style : Style) : Buffer :=
  if b.height ≤ row then b else b.setRun row b.width col (text.map (·, style))

/-- Write texts with their styles one after the other. -/
def writeStyledSpans (col row : ℕ) (spans : List StyledSpan) : Buffer :=
  if b.height ≤ row then b else b.setRun row b.width col (spans.flatMap StyledSpan.chars)

/-- The cells of a region that are in the buffer. -/
def regionCells (col row width height : ℕ) : List (ℕ × ℕ) :=
  let colEnd := min (col + width) b.width
  let rowEnd := min (row + height) b.height
  let colStart := min col b.width
  let rowStart := min row b.height
  (List.range' rowStart (rowEnd - rowStart)).flatMap fun r =>
    (List.range' colStart (colEnd - colStart)).map fun c => (c, r)

/-- Make the cells of a region blank. -/
def clearRegion (col row width height : ℕ) (style : Style) : Buffer :=
  (b.regionCells col row width height).foldl (fun b pos => b.set pos.1 pos.2 ' ' style) b

/-- A blank grid of another size, in which every cell is flagged. -/
def resize (_ : Buffer) (newWidth newHeight : UInt16) : Buffer :=
  { new newWidth newHeight with dirty := List.replicate (newWidth.toNat * newHeight.toNat) true }

def markAllDirty : Buffer := { b with dirty := b.dirty.map fun _ => true }

def clearDirty : Buffer := { b with dirty := b.dirty.map fun _ => false }

/-! ## Cells -/

variable {b} {col row c r : ℕ} {ch : Char} {style : Style}

theorem index_lt (hcol : col < b.width) (hrow : row < b.height) : row * b.width + col < b.cells.length := by
  have h := Nat.mul_le_mul_right b.width (Nat.succ_le_of_lt hrow)
  rw [Nat.succ_mul] at h
  rw [b.length_cells, Nat.mul_comm b.width]
  omega

theorem index_inj (hcol : col < b.width) (hc : c < b.width)
    (h : row * b.width + col = r * b.width + c) : col = c ∧ row = r := by
  have hpos : 0 < b.width := Nat.zero_lt_of_lt hc
  have hcols := congrArg (· % b.width) h
  have hrows := congrArg (· / b.width) h
  simp only [Nat.mul_comm _ b.width, Nat.mul_add_mod, Nat.mod_eq_of_lt hcol, Nat.mod_eq_of_lt hc] at hcols
  simp only [Nat.mul_comm _ b.width, Nat.mul_add_div hpos, Nat.div_eq_of_lt hcol,
    Nat.div_eq_of_lt hc, Nat.add_zero] at hrows
  exact ⟨hcols, hrows⟩

theorem get_of_not_inside (h : ¬ (c < b.width ∧ r < b.height)) : b.get c r = .default := by
  rw [get, index, if_neg h]

@[simp] theorem get_new (width height : UInt16) (c r : ℕ) : (new width height).get c r = .default := by
  unfold get
  cases (new width height).index c r with
  | none => rfl
  | some idx =>
    simp only [new, List.getD_eq_getElem?_getD, List.getElem?_replicate]
    split_ifs <;> rfl

@[simp] theorem width_set : (b.set col row ch style).width = b.width := by
  unfold set
  cases b.index col row with
  | none => rfl
  | some idx => dsimp only; split_ifs <;> rfl

@[simp] theorem height_set : (b.set col row ch style).height = b.height := by
  unfold set
  cases b.index col row with
  | none => rfl
  | some idx => dsimp only; split_ifs <;> rfl

/-- **A cell is read as it was written**, and the others stay. -/
theorem get_set (b : Buffer) (col row : ℕ) (ch : Char) (style : Style) (c r : ℕ) :
    (b.set col row ch style).get c r =
      if c = col ∧ r = row ∧ col < b.width ∧ row < b.height then ⟨ch, style⟩ else b.get c r := by
  by_cases hinside : col < b.width ∧ row < b.height
  · have hlt := index_lt hinside.1 hinside.2
    have hindex : b.index col row = some (row * b.width + col) := if_pos hinside
    by_cases hsame : b.cells.getD (row * b.width + col) .default = ⟨ch, style⟩
    · have hset : b.set col row ch style = b := by
        simp only [set, hindex, hsame, ne_eq, not_true_eq_false, if_false]
      rw [hset]
      split_ifs with h
      · obtain ⟨rfl, rfl, -⟩ := h
        rw [get, hindex]
        exact hsame
      · rfl
    · have hcells : (b.set col row ch style).cells = b.cells.set (row * b.width + col) ⟨ch, style⟩ := by
        simp only [set, hindex, ne_eq, hsame, not_false_eq_true, if_true]
      by_cases hread : c < b.width ∧ r < b.height
      · have hleft : (b.set col row ch style).get c r =
            (b.cells.set (row * b.width + col) ⟨ch, style⟩).getD (r * b.width + c) .default := by
          rw [get, index, width_set, height_set, if_pos hread, hcells]
        have hright : b.get c r = b.cells.getD (r * b.width + c) .default := by rw [get, index,
          if_pos hread]
        rw [hleft, hright, List.getD_eq_getElem?_getD, List.getD_eq_getElem?_getD, List.getElem?_set]
        by_cases heq : c = col ∧ r = row
        · obtain ⟨rfl, rfl⟩ := heq
          rw [if_pos rfl, if_pos hlt, if_pos ⟨rfl, rfl, hinside⟩]
          rfl
        · have hne : row * b.width + col ≠ r * b.width + c := by
            intro h
            obtain ⟨h1, h2⟩ := index_inj hinside.1 hread.1 h
            exact heq ⟨h1.symm, h2.symm⟩
          rw [if_neg hne, if_neg fun h => heq ⟨h.1, h.2.1⟩]
      · rw [get_of_not_inside (by rwa [width_set, height_set]), get_of_not_inside hread, if_neg]
        rintro ⟨rfl, rfl, h⟩
        exact hread h
  · have hset : b.set col row ch style = b := by
      simp only [set, index, if_neg hinside]
    rw [hset, if_neg fun h => hinside h.2.2]

/-! ## Texts and regions -/

theorem setRun_size (row limit : ℕ) (chars : List (Char × Style)) (col : ℕ) (b : Buffer) :
    (b.setRun row limit col chars).width = b.width ∧ (b.setRun row limit col chars).height = b.height := by
  induction chars generalizing col b with
  | nil => exact ⟨rfl, rfl⟩
  | cons cell rest ih =>
    obtain ⟨ch, style⟩ := cell
    rw [setRun]
    split_ifs
    · exact ⟨rfl, rfl⟩
    · obtain ⟨hwidth, hheight⟩ := ih (col + 1) (b.set (col % 2 ^ 16) row ch style)
      exact ⟨hwidth.trans width_set, hheight.trans height_set⟩

/-- **What is read behind a text**: the characters up to the limit, if they are inside. -/
theorem get_setRun (row : ℕ) {limit : ℕ} (hlimit : limit ≤ 2 ^ 16) (chars : List (Char × Style))
    (col : ℕ) (b : Buffer) (c r : ℕ) :
    (b.setRun row limit col chars).get c r =
      if h : r = row ∧ c < b.width ∧ r < b.height ∧ c < limit ∧ col ≤ c ∧ c - col < chars.length then
        ⟨(chars.get ⟨c - col, h.2.2.2.2.2⟩).1, (chars.get ⟨c - col, h.2.2.2.2.2⟩).2⟩
      else b.get c r := by
  induction chars generalizing col b with
  | nil => rw [setRun, dif_neg (by simp)]
  | cons cell rest ih =>
    obtain ⟨ch, style⟩ := cell
    rw [setRun]
    by_cases hstop : limit ≤ col
    · rw [if_pos hstop, dif_neg (by omega)]
    · have hcast : col % 2 ^ 16 = col := Nat.mod_eq_of_lt (by omega)
      rw [if_neg hstop, hcast, ih, get_set]
      simp only [width_set, height_set, List.length_cons]
      rcases lt_trichotomy c col with hlt | rfl | hgt
      · rw [dif_neg (by omega), if_neg (by omega), dif_neg (by omega)]
      · rw [dif_neg (by omega)]
        by_cases hrow : r = row ∧ c < b.width ∧ r < b.height
        · obtain ⟨rfl, hcol, hrow⟩ := hrow
          rw [if_pos ⟨rfl, rfl, hcol, hrow⟩, dif_pos ⟨rfl, hcol, hrow, by omega, le_rfl, by omega⟩]
          simp
        · rw [if_neg (by rintro ⟨-, rfl, h⟩; exact hrow ⟨rfl, h⟩),
            dif_neg fun h => hrow ⟨h.1, h.2.1, h.2.2.1⟩]
      · by_cases hin : r = row ∧ c < b.width ∧ r < b.height ∧ c < limit ∧ col + 1 ≤ c ∧
            c - (col + 1) < rest.length
        · have hsucc : c - col = (c - (col + 1)) + 1 := by omega
          rw [dif_pos hin, dif_pos ⟨hin.1, hin.2.1, hin.2.2.1, hin.2.2.2.1, by omega, by omega⟩]
          simp only [List.get_eq_getElem, hsucc, List.getElem_cons_succ]
        · rw [dif_neg hin, if_neg (by omega), dif_neg]
          rintro ⟨h1, h2, h3, h4, h5, h6⟩
          exact hin ⟨h1, h2, h3, h4, by omega, by omega⟩

theorem foldl_set (cells : List (ℕ × ℕ)) (content : ℕ → ℕ → Cell) (b : Buffer) :
    (cells.foldl (fun b pos => b.set pos.1 pos.2 (content pos.1 pos.2).ch
        (content pos.1 pos.2).style) b).width = b.width ∧
      (cells.foldl (fun b pos => b.set pos.1 pos.2 (content pos.1 pos.2).ch
        (content pos.1 pos.2).style) b).height = b.height ∧
      ∀ c r, (cells.foldl (fun b pos =>
          b.set pos.1 pos.2 (content pos.1 pos.2).ch (content pos.1 pos.2).style) b).get c r =
        if (c, r) ∈ cells ∧ c < b.width ∧ r < b.height then content c r else b.get c r := by
  induction cells generalizing b with
  | nil => exact ⟨rfl, rfl, fun c r => by simp⟩
  | cons pos rest ih =>
    obtain ⟨hwidth, hheight, hget⟩ :=
      ih (b.set pos.1 pos.2 (content pos.1 pos.2).ch (content pos.1 pos.2).style)
    refine ⟨hwidth.trans width_set, hheight.trans height_set, fun c r => ?_⟩
    rw [List.foldl_cons, hget, get_set, width_set, height_set]
    simp only [List.mem_cons]
    by_cases hinside : c < b.width ∧ r < b.height
    · by_cases hpos : (c, r) = pos
      · subst hpos
        simp [hinside]
      · have hne : ¬ (c = pos.1 ∧ r = pos.2 ∧ pos.1 < b.width ∧ pos.2 < b.height) := fun h =>
          hpos (Prod.ext h.1 h.2.1)
        rw [if_neg hne]
        simp [hpos]
    · have hne : ¬ (c = pos.1 ∧ r = pos.2 ∧ pos.1 < b.width ∧ pos.2 < b.height) := by
        rintro ⟨rfl, rfl, h⟩
        exact hinside h
      rw [if_neg fun h => hinside h.2, if_neg hne, if_neg fun h => hinside h.2]

theorem mem_regionCells {width height : ℕ} :
    (c, r) ∈ b.regionCells col row width height ↔
      (col ≤ c ∧ c < col + width) ∧ (row ≤ r ∧ r < row + height) ∧ c < b.width ∧ r < b.height := by
  simp only [regionCells, List.mem_flatMap, List.mem_map, List.mem_range'_1, Prod.mk.injEq]
  constructor
  · rintro ⟨r', hr, c', hc, rfl, rfl⟩
    omega
  · intro h
    exact ⟨r, by omega, c, by omega, rfl, rfl⟩

theorem clearRegion_size (b : Buffer) (col row width height : ℕ) (style : Style) :
    (b.clearRegion col row width height style).width = b.width ∧
      (b.clearRegion col row width height style).height = b.height :=
  ⟨(foldl_set _ (fun _ _ => ⟨' ', style⟩) b).1, (foldl_set _ (fun _ _ => ⟨' ', style⟩) b).2.1⟩

/-- **What is read behind a cleared region.** -/
theorem get_clearRegion (b : Buffer) (col row width height : ℕ) (style : Style) (c r : ℕ) :
    (b.clearRegion col row width height style).get c r =
      if (col ≤ c ∧ c < col + width) ∧ (row ≤ r ∧ r < row + height) ∧ c < b.width ∧ r < b.height then
        ⟨' ', style⟩
      else b.get c r := by
  rw [clearRegion, (foldl_set _ (fun _ _ => ⟨' ', style⟩) b).2.2]
  refine if_congr ?_ rfl rfl
  rw [mem_regionCells]
  tauto

end Buffer

end Pirc.Tui
