import Pirc.Lib.Decimal
import Pirc.Lib.Text

/-!
# Terminals

What a terminal shows for the text that is written on it: characters at the cursor, and control
sequences that move it, that set how characters look, and that erase. Every character but the
control characters takes one column. A character in the last column leaves the cursor there, and the
next one goes to the line below.

## Main results

* `feed_csiText`: **a control sequence** does what its parameters say
* `At.put`: where a character is printed
-/

namespace Terminal

/-! ## How characters look -/

inductive Color
  | default_
  | ansi (n : ℕ)
  | bright (n : ℕ)
  | indexed (n : ℕ)
  | rgb (r g b : ℕ)
  deriving DecidableEq

/-- How characters look. -/
@[ext] structure Pen where
  fg : Color := .default_
  bg : Color := .default_
  bold : Bool := false
  italic : Bool := false
  underline : Bool := false
  reverse : Bool := false
  deriving DecidableEq

/-- One parameter of a selection of how characters look. -/
def Pen.select (pen : Pen) (n : ℕ) : Pen :=
  if n = 0 then {}
  else if n = 1 then { pen with bold := true }
  else if n = 3 then { pen with italic := true }
  else if n = 4 then { pen with underline := true }
  else if n = 7 then { pen with reverse := true }
  else if 30 ≤ n ∧ n ≤ 37 then { pen with fg := .ansi (n - 30) }
  else if n = 39 then { pen with fg := .default_ }
  else if 40 ≤ n ∧ n ≤ 47 then { pen with bg := .ansi (n - 40) }
  else if n = 49 then { pen with bg := .default_ }
  else if 90 ≤ n ∧ n ≤ 97 then { pen with fg := .bright (n - 90) }
  else if 100 ≤ n ∧ n ≤ 107 then { pen with bg := .bright (n - 100) }
  else pen

/-- **The parameters of a selection**, the colours of a palette and of three components among
them. -/
def sgr : List ℕ → Pen → Pen
  | 38 :: 5 :: n :: rest, pen => sgr rest { pen with fg := .indexed n }
  | 38 :: 2 :: r :: g :: b :: rest, pen => sgr rest { pen with fg := .rgb r g b }
  | 48 :: 5 :: n :: rest, pen => sgr rest { pen with bg := .indexed n }
  | 48 :: 2 :: r :: g :: b :: rest, pen => sgr rest { pen with bg := .rgb r g b }
  | n :: rest, pen => sgr rest (pen.select n)
  | [], pen => pen

/-- What a cell of the screen shows. -/
@[ext] structure Glyph where
  ch : Char
  pen : Pen
  deriving DecidableEq

def Pen.blank (pen : Pen) : Glyph := ⟨' ', { bg := pen.bg }⟩

/-- Where in a control sequence the text is. The parameters are kept, the last one first. -/
inductive State
  | ground
  | escape
  | csi (isPrivate : Bool) (params : List ℕ)
  deriving DecidableEq

end Terminal

open Terminal in
/-- A terminal: what every cell shows, by its column and its row, and where the cursor is. -/
structure Terminal where
  width : ℕ
  height : ℕ
  screen : ℕ → ℕ → Glyph
  col : ℕ
  row : ℕ
  wrapPending : Bool
  pen : Pen
  cursorShown : Bool
  state : State

namespace Terminal

def cleared (width height : ℕ) : Terminal where
  width := width
  height := height
  screen _ _ := Pen.blank {}
  col := 0
  row := 0
  wrapPending := false
  pen := {}
  cursorShown := true
  state := .ground

variable (t : Terminal)

/-- Go to the beginning of the next line. At the bottom, the lines move up. -/
def nextLine : Terminal :=
  if t.row + 1 < t.height then { t with col := 0, row := t.row + 1, wrapPending := false }
  else
    { t with
      col := 0
      wrapPending := false
      screen := fun c r => if r + 1 < t.height then t.screen c (r + 1) else t.pen.blank }

def put (c : Char) : Terminal :=
  let t := if t.wrapPending then t.nextLine else t
  { t with
    screen := fun col row => if col = t.col ∧ row = t.row then ⟨c, t.pen⟩ else t.screen col row
    col := if t.col + 1 < t.width then t.col + 1 else t.col
    wrapPending := t.width ≤ t.col + 1 }

def moveTo (row col : ℕ) : Terminal :=
  { t with
    row := min (max row 1) t.height - 1
    col := min (max col 1) t.width - 1
    wrapPending := false }

def eraseScreen : Terminal := { t with screen := fun _ _ => t.pen.blank }

def eraseLine : Terminal :=
  { t with
    screen := fun c r => if r = t.row ∧ t.col ≤ c then t.pen.blank else t.screen c r
    wrapPending := false }

def dispatch (isPrivate : Bool) (params : List ℕ) (final : Char) : Terminal :=
  match isPrivate, final with
  | false, 'H' => t.moveTo (params.getD 0 1) (params.getD 1 1)
  | false, 'J' => if params.head? = some 2 then t.eraseScreen else t
  | false, 'K' => if params.head? = some 0 then t.eraseLine else t
  | false, 'm' => { t with pen := sgr params t.pen }
  | true, 'h' => if params = [25] then { t with cursorShown := true } else t
  | true, 'l' => if params = [25] then { t with cursorShown := false } else t
  | _, _ => t

def isControl (c : Char) : Bool := c.toNat < 0x20 || (0x7f ≤ c.toNat && c.toNat < 0xa0)

def pushDigit (c : Char) : List ℕ → List ℕ
  | [] => [c.toNat - '0'.toNat]
  | n :: params => (10 * n + (c.toNat - '0'.toNat)) :: params

/-- **One character.** -/
def step (c : Char) : Terminal :=
  if c = '\x1b' then { t with state := .escape }
  else
    match t.state with
    | .ground => if isControl c then t else t.put c
    | .escape => { t with state := if c = '[' then .csi false [0] else .ground }
    | .csi isPrivate params =>
      if c.isDigit then { t with state := .csi isPrivate (pushDigit c params) }
      else if c = ';' then { t with state := .csi isPrivate (0 :: params) }
      else if c = '?' then { t with state := .csi true params }
      else if '@' ≤ c ∧ c ≤ '~' then { t with state := .ground }.dispatch isPrivate params.reverse c
      else t

/-- What the terminal makes of characters. -/
def feed (text : List Char) : Terminal := text.foldl step t

/-- What the terminal makes of bytes. -/
def read (bytes : List UInt8) : Terminal := t.feed ((fromUtf8? bytes).getD [])

variable {t}

@[simp] theorem feed_nil : t.feed [] = t := rfl

theorem feed_cons (c : Char) (text : List Char) : t.feed (c :: text) = (t.step c).feed text := rfl

theorem feed_append (text text' : List Char) : t.feed (text ++ text') = (t.feed text).feed text' :=
  List.foldl_append

theorem read_utf8 (text : List Char) : t.read (utf8 text) = t.feed text := by
  rw [read, fromUtf8?_utf8, Option.getD_some]

/-! ## Control sequences -/

/-- The text of a control sequence. -/
def csiText (isPrivate : Bool) (params : List ℕ) (final : Char) : List Char :=
  '\x1b' :: '[' :: (if isPrivate then ['?'] else []) ++
    [';'].intercalate (params.map (Nat.toDigits 10)) ++ [final]

theorem feed_digits {isPrivate : Bool} {text : List Char} (h : ∀ c ∈ text, c.isDigit = true) (n : ℕ)
    (params : List ℕ) (hstate : t.state = .csi isPrivate (n :: params)) :
    t.feed text = { t with state := .csi isPrivate (Nat.ofDigitChars 10 text n :: params) } := by
  induction text generalizing t n with
  | nil =>
    rw [feed_nil, Nat.ofDigitChars_nil, ← hstate]
  | cons c text ih =>
    obtain ⟨hc, hrest⟩ := List.forall_mem_cons.mp h
    have hesc : c ≠ '\x1b' := by
      rintro rfl
      revert hc
      decide
    have hstep : t.step c =
        { t with state := .csi isPrivate ((10 * n + (c.toNat - '0'.toNat)) :: params) } := by
      unfold step
      rw [if_neg hesc, hstate]
      dsimp only
      rw [if_pos hc]
      rfl
    rw [feed_cons, hstep, ih hrest _ rfl, Nat.ofDigitChars_cons]

theorem feed_params {isPrivate : Bool} {before params : List ℕ} (hne : params ≠ [])
    (hstate : t.state = .csi isPrivate (0 :: before)) :
    t.feed ([';'].intercalate (params.map (Nat.toDigits 10))) =
      { t with state := .csi isPrivate (params.reverse ++ before) } := by
  have hnumber (t : Terminal) (n : ℕ) (before : List ℕ) (hstate : t.state = .csi isPrivate (0 :: before)) :
      t.feed (Nat.toDigits 10 n) = { t with state := .csi isPrivate (n :: before) } := by
    rw [feed_digits (fun c hc => Decimal.isDigit_of_mem_toDigits hc) 0 before hstate,
      Nat.ofDigitChars_ten_toDigits]
  induction params generalizing t before with
  | nil => exact absurd rfl hne
  | cons n params ih =>
    cases params with
    | nil =>
      rw [List.map_singleton, List.intercalate_singleton, hnumber t n before hstate]
      rfl
    | cons m params =>
      have hnext : ({ t with state := .csi isPrivate (n :: before) } : Terminal).feed [';'] =
          { t with state := .csi isPrivate (0 :: n :: before) } := rfl
      rw [List.map_cons, List.map_cons, List.intercalate_cons_cons, List.append_assoc, feed_append,
        hnumber t n before hstate, feed_append, hnext]
      have hrest := ih (t := { t with state := .csi isPrivate (0 :: n :: before) })
        (List.cons_ne_nil m params) rfl
      rw [← List.map_cons, hrest]
      simp

/-- **A control sequence does what its parameters say.** -/
theorem feed_csiText (hstate : t.state = .ground) (isPrivate : Bool) {params : List ℕ}
    (hne : params ≠ []) {final : Char} (hfinal : '@' ≤ final ∧ final ≤ '~') :
    t.feed (csiText isPrivate params final) = t.dispatch isPrivate params final := by
  have hlow : ∀ c : Char, ¬ '@' ≤ c → final ≠ c := by
    rintro c hc rfl
    exact hc hfinal.1
  have hdigit : final.isDigit = false := by
    rw [Bool.eq_false_iff]
    intro hdigit
    have hnine : final.val ≤ '9'.val := of_decide_eq_true (Bool.and_eq_true_iff.mp hdigit).2
    exact absurd (UInt32.le_trans hfinal.1 hnine) (by decide)
  let opened : Terminal := { t with state := .csi isPrivate [0] }
  have hopened : t.feed ('\x1b' :: '[' :: (if isPrivate then ['?'] else [])) = opened := by
    cases isPrivate <;> rfl
  have hread : opened.feed ([';'].intercalate (params.map (Nat.toDigits 10))) =
      { t with state := .csi isPrivate (params.reverse ++ []) } := feed_params hne rfl
  have hground : ({ t with state := .ground } : Terminal) = t := by rw [← hstate]
  unfold csiText
  rw [feed_append, feed_append, hopened, hread, feed_cons, feed_nil, List.append_nil, step,
    if_neg (hlow _ (by decide))]
  dsimp only
  rw [hdigit, if_neg Bool.false_ne_true, if_neg (hlow _ (by decide)), if_neg (hlow _ (by decide)),
    if_pos hfinal,
    hground, List.reverse_reverse]

theorem feed_put (hstate : t.state = .ground) {c : Char} (hc : isControl c = false) :
    t.feed [c] = t.put c := by
  have hesc : c ≠ '\x1b' := by
    rintro rfl
    revert hc
    decide
  rw [feed_cons, feed_nil, step, if_neg hesc, hstate]
  exact if_neg (Bool.eq_false_iff.mp hc)

/-! ## The cursor -/

/-- The cursor is at a column of a row. Behind the last column it stays in that. -/
structure At (t : Terminal) (col row : ℕ) : Prop where
  row : t.row = row
  col : col < t.width → t.col = col ∧ t.wrapPending = false

theorem at_moveTo {row col : ℕ} (hrow : row < t.height) : (t.moveTo (row + 1) (col + 1)).At col row where
  row := by
    change min (max (row + 1) 1) t.height - 1 = row
    omega
  col hcol := by
    refine ⟨?_, rfl⟩
    change min (max (col + 1) 1) t.width - 1 = col
    change col < t.width at hcol
    omega

/-- **A character that is printed** is where the cursor was, and the cursor is behind it. -/
theorem At.put {col row : ℕ} (h : t.At col row) (hcol : col < t.width) (c : Char) :
    (t.put c).At (col + 1) row ∧ (t.put c).state = t.state ∧ (t.put c).pen = t.pen ∧
      (t.put c).width = t.width ∧ (t.put c).height = t.height ∧
      ∀ c' r', (t.put c).screen c' r' = if c' = col ∧ r' = row then ⟨c, t.pen⟩ else t.screen c' r' := by
  obtain ⟨hat, hwrap⟩ := h.col hcol
  have hput : t.put c = { t with
      screen := fun c' r' => if c' = col ∧ r' = row then ⟨c, t.pen⟩ else t.screen c' r'
      col := if col + 1 < t.width then col + 1 else col
      wrapPending := t.width ≤ col + 1 } := by
    unfold Terminal.put
    rw [hwrap, if_neg Bool.false_ne_true]
    dsimp only
    rw [hat, h.row]
  rw [hput]
  refine ⟨⟨h.row, fun hnext => ?_⟩, rfl, rfl, rfl, rfl, fun _ _ => rfl⟩
  change col + 1 < t.width at hnext
  exact ⟨if_pos hnext, decide_eq_false (by omega)⟩

end Terminal
