import Pirc.Scripting.Termination

/-!
# Scripts: the comparison operators

`interpreter/value.rs`. Integers are compared as numbers. Strings are equal up to the case of ASCII
letters, but ordered by their lower case, so that two strings which differ in the case of another
letter are neither equal nor is one of them the smaller one.
-/

namespace Pirc.Scripting

open Protocol (Str)

variable {F : Type} [Platform F]

namespace Value

/-- The operator gives true on these values. -/
def Holds (op : BinaryOp) (v w : Value F) : Prop := binary op v w = .ok (.bool true)

/-- Two integers or two strings. -/
def Ordered : Value F → Value F → Prop
  | int _, int _ | string _, string _ => True
  | _, _ => False

/-- **Coherent**: one of less, equal and greater, and the other two operators by these. -/
structure Coherent (v w : Value F) : Prop where
  some_holds : Holds .lt v w ∨ Holds .eq v w ∨ Holds .gt v w
  not_lt_eq : ¬ (Holds .lt v w ∧ Holds .eq v w)
  not_lt_gt : ¬ (Holds .lt v w ∧ Holds .gt v w)
  not_eq_gt : ¬ (Holds .eq v w ∧ Holds .gt v w)
  lte_iff : Holds .lte v w ↔ Holds .lt v w ∨ Holds .eq v w
  gte_iff : Holds .gte v w ↔ Holds .lte w v

/-- Strings have one lower case exactly if they are equal up to the case of ASCII letters. -/
def FoldsAgree : Value F → Value F → Prop
  | string s, string t =>
    Platform.toLowercase F s = Platform.toLowercase F t ↔ eqIgnoreAsciiCase s t = true
  | _, _ => True

/-! ## One order -/

section Order

variable {v w u : Value F} {ord : Ordering}

theorem Ordered.exists_order (h : Ordered v w) :
    ∃ ord, partialCmpValues v w = .ok ord ∧ partialCmpValues w v = .ok ord.swap := by
  cases v <;> cases w
  case int.int a b => exact ⟨_, rfl, congrArg Except.ok Std.OrientedCmp.eq_swap⟩
  case string.string s t => exact ⟨_, rfl, congrArg Except.ok Std.OrientedCmp.eq_swap⟩
  all_goals exact h.elim

theorem compareWith_eq_true (h : partialCmpValues v w = .ok ord) (holds : Ordering → Bool) :
    compareWith holds v w = .ok (.bool true) ↔ holds ord = true := by
  rw [compareWith, h]
  constructor
  · intro heq
    exact Value.bool.inj (Except.ok.inj heq)
  · intro heq
    exact congrArg (fun b => Except.ok (Value.bool b)) heq

theorem holds_lt (h : partialCmpValues v w = .ok ord) : Holds .lt v w ↔ ord = .lt :=
  (compareWith_eq_true h _).trans decide_eq_true_iff

theorem holds_gt (h : partialCmpValues v w = .ok ord) : Holds .gt v w ↔ ord = .gt :=
  (compareWith_eq_true h _).trans decide_eq_true_iff

theorem holds_lte (h : partialCmpValues v w = .ok ord) : Holds .lte v w ↔ ord = .lt ∨ ord = .eq :=
  (compareWith_eq_true h _).trans (by simp)

theorem holds_gte (h : partialCmpValues v w = .ok ord) : Holds .gte v w ↔ ord = .gt ∨ ord = .eq :=
  (compareWith_eq_true h _).trans (by simp)

theorem holds_eq : Holds .eq v w ↔ v.equals w = true := by
  constructor
  · intro heq
    exact Value.bool.inj (Except.ok.inj heq)
  · intro heq
    exact congrArg (fun b => Except.ok (Value.bool b)) heq

theorem foldsAgree_iff (hordered : Ordered v w) (h : partialCmpValues v w = .ok ord) :
    FoldsAgree v w ↔ (ord = .eq ↔ Holds .eq v w) := by
  rw [holds_eq]
  cases v <;> cases w
  case int.int a b =>
    obtain rfl := Except.ok.inj h
    refine iff_of_true trivial ?_
    rw [Std.LawfulEqCmp.compare_eq_iff_eq, equals, decide_eq_true_iff, Int64.toInt_inj]
  case string.string s t =>
    obtain rfl := Except.ok.inj h
    rw [Std.LawfulEqCmp.compare_eq_iff_eq]
    rfl
  all_goals exact hordered.elim

theorem Holds.lt_trans (hvw : Ordered v w) (hwu : Ordered w u) (hlt : Holds .lt v w)
    (hlt' : Holds .lt w u) : Holds .lt v u := by
  cases v <;> cases w
  case int.int a b =>
    cases u
    case int c =>
      rw [holds_lt rfl] at hlt hlt' ⊢
      exact Std.TransCmp.lt_trans hlt hlt'
    all_goals exact hwu.elim
  case string.string s t =>
    cases u
    case string r =>
      rw [holds_lt rfl] at hlt hlt' ⊢
      exact Std.TransCmp.lt_trans hlt hlt'
    all_goals exact hwu.elim
  all_goals exact hvw.elim

/-- Coherence is about equality: the other operators are read off one order. -/
theorem coherent_iff_eq (h : partialCmpValues v w = .ok ord)
    (hswap : partialCmpValues w v = .ok ord.swap) : Coherent v w ↔ (ord = .eq ↔ Holds .eq v w) := by
  constructor
  · intro hcoherent
    have hsome := hcoherent.some_holds
    have hlt := hcoherent.not_lt_eq
    have hgt := hcoherent.not_eq_gt
    rw [holds_lt h] at hsome hlt
    rw [holds_gt h] at hsome hgt
    cases ord with
    | lt => exact iff_of_false (by rintro ⟨⟩) fun heq => hlt ⟨rfl, heq⟩
    | eq => exact iff_of_true rfl (by simpa using hsome)
    | gt => exact iff_of_false (by rintro ⟨⟩) fun heq => hgt ⟨heq, rfl⟩
  · intro heq
    refine ⟨?_, ?_, ?_, ?_, ?_, ?_⟩ <;> cases ord <;>
      simp [holds_lt h, holds_gt h, holds_lte h, holds_gte h, holds_lte hswap, ← heq]

end Order

/-- **The operators are coherent exactly where case is folded alike**; the order is transitive
anyway. -/
theorem coherent_iff {v w u : Value F} (hvw : Ordered v w) (hwu : Ordered w u) :
    (Coherent v w ∧ (Holds .lt v w → Holds .lt w u → Holds .lt v u)) ↔ FoldsAgree v w := by
  obtain ⟨ord, hord, hswap⟩ := hvw.exists_order
  have htrans : Holds .lt v w → Holds .lt w u → Holds .lt v u := Holds.lt_trans hvw hwu
  rw [and_iff_left htrans, coherent_iff_eq hord hswap, foldsAgree_iff hvw hord]

/-! ### A letter with an umlaut -/

section Umlauts

/-- Lower case of the ASCII letters, and of `Ä`. -/
@[reducible] def umlautPlatform : Platform Unit :=
  { Interpreter.integersOnly with
    toLowercase := fun s => s.map fun c => if c = 'Ä' then 'ä' else c.toLower }

local instance umlauts : Platform Unit := umlautPlatform

theorem coherent_apples :
    Coherent (.string "Apfel".toList : Value Unit) (.string "apfel".toList) ∧
      (Holds .lt (.string "Apfel".toList : Value Unit) (.string "apfel".toList) →
        Holds .lt (.string "apfel".toList : Value Unit) (.string "birne".toList) →
          Holds .lt (.string "Apfel".toList : Value Unit) (.string "birne".toList)) :=
  have hordered (s t : Str) : Ordered (.string s : Value Unit) (.string t) := trivial
  (coherent_iff (hordered _ _) (hordered _ _)).mpr (iff_of_true (by decide) (by decide))

/-- **Neither smaller, nor equal, nor greater**: the two cases of one umlaut. -/
theorem umlauts_not_coherent :
    ¬ ∀ v w u : Value Unit, Ordered v w → Ordered w u →
      Coherent v w ∧ (Holds .lt v w → Holds .lt w u → Holds .lt v u) := by
  intro h
  have hcoherent := (h (.string ['Ä']) (.string ['ä']) (.string ['ä']) trivial trivial).1
  have heq : Holds .eq (.string ['Ä'] : Value Unit) (.string ['ä']) :=
    ((coherent_iff_eq rfl rfl).mp hcoherent).mp (by decide)
  have hne : (Value.string ['Ä'] : Value Unit).equals (.string ['ä']) = false := by decide
  rw [holds_eq, hne] at heq
  cases heq

end Umlauts

end Value

end Pirc.Scripting
