import Pirc.Scripting.Termination

/-!
# Scripts: arithmetic of integers

`value.rs` adds, subtracts and multiplies integers with wrapping, so that nothing can go wrong
there; it divides and negates them without. What an evaluation computes has a place in 64 bits, and
the evaluation does not panic, where none of its divisions and negations is of the smallest integer.
-/

namespace Pirc.Scripting

/-! ## Steps -/

def FitsInt64 (n : ℤ) : Prop := -2 ^ 63 ≤ n ∧ n < 2 ^ 63

theorem fitsInt64_toInt (n : Int64) : FitsInt64 n.toInt := ⟨n.le_toInt, n.toInt_lt⟩

variable {F : Type}

/-- The quotient of integers, which a remainder is of as well, or the opposite of an integer has a
place; the other operators wrap. -/
def Step.Fits : Step F → Prop
  | binary .div (.int a) (.int b) | binary .mod (.int a) (.int b) =>
    b ≠ 0 → FitsInt64 (a.toInt.tdiv b.toInt)
  | unary .neg (.int n) => FitsInt64 (-n.toInt)
  | _ => True

/-- The smallest integer is divided by `-1`, or negated. -/
def Step.OfSmallest : Step F → Prop
  | binary .div (.int a) (.int b) | binary .mod (.int a) (.int b) => a = Int64.minValue ∧ b = -1
  | unary .neg (.int n) => n = Int64.minValue
  | _ => False

theorem quotient_fits_iff {a b : Int64} (hb : b ≠ 0) :
    FitsInt64 (a.toInt.tdiv b.toInt) ↔ ¬ (a = Int64.minValue ∧ b = -1) := by
  constructor
  · rintro hfits ⟨rfl, rfl⟩
    exact absurd hfits.2 (by decide)
  · intro hsmallest
    have hdiv : (a / b).toInt = a.toInt.tdiv b.toInt := by
      by_cases ha : a = Int64.minValue
      · exact Int64.toInt_div_of_ne_right a b fun hminus => hsmallest ⟨ha, hminus⟩
      · exact Int64.toInt_div_of_ne_left a b ha
    rw [← hdiv]
    exact fitsInt64_toInt _

theorem opposite_fits_iff {n : Int64} : FitsInt64 (-n.toInt) ↔ n ≠ Int64.minValue := by
  constructor
  · rintro hfits rfl
    exact absurd hfits.2 (by decide)
  · intro hne
    have hlow := n.le_toInt
    have hhigh := n.toInt_lt
    have hsmallest : n.toInt ≠ -2 ^ 63 := fun heq => hne (Int64.toInt_inj.mp heq)
    exact ⟨by omega, by omega⟩

theorem Step.integers_or [Platform F] (step : Step F) :
    (∃ op a b, (op = .div ∨ op = .mod) ∧ step = binary op (.int a) (.int b)) ∨
      (∃ n, step = unary .neg (.int n)) ∨ step.Fits ∧ ¬ step.Overflows ∧ ¬ step.OfSmallest := by
  have hnone : True ∧ ¬ False ∧ ¬ False := ⟨trivial, id, id⟩
  cases step with
  | alias_ _ | unbound _ => exact .inr (.inr hnone)
  | unary op v =>
    cases op with
    | not => exact .inr (.inr hnone)
    | neg =>
      cases v with
      | int n => exact .inr (.inl ⟨n, rfl⟩)
      | _ => exact .inr (.inr hnone)
  | binary op v w =>
    cases op with
    | div =>
      cases v with
      | int a =>
        cases w with
        | int b => exact .inl ⟨_, a, b, .inl rfl, rfl⟩
        | _ => exact .inr (.inr hnone)
      | _ => exact .inr (.inr hnone)
    | mod =>
      cases v with
      | int a =>
        cases w with
        | int b => exact .inl ⟨_, a, b, .inr rfl, rfl⟩
        | _ => exact .inr (.inr hnone)
      | _ => exact .inr (.inr hnone)
    | _ => exact .inr (.inr hnone)

theorem Step.fits_and_not_overflows_iff [Platform F] (step : Step F) :
    step.Fits ∧ ¬ step.Overflows ↔ ¬ step.OfSmallest := by
  have hquotient (a b : Int64) : (b ≠ 0 → FitsInt64 (a.toInt.tdiv b.toInt)) ∧
      ¬ Value.Overflows a b ↔ ¬ (a = Int64.minValue ∧ b = -1) := by
    by_cases hb : b = 0
    · subst hb
      simp [Value.Overflows]
    · simp only [hb, ne_eq, not_false_eq_true, forall_const, quotient_fits_iff hb, Value.Overflows,
        and_self]
  rcases step.integers_or with ⟨op, a, b, rfl | rfl, rfl⟩ | ⟨n, rfl⟩ | ⟨hfits, hoverflows, hsmallest⟩
  · exact hquotient a b
  · exact hquotient a b
  · change FitsInt64 (-n.toInt) ∧ ¬ (n = Int64.minValue ∧ Platform.overflowChecks F) ↔
      ¬ n = Int64.minValue
    rw [opposite_fits_iff]
    exact ⟨fun h => h.1, fun h => ⟨h, fun hoverflow => h hoverflow.1⟩⟩
  · exact iff_of_true ⟨hfits, hoverflows⟩ hsmallest

namespace Interpreter

variable [Platform F] {R H : Type}

/-- **The evaluation is sound**: it returns a value or an error, and all that it divides and negates
fits. -/
def EvaluatesSoundly (host : Host F R H) (e : Expression F) (it : Interpreter F R H) : Prop :=
  ∃ r it', evalExpr host e it.start = some (r, it') ∧ r ≠ .error .panic ∧ ∀ step ∈ it'.steps, step.Fits

/-- **The evaluation of an expression is sound exactly if** it neither divides the smallest integer
by `-1` nor negates it. -/
theorem evaluatesSoundly_iff (host : Host F R H) (e : Expression F) (it : Interpreter F R H) :
    EvaluatesSoundly host e it ↔
      ∀ r it', evalExpr host e it.start = some (r, it') → ∀ step ∈ it'.steps, ¬ step.OfSmallest := by
  obtain ⟨r, it', hrun, hran⟩ := (ends_evalExpr e : Ends maxAliasDepth (evalExpr host e)) it.start
    (Nat.le_add_left _ _)
  obtain ⟨new, hnew, hpanics, -⟩ := hran.steps
  replace hnew : it'.steps = new := hnew
  constructor
  · rintro ⟨r', it'', hrun', hreturns, hfits⟩ r'' after hrun'' step hstep
    obtain ⟨rfl, rfl⟩ := Prod.mk.inj (Option.some.inj (hrun.symm.trans hrun'))
    obtain ⟨rfl, rfl⟩ := Prod.mk.inj (Option.some.inj (hrun.symm.trans hrun''))
    refine step.fits_and_not_overflows_iff.mp ⟨hfits step hstep, fun hoverflow => ?_⟩
    exact hreturns (hpanics.mpr ⟨step, hnew ▸ hstep, hoverflow⟩)
  · intro hno
    refine ⟨r, it', hrun, fun hpanic => ?_, fun step hstep => ?_⟩
    · obtain ⟨step, hstep, hoverflow⟩ := hpanics.mp hpanic
      exact (step.fits_and_not_overflows_iff.mpr (hno r it' hrun step (hnew ▸ hstep))).2 hoverflow
    · exact (step.fits_and_not_overflows_iff.mpr (hno r it' hrun step hstep)).1

section Examples

local instance remainderPlatform : Platform Unit := integersOnly

def smallestRemainder : Expression Unit :=
  let int (n : Int64) : Expression Unit := .intLiteral n default
  let sub (e f : Expression Unit) : Expression Unit := .binaryOp e .sub f default
  let smallest := sub (sub (int 0) (int 9223372036854775807)) (int 1)
  .binaryOp (.grouped smallest default) .mod (.grouped (sub (int 0) (int 1)) default) default

/-- Its evaluation is a panic. -/
theorem smallestRemainder_panics :
    ¬ ∀ (e : Expression Unit) (it : Interpreter Unit Unit Unit), EvaluatesSoundly silentHost e it := by
  intro hsound
  let it : Interpreter Unit Unit Unit :=
    { env := {}, cmdHandler := (), builtinCtx := {}, regexState := () }
  obtain ⟨r, it', hrun, hreturns, -⟩ := hsound smallestRemainder it
  have hpanic : ∃ after, evalExpr silentHost smallestRemainder it.start =
      some (.error .panic, after) := ⟨_, rfl⟩
  obtain ⟨after, hpanic⟩ := hpanic
  rw [hpanic] at hrun
  cases hrun
  exact hreturns rfl

end Examples

end Interpreter

end Pirc.Scripting
