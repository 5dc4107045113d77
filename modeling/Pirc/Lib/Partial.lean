import Mathlib.Tactic

/-!
# Executions that may be cut off

An execution goes on from a state to an outcome in another state, or it is cut off and has none. It
returns, or fails and keeps what it changed. Rules for what holds of an execution when it holds of
its parts; one of the errors may be *fatal*, and nothing is said of the state that it leaves.

## Main results

* `Partial.bind_run`: how a sequence is executed
* `Partial.Keeps.bind`, `Partial.Fails.bind`, `Partial.Tracks.bind`: **the rules
  for sequences**
-/

/-- Executions over states `σ` that may fail with an `ε`, or be cut off. -/
abbrev Partial (σ ε : Type) := ExceptT ε (StateT σ Option)

namespace Partial

variable {σ ε α β : Type}

theorem bind_run (x : Partial σ ε α) (f : α → Partial σ ε β) (s : σ) :
    (x >>= f) s =
      match x s with
      | some (.ok a, s') => f a s'
      | some (.error e, s') => some (.error e, s')
      | none => none := by
  change (x s).bind (fun p => ExceptT.bindCont f p.1 p.2) = _
  rcases hx : x s with - | ⟨e | a, s'⟩ <;> rfl

/-- A sequence stops where its first part fails, or where its second part stops. -/
theorem of_bind_run {x : Partial σ ε α} {f : α → Partial σ ε β} {s s' : σ} {r : Except ε β}
    (h : (x >>= f) s = some (r, s')) :
    (∃ e, x s = some (.error e, s') ∧ r = .error e) ∨
      ∃ a t, x s = some (.ok a, t) ∧ f a t = some (r, s') := by
  rw [bind_run] at h
  rcases hx : x s with - | ⟨e | a, t⟩
  · rw [hx] at h
    cases h
  · rw [hx] at h
    cases h
    exact .inl ⟨e, rfl, rfl⟩
  · rw [hx] at h
    exact .inr ⟨a, t, rfl, h⟩

/-! ## Frames -/

section Keeps

variable {fatal : ε} {R : σ → σ → Prop}

/-- Unless it stops with the fatal error, the execution leaves a state related to the one before. -/
def Keeps (fatal : ε) (R : σ → σ → Prop) (x : Partial σ ε α) : Prop :=
  ∀ s r s', x s = some (r, s') → r ≠ .error fatal → R s s'

theorem keeps_pure [Std.Refl R] (a : α) : Keeps fatal R (pure a : Partial σ ε α) := by
  intro s r s' h _
  cases h
  exact Std.Refl.refl s

theorem keeps_throw [Std.Refl R] (e : ε) : Keeps fatal R (throw e : Partial σ ε α) := by
  intro s r s' h _
  cases h
  exact Std.Refl.refl s

theorem keeps_modify {f : σ → σ} (h : ∀ s, R s (f s)) :
    Keeps fatal R (modify f : Partial σ ε PUnit) := by
  intro s r s' hrun _
  cases hrun
  exact h s

theorem keeps_get_bind {f : σ → Partial σ ε α} (h : ∀ s, Keeps fatal R (f s)) :
    Keeps fatal R (get >>= f) := fun s => h s s

theorem Keeps.bind [IsTrans σ R] {x : Partial σ ε α} {f : α → Partial σ ε β} (hx : Keeps fatal R x)
    (hf : ∀ a, Keeps fatal R (f a)) : Keeps fatal R (x >>= f) := by
  intro s r s' h hr
  rcases of_bind_run h with ⟨e, hfirst, rfl⟩ | ⟨a, t, hfirst, hrest⟩
  · exact hx s _ s' hfirst (fun heq => hr (congrArg Except.error (Except.error.inj heq)))
  · exact IsTrans.trans _ _ _ (hx s _ t hfirst (by rintro ⟨⟩)) (hf a t r s' hrest hr)

theorem Keeps.ok {x : Partial σ ε α} {s s' : σ} {a : α} (h : Keeps fatal R x)
    (hrun : x s = some (.ok a, s')) : R s s' := h s _ s' hrun (by rintro ⟨⟩)

end Keeps

/-! ## Errors -/

section Fails

variable {P P' : σ → Prop} {E : ε → Prop}

def Fails (P : σ → Prop) (E : ε → Prop) (x : Partial σ ε α) : Prop :=
  ∀ s e s', P s → x s = some (.error e, s') → E e

theorem fails_pure (a : α) : Fails P E (pure a : Partial σ ε α) := by
  rintro s e s' _ ⟨⟩

theorem fails_throw {e : ε} (h : E e) : Fails P E (throw e : Partial σ ε α) := by
  intro s e' s' _ hrun
  cases hrun
  exact h

theorem fails_modify (f : σ → σ) : Fails P E (modify f : Partial σ ε PUnit) := by
  rintro s e s' _ ⟨⟩

theorem Fails.bind {x : Partial σ ε α} {f : α → Partial σ ε β} (hx : Fails P E x)
    (hP : ∀ s a s', P s → x s = some (.ok a, s') → P' s') (hf : ∀ a, Fails P' E (f a)) :
    Fails P E (x >>= f) := by
  intro s e s' hs h
  rcases of_bind_run h with ⟨e', hfirst, heq⟩ | ⟨a, t, hfirst, hrest⟩
  · cases heq
    exact hx s e s' hs hfirst
  · exact hf a t e s' (hP s a t hs hfirst) hrest

end Fails

/-! ## Executions that differ in their outcomes -/

section Tracks

variable {α' β' : Type} {Q : α → α' → Prop} {Q' : β → β' → Prop} {E : ε → ε → Prop}

inductive Alike (Q : α → α' → Prop) (E : ε → ε → Prop) : Except ε α → Except ε α' → Prop
  | ok {a : α} {a' : α'} (h : Q a a') : Alike Q E (.ok a) (.ok a')
  | error {e e' : ε} (h : E e e') : Alike Q E (.error e) (.error e')

/-- The executions go through the same states, with outcomes that are alike. -/
def Tracks (Q : α → α' → Prop) (E : ε → ε → Prop) (x : Partial σ ε α) (x' : Partial σ ε α') : Prop :=
  ∀ s, Option.Rel (fun o o' => Alike Q E o.1 o'.1 ∧ o'.2 = o.2) (x s) (x' s)

theorem tracks_pure {a : α} {a' : α'} (h : Q a a') :
    Tracks Q E (pure a : Partial σ ε α) (pure a' : Partial σ ε α') := fun _ => .some ⟨.ok h, rfl⟩

theorem tracks_throw {e e' : ε} (h : E e e') :
    Tracks Q E (throw e : Partial σ ε α) (throw e' : Partial σ ε α') := fun _ => .some ⟨.error h, rfl⟩

theorem tracks_modify (f : σ → σ) :
    Tracks Eq E (modify f : Partial σ ε PUnit) (modify f : Partial σ ε PUnit) :=
  fun _ => .some ⟨.ok rfl, rfl⟩

theorem tracks_get_bind {f : σ → Partial σ ε α} {f' : σ → Partial σ ε α'}
    (h : ∀ s, Tracks Q E (f s) (f' s)) : Tracks Q E (get >>= f) (get >>= f') := fun s => h s s

theorem Tracks.bind {x : Partial σ ε α} {x' : Partial σ ε α'} {f : α → Partial σ ε β}
    {f' : α' → Partial σ ε β'} (hx : Tracks Q E x x') (hf : ∀ a a', Q a a' → Tracks Q' E (f a) (f' a')) :
    Tracks Q' E (x >>= f) (x' >>= f') := by
  intro s
  have hfirst := hx s
  rw [bind_run, bind_run]
  generalize x s = o at hfirst
  generalize x' s = o' at hfirst
  cases hfirst with
  | none => exact .none
  | @some o o' h =>
    obtain ⟨r, t⟩ := o
    obtain ⟨r', t'⟩ := o'
    obtain ⟨halike, rfl⟩ : Alike Q E r r' ∧ t' = t := h
    cases halike with
    | ok ha => exact hf _ _ ha t'
    | error he => exact .some ⟨.error he, rfl⟩

theorem tracks_refl [Std.Refl E] (x : Partial σ ε α) : Tracks Eq E x x := by
  intro s
  rcases x s with - | ⟨e | a, t⟩
  · exact .none
  · exact .some ⟨.error (Std.Refl.refl e), rfl⟩
  · exact .some ⟨.ok rfl, rfl⟩

end Tracks

end Partial
