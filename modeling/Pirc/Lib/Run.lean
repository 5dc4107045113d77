import Mathlib.Logic.Relation
import Mathlib.Order.MinMax

/-!
# Runs of an event-driven system

A system reacts to events: `step s e` is the state after the event `e`, and `enabled s e` says
when the environment may produce `e` at all. A run takes enabled events one after another; a
*guarded* run also keeps a side condition at every step, read in the state before the step.

## Main results

* `System.Legal.steps`, `System.Legal.steps_take`: a legal event list is a run, and so is each part
  of it
* `append_singleton_eq`: where an event is in a history that grows at its end
-/

universe u v w

structure System (σ : Type u) (ε : Type v) where
  /-- The environment may produce the event in this state. -/
  enabled : σ → ε → Prop
  /-- The state after the event. -/
  step : σ → ε → σ

namespace System

variable {σ : Type u} {ε : Type v} {S : System σ ε} {ok ok' : σ → ε → Prop} {s t r : σ}

/-- **Guarded runs**: enabled events that meet `ok` in the state they are taken in. -/
inductive Steps (S : System σ ε) (ok : σ → ε → Prop) (s : σ) : σ → Prop
  | refl : Steps S ok s s
  | tail {t : σ} (e : ε) (run : Steps S ok s t) (en : S.enabled t e) (h : ok t e) :
      Steps S ok s (S.step t e)

abbrev Free : σ → ε → Prop := fun _ _ => True

theorem Steps.trans (h₁ : Steps S ok s t) (h₂ : Steps S ok t r) : Steps S ok s r := by
  induction h₂ with
  | refl => exact h₁
  | tail e _ en h ih => exact ih.tail e en h

/-- **The invariant rule**: what one guarded step preserves, a guarded run preserves. -/
theorem Steps.invariant {I : σ → Prop} (h : Steps S ok s t)
    (hstep : ∀ s e, S.enabled s e → ok s e → I s → I (S.step s e)) (hs : I s) : I t := by
  induction h with
  | refl => exact hs
  | tail e _ en h ih => exact hstep _ e en h ih

/-! ## Runs given by their events -/

def exec (S : System σ ε) (s : σ) (es : List ε) : σ := es.foldl S.step s

/-- The events can be taken one after the other. -/
def Legal (S : System σ ε) (ok : σ → ε → Prop) : σ → List ε → Prop
  | _, [] => True
  | s, e :: es => S.enabled s e ∧ ok s e ∧ Legal S ok (S.step s e) es

instance Legal.decidable (S : System σ ε) (ok : σ → ε → Prop)
    [∀ s e, Decidable (S.enabled s e)] [∀ s e, Decidable (ok s e)] :
    ∀ s es, Decidable (Legal S ok s es)
  | _, [] => .isTrue trivial
  | s, e :: es =>
    have := Legal.decidable S ok (S.step s e) es
    inferInstanceAs (Decidable (_ ∧ _ ∧ _))

theorem Legal.steps : ∀ {es : List ε} {s : σ}, Legal S ok s es → Steps S ok s (S.exec s es)
  | [], _, _ => .refl
  | e :: _, s, ⟨en, h, hes⟩ =>
    have first : Steps S ok s (S.step s e) := Steps.refl.tail e en h
    first.trans (Legal.steps hes)

/-- Where every event is enabled, every list of events is legal. -/
theorem legal_free (h : ∀ s e, S.enabled s e) : ∀ (es : List ε) (s : σ), Legal S Free s es
  | [], _ => trivial
  | e :: es, s => ⟨h s e, trivial, legal_free h es (S.step s e)⟩

@[simp] theorem exec_append (S : System σ ε) (s : σ) (es fs : List ε) :
    S.exec s (es ++ fs) = S.exec (S.exec s es) fs := List.foldl_append

theorem legal_append {es fs : List ε} :
    Legal S ok s (es ++ fs) ↔ Legal S ok s es ∧ Legal S ok (S.exec s es) fs := by
  induction es generalizing s with
  | nil => simp [Legal, exec]
  | cons e es ih => simp [Legal, ih, exec, and_assoc]

theorem Legal.steps_take {es : List ε} (h : Legal S ok s es) {m n : ℕ} (hmn : m ≤ n) :
    Steps S ok s (S.exec s (es.take m)) ∧
      Steps S ok (S.exec s (es.take m)) (S.exec s (es.take n)) := by
  have hn : Legal S ok s (es.take n) := by
    rw [← List.take_append_drop n es] at h
    exact (legal_append.mp h).1
  have hsplit : es.take n = es.take m ++ (es.take n).drop m := by
    conv_lhs => rw [← List.take_append_drop m (es.take n)]
    rw [List.take_take, min_eq_left hmn]
  rw [hsplit] at hn ⊢
  obtain ⟨hm, hrest⟩ := legal_append.mp hn
  rw [exec_append]
  exact ⟨hm.steps, hrest.steps⟩

theorem Legal.mono {es : List ε} (h : Legal S ok s es) (hok : ∀ s e, ok s e → ok' s e) :
    Legal S ok' s es := by
  induction es generalizing s with
  | nil => trivial
  | cons e es ih =>
    obtain ⟨henabled, hfirst, hrest⟩ := h
    exact ⟨henabled, hok s e hfirst, ih hrest⟩

theorem Legal.and {es : List ε} (h : Legal S ok s es) (h' : Legal S ok' s es) :
    Legal S (fun s e => ok s e ∧ ok' s e) s es := by
  induction es generalizing s with
  | nil => trivial
  | cons e es ih =>
    obtain ⟨henabled, hfirst, hrest⟩ := h
    obtain ⟨-, hfirst', hrest'⟩ := h'
    exact ⟨henabled, ⟨hfirst, hfirst'⟩, ih hrest hrest'⟩

theorem Legal.invariant {I : σ → Prop} {es : List ε} (h : Legal S ok s es)
    (hstep : ∀ s e, S.enabled s e → ok s e → I s → I (S.step s e)) (hs : I s) :
    Legal S (fun s e => I s ∧ ok s e) s es := by
  induction es generalizing s with
  | nil => trivial
  | cons e es ih =>
    obtain ⟨henabled, hok, hrest⟩ := h
    exact ⟨henabled, ⟨hs, hok⟩, ih hrest (hstep s e henabled hok hs)⟩

/-- Two conditions that mean the same wherever an invariant holds allow the same runs. -/
theorem legal_congr {I : σ → Prop} (hinv : ∀ s e, S.enabled s e → I s → I (S.step s e))
    (hok : ∀ s e, S.enabled s e → I s → (ok s e ↔ ok' s e)) {es : List ε} (hs : I s) :
    Legal S ok s es ↔ Legal S ok' s es := by
  induction es generalizing s with
  | nil => rfl
  | cons e es ih =>
    constructor
    · rintro ⟨henabled, hfirst, hrest⟩
      exact ⟨henabled, (hok s e henabled hs).mp hfirst, (ih (hinv s e henabled hs)).mp hrest⟩
    · rintro ⟨henabled, hfirst, hrest⟩
      exact ⟨henabled, (hok s e henabled hs).mpr hfirst, (ih (hinv s e henabled hs)).mpr hrest⟩

/-- **The measure rule**: what grows by at most one at each step stays below a bound that leaves
room for all steps. -/
theorem Legal.below {I : σ → Prop} {μ : σ → ℕ} {N : ℕ} {es : List ε} (h : Legal S ok s es)
    (hstep : ∀ s e, S.enabled s e → I s → I (S.step s e) ∧ μ (S.step s e) ≤ μ s + 1) (hs : I s)
    (hN : μ s + es.length ≤ N) : Legal S (fun s _ => μ s < N) s es := by
  induction es generalizing s with
  | nil => trivial
  | cons e es ih =>
    obtain ⟨henabled, -, hrest⟩ := h
    obtain ⟨hinv, hle⟩ := hstep s e henabled hs
    rw [List.length_cons] at hN
    exact ⟨henabled, by omega, ih hrest hinv (by omega)⟩

/-- **The exactness rule**, in an environment that keeps `guard`: the runs that keep `Q` in all
their states are the runs whose steps all meet `ok`. Such steps keep `P`, which gives `Q`, and from
a state with `P` no other step leads to one with `Q`. -/
theorem Legal.forall_take_iff {guard : σ → ε → Prop} {P Q : σ → Prop} {es : List ε}
    (h : Legal S guard s es)
    (hkeep : ∀ s e, S.enabled s e → guard s e → P s → ok s e → P (S.step s e))
    (hmeet : ∀ s e, S.enabled s e → guard s e → P s → Q (S.step s e) → ok s e)
    (hgive : ∀ s, P s → Q s) (hp : P s) :
    (∀ n, Q (S.exec s (es.take n))) ↔ Legal S ok s es := by
  induction es generalizing s with
  | nil =>
    refine iff_of_true ?_ trivial
    intro n
    rw [List.take_nil]
    exact hgive s hp
  | cons e es ih =>
    obtain ⟨henabled, hguard, hrest⟩ := h
    constructor
    · intro hrun
      have hok : ok s e := hmeet s e henabled hguard hp (hrun 1)
      refine ⟨henabled, hok, (ih hrest (hkeep s e henabled hguard hp hok)).mp ?_⟩
      intro n
      exact hrun (n + 1)
    · rintro ⟨-, hok, hlegal⟩ n
      cases n with
      | zero => exact hgive s hp
      | succ n => exact (ih hrest (hkeep s e henabled hguard hp hok)).mpr hlegal n

theorem forall_take_iff {I P Q : σ → Prop} (hinv : ∀ s e, S.enabled s e → I s → I (S.step s e))
    (hkeep : ∀ s e, S.enabled s e → I s → P s → ok s e → P (S.step s e))
    (hmeet : ∀ s e, S.enabled s e → I s → P s → Q (S.step s e) → ok s e)
    (hgive : ∀ s, P s → Q s) {es : List ε} (h : Legal S Free s es) (hs : I s) (hp : P s) :
    (∀ n, Q (S.exec s (es.take n))) ↔ Legal S ok s es :=
  ((h.invariant (fun s e en _ => hinv s e en) hs).mono fun _ _ hi => hi.1).forall_take_iff
    hkeep hmeet hgive hp

theorem forall_take_iff_of_step {I P : σ → Prop}
    (hinv : ∀ s e, S.enabled s e → I s → I (S.step s e))
    (hstep : ∀ s e, S.enabled s e → I s → P s → (P (S.step s e) ↔ ok s e)) {es : List ε}
    (h : Legal S Free s es) (hs : I s) (hp : P s) :
    (∀ n, P (S.exec s (es.take n))) ↔ Legal S ok s es :=
  forall_take_iff hinv (fun s e en hi hp => (hstep s e en hi hp).mpr)
    (fun s e en hi hp => (hstep s e en hi hp).mp) (fun _ hp => hp) h hs hp

/-! ## Leaving out events -/

def without (S : System σ ε) (idle : σ → ε → Prop) [∀ s e, Decidable (idle s e)] :
    σ → List ε → List ε
  | _, [] => []
  | s, e :: es =>
    if idle s e then without S idle (S.step s e) es else e :: without S idle (S.step s e) es

/-- **Events that change nothing can be left out.** -/
theorem Legal.exec_without {idle : σ → ε → Prop} [∀ s e, Decidable (idle s e)] {es : List ε}
    (h : Legal S (fun s e => idle s e → S.step s e = s) s es) :
    S.exec s (S.without idle s es) = S.exec s es := by
  induction es generalizing s with
  | nil => rfl
  | cons e es ih =>
    obtain ⟨-, hidle, hrest⟩ := h
    have hexec : S.exec s (e :: es) = S.exec (S.step s e) es := rfl
    rw [without, hexec, ← ih hrest]
    split_ifs with hskip
    · rw [hidle hskip]
    · rfl

end System

/-! ## Histories -/

theorem append_singleton_eq {α : Type u} {events before after : List α} {e e' : α}
    (h : events ++ [e] = before ++ e' :: after) :
    (after = [] ∧ events = before ∧ e = e') ∨
      ∃ after', after = after' ++ [e] ∧ events = before ++ e' :: after' := by
  rcases List.eq_nil_or_concat after with rfl | ⟨after', x, rfl⟩
  · obtain ⟨rfl, hlast⟩ := List.append_inj' h rfl
    cases hlast
    exact .inl ⟨rfl, rfl, rfl⟩
  · rw [List.concat_eq_append, ← List.cons_append, ← List.append_assoc] at h
    obtain ⟨rfl, hlast⟩ := List.append_inj' h rfl
    cases hlast
    exact .inr ⟨after', List.concat_eq_append, rfl⟩
