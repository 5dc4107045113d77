import Mathlib.Tactic

/-!
# Computations that fail and keep their state

Rules for what a computation of `EStateM` leaves behind, whether it returns or throws. A throw
keeps the changes made before it, so a handler that fails half-way is judged by the state it fails
in.

## Main results

* `wp_bind`, `wp_get`, `wp_set`, `wp_modify`, `wp_pure`: the rules, one for each construct
* `wp_mono`: weaker conclusions
* `run_bind_ok`, `run_bind_error`, `run_bind_eq_ok`: a single run, part by part
* `Within.bind`, `within_modify`, …: a frame relation holds of a computation when it holds of its
  parts
* `Together.bind`, `together_get`, …: two computations run alike when their parts do
* `Except.bind_eq_ok`, `Except.exists_ok`: a sequence of checks that passes, a call that succeeds
-/

universe u

variable {ε σ α β : Type u}

/-- Run from `s`, the computation returns in `Q` or throws in `E`. -/
def wp (x : EStateM ε σ α) (Q : α → σ → Prop) (E : ε → σ → Prop) (s : σ) : Prop :=
  match x.run s with
  | .ok a s' => Q a s'
  | .error e s' => E e s'

section Rules

variable {Q Q' : α → σ → Prop} {E E' : ε → σ → Prop} {s : σ}

theorem wp_mono {x : EStateM ε σ α} (hQ : ∀ a s', Q a s' → Q' a s')
    (hE : ∀ e s', E e s' → E' e s') (h : wp x Q E s) : wp x Q' E' s := by
  unfold wp at h ⊢
  cases hrun : x.run s with
  | ok a s' =>
    rw [hrun] at h
    exact hQ a s' h
  | error e s' =>
    rw [hrun] at h
    exact hE e s' h

theorem wp_ok {x : EStateM ε σ α} {a : α} {s' : σ} (h : wp x Q E s) (hrun : x.run s = .ok a s') :
    Q a s' := by
  unfold wp at h
  rwa [hrun] at h

theorem wp_error {x : EStateM ε σ α} {e : ε} {s' : σ} (h : wp x Q E s)
    (hrun : x.run s = .error e s') : E e s' := by
  unfold wp at h
  rwa [hrun] at h

@[simp] theorem wp_pure (a : α) : wp (pure a) Q E s ↔ Q a s := Iff.rfl

@[simp] theorem wp_bind (x : EStateM ε σ β) (f : β → EStateM ε σ α) :
    wp (x >>= f) Q E s ↔ wp x (fun b => wp (f b) Q E) E s := by
  unfold wp
  rw [EStateM.run_bind]
  cases x.run s <;> rfl

@[simp] theorem wp_get {Q : σ → σ → Prop} : wp (get : EStateM ε σ σ) Q E s ↔ Q s s := Iff.rfl

@[simp] theorem wp_set {Q : PUnit → σ → Prop} (s' : σ) :
    wp (set s' : EStateM ε σ PUnit) Q E s ↔ Q ⟨⟩ s' := Iff.rfl

@[simp] theorem wp_modify {Q : PUnit → σ → Prop} (f : σ → σ) :
    wp (modify f : EStateM ε σ PUnit) Q E s ↔ Q ⟨⟩ (f s) := Iff.rfl

@[simp] theorem wp_ite (c : Prop) [Decidable c] (x y : EStateM ε σ α) :
    wp (if c then x else y) Q E s ↔ if c then wp x Q E s else wp y Q E s := by
  split_ifs <;> rfl

end Rules

/-! ## Single runs -/

section Runs

variable {s s' : σ}

theorem run_bind_ok {x : EStateM ε σ β} {f : β → EStateM ε σ α} {b : β}
    (h : x.run s = .ok b s') : (x >>= f).run s = (f b).run s' := by
  rw [EStateM.run_bind, h]

theorem run_bind_error {x : EStateM ε σ β} {f : β → EStateM ε σ α} {e : ε}
    (h : x.run s = .error e s') : (x >>= f).run s = .error e s' := by
  rw [EStateM.run_bind, h]

theorem run_bind_eq_ok {x : EStateM ε σ β} {f : β → EStateM ε σ α} {a : α} :
    (x >>= f).run s = .ok a s' ↔ ∃ b t, x.run s = .ok b t ∧ (f b).run t = .ok a s' := by
  rw [EStateM.run_bind]
  cases hrun : x.run s with
  | ok b t => simp
  | error e t => simp

end Runs

/-! ## Frames -/

/-- Wherever the computation stops, it leaves a state related to the one it started in. -/
def Within (R : σ → σ → Prop) (x : EStateM ε σ α) : Prop :=
  ∀ s, wp x (fun _ s' => R s s') (fun _ s' => R s s') s

/-- The states agree in a part. -/
def Unchanged {γ : Type u} (part : σ → γ) (s s' : σ) : Prop := part s' = part s

instance {γ : Type u} (part : σ → γ) : Std.Refl (Unchanged part) := ⟨fun _ => rfl⟩

instance {γ : Type u} (part : σ → γ) : IsTrans σ (Unchanged part) := ⟨fun _ _ _ h h' => h'.trans h⟩

section Within

variable {R : σ → σ → Prop}

theorem within_modify {f : σ → σ} (h : ∀ s, R s (f s)) :
    Within R (modify f : EStateM ε σ PUnit) := h

theorem within_pure [Std.Refl R] (a : α) : Within R (pure a : EStateM ε σ α) := by
  intro s
  rw [wp_pure]
  exact Std.Refl.refl s

theorem within_get {x : σ → EStateM ε σ α}
    (h : ∀ s, wp (x s) (fun _ s' => R s s') (fun _ s' => R s s') s) : Within R (get >>= x) := h

/-- A computation that starts a step later is still related to where the step started. -/
theorem Within.resume [IsTrans σ R] {x : EStateM ε σ α} {s₀ s : σ} (h : Within R x)
    (hfirst : R s₀ s) : wp x (fun _ s' => R s₀ s') (fun _ s' => R s₀ s') s := by
  refine wp_mono ?_ ?_ (h s)
  · intro a s' hrest
    exact IsTrans.trans _ _ _ hfirst hrest
  · intro e s' hrest
    exact IsTrans.trans _ _ _ hfirst hrest

theorem Within.bind [IsTrans σ R] {x : EStateM ε σ β} {f : β → EStateM ε σ α} (hx : Within R x)
    (hf : ∀ b, Within R (f b)) : Within R (x >>= f) := by
  intro s
  rw [wp_bind]
  refine wp_mono ?_ (fun _ _ h => h) (hx s)
  intro b s' hfirst
  exact (hf b).resume hfirst

theorem Within.ok {x : EStateM ε σ α} {s s' : σ} {a : α} (h : Within R x)
    (hrun : x.run s = .ok a s') : R s s' := by
  have hok := wp_ok (h s) hrun
  exact hok

theorem Within.error {x : EStateM ε σ α} {s s' : σ} {e : ε} (h : Within R x)
    (hrun : x.run s = .error e s') : R s s' := by
  have herror := wp_error (h s) hrun
  exact herror

end Within

/-! ## Two runs -/

section Together

variable {τ : Type u} {R : σ → τ → Prop} {s : σ} {t : τ}

/-- Run from `s` and `t`, both computations return the same or throw the same, in related states. -/
def Together (R : σ → τ → Prop) (x : EStateM ε σ α) (y : EStateM ε τ α) (s : σ) (t : τ) : Prop :=
  match x.run s, y.run t with
  | .ok a s', .ok b t' => a = b ∧ R s' t'
  | .error e s', .error e' t' => e = e' ∧ R s' t'
  | _, _ => False

theorem together_pure (a : α) (h : R s t) :
    Together R (pure a : EStateM ε σ α) (pure a : EStateM ε τ α) s t := ⟨rfl, h⟩

theorem together_throw (e : ε) (h : R s t) :
    Together R (throw e : EStateM ε σ α) (throw e : EStateM ε τ α) s t := ⟨rfl, h⟩

theorem together_get {x : σ → EStateM ε σ α} {y : τ → EStateM ε τ α} :
    Together R (get >>= x) (get >>= y) s t ↔ Together R (x s) (y t) s t := Iff.rfl

theorem Together.bind {x : EStateM ε σ β} {y : EStateM ε τ β} {f : β → EStateM ε σ α}
    {g : β → EStateM ε τ α} (hx : Together R x y s t)
    (hf : ∀ b s' t', R s' t' → Together R (f b) (g b) s' t') :
    Together R (x >>= f) (y >>= g) s t := by
  unfold Together at hx ⊢
  rw [EStateM.run_bind, EStateM.run_bind]
  cases hfirst : x.run s with
  | ok b s' =>
    cases hsecond : y.run t with
    | ok b' t' =>
      rw [hfirst, hsecond] at hx
      obtain ⟨rfl, hrelated⟩ := hx
      exact hf b s' t' hrelated
    | error e t' =>
      rw [hfirst, hsecond] at hx
      exact hx.elim
  | error e s' =>
    cases hsecond : y.run t with
    | ok b t' =>
      rw [hfirst, hsecond] at hx
      exact hx.elim
    | error e' t' =>
      rw [hfirst, hsecond] at hx
      exact hx

theorem Together.cases {x : EStateM ε σ α} {y : EStateM ε τ α} (h : Together R x y s t) :
    (∃ a s' t', x.run s = .ok a s' ∧ y.run t = .ok a t' ∧ R s' t') ∨
      ∃ e s' t', x.run s = .error e s' ∧ y.run t = .error e t' ∧ R s' t' := by
  unfold Together at h
  split at h
  · next a s' b t' hfirst hsecond =>
    obtain ⟨rfl, hrelated⟩ := h
    exact .inl ⟨a, s', t', hfirst, hsecond, hrelated⟩
  · next e s' e' t' hfirst hsecond =>
    obtain ⟨rfl, hrelated⟩ := h
    exact .inr ⟨e, s', t', hfirst, hsecond, hrelated⟩
  · exact h.elim

end Together

/-! ## Checks -/

theorem Except.bind_eq_ok {x : Except ε α} {f : α → Except ε β} {b : β} :
    (x >>= f) = .ok b ↔ ∃ a, x = .ok a ∧ f a = .ok b := by
  constructor
  · intro h
    cases x with
    | error e => cases h
    | ok a => exact ⟨a, rfl, h⟩
  · rintro ⟨a, rfl, h⟩
    exact h

section Decided

variable {x : Except ε α} {p : α → Prop} [DecidablePred p]

/-- A call that succeeds, and what is decided of its result. -/
theorem Except.exists_ok (h : x.toOption.any (fun a => decide (p a)) = true) : ∃ a, x = .ok a ∧ p a := by
  cases x with
  | error e => cases h
  | ok a => exact ⟨a, rfl, of_decide_eq_true h⟩

theorem Except.of_ok {a : α} (hx : x = .ok a) (h : x.toOption.any (fun a => decide (p a)) = true) :
    p a := by
  obtain rfl := hx
  exact of_decide_eq_true h

end Decided
