import Mathlib.Tactic

/-!
# Parsers that may fail

A parser goes from one position to the next with a value, or stops with an error. `none` stands for
a parser that was cut off before either. What a sequence of parsers does is put together from what
each of them does at the position where it starts.

## Main results

* `Returns.bind`, `Returns.bind_fails`, `Fails.bind`: sequences of parsers
* `Leads.bind`, `leads_get_bind`: where sequences of parsers lead
-/

universe u

/-- Parsers over positions `σ`, with errors `ε`. -/
abbrev Parse (σ ε : Type u) := StateT σ (ExceptT ε Option)

namespace Parse

variable {σ ε α β : Type u} {x : Parse σ ε α} {f : α → Parse σ ε β} {p q r : σ} {a : α} {b : β} {e : ε}

def fail (e : ε) : Parse σ ε α := fun _ => some (.error e)

def cutOff : Parse σ ε α := fun _ => none

/-- **The parser returns** a value and the position where it ends. -/
def Returns (x : Parse σ ε α) (p : σ) (a : α) (q : σ) : Prop := x p = some (.ok (a, q))

/-- **The parser stops** with an error. -/
def Fails (x : Parse σ ε α) (p : σ) (e : ε) : Prop := x p = some (.error e)

theorem returns_pure (a : α) (p : σ) : Returns (pure a : Parse σ ε α) p a p := rfl

theorem returns_get (p : σ) : Returns (get : Parse σ ε σ) p p p := rfl

/-! ## Sequences -/

theorem bind_apply (x : Parse σ ε α) (f : α → Parse σ ε β) (p : σ) :
    (x >>= f) p =
      match x p with
      | some (.ok (a, q)) => f a q
      | some (.error e) => some (.error e)
      | none => none := by
  rcases hx : x p with - | e | ⟨a, q⟩ <;>
    simp [bind, StateT.bind, ExceptT.bind, ExceptT.mk, ExceptT.bindCont, pure, hx]

theorem bind_eq (h : Returns x p a q) : (x >>= f) p = f a q := by
  rw [bind_apply, show x p = some (.ok (a, q)) from h]

theorem Returns.bind (hx : Returns x p a q) (hf : Returns (f a) q b r) :
    Returns (x >>= f) p b r :=
  (bind_eq hx).trans hf

theorem Returns.bind_fails (hx : Returns x p a q) (hf : Fails (f a) q e) : Fails (x >>= f) p e :=
  (bind_eq hx).trans hf

theorem Fails.bind (hx : Fails x p e) : Fails (x >>= f) p e := by
  rw [Fails, bind_apply, show x p = some (.error e) from hx]

/-! ## A parser does one thing -/

theorem Returns.not_fails (h : Returns x p a q) : ¬ Fails x p e := by
  intro hfails
  cases h.symm.trans hfails

theorem returns_bind_iff :
    Returns (x >>= f) p b r ↔ ∃ a q, Returns x p a q ∧ Returns (f a) q b r := by
  unfold Returns
  rw [bind_apply]
  rcases x p with - | e | ⟨a, q⟩
  · exact ⟨nofun, fun ⟨_, _, h, _⟩ => nomatch h⟩
  · exact ⟨nofun, fun ⟨_, _, h, _⟩ => nomatch h⟩
  · constructor
    · intro h
      exact ⟨a, q, rfl, h⟩
    · rintro ⟨_, _, heq, h⟩
      cases heq
      exact h

/-! ## Where a parser leads -/

/-- **Where the parser returns**, it is at a position in this relation to the first one. -/
def Leads (R : σ → σ → Prop) (x : Parse σ ε α) : Prop := ∀ p a q, Returns x p a q → R p q

section Leads

variable {R : σ → σ → Prop}

theorem leads_fail (e : ε) : Leads R (fail e : Parse σ ε α) := fun _ _ _ h => nomatch h

theorem leads_cutOff : Leads R (cutOff : Parse σ ε α) := fun _ _ _ h => nomatch h

theorem leads_modify {f : σ → σ} (h : ∀ p, R p (f p)) : Leads R (modify f : Parse σ ε PUnit) := by
  intro p a q hreturns
  cases hreturns
  exact h p

theorem leads_get_bind {f : σ → Parse σ ε α} (h : ∀ p, Leads R (f p)) :
    Leads R ((get : Parse σ ε σ) >>= f) := by
  intro p b r hreturns
  obtain ⟨q, q', hget, hf⟩ := returns_bind_iff.mp hreturns
  cases hget
  exact h p p b r hf

theorem Leads.ite {c : Prop} [Decidable c] {y : Parse σ ε α} (hx : Leads R x) (hy : Leads R y) :
    Leads R (if c then x else y) := by
  split_ifs
  · exact hx
  · exact hy

theorem leads_pure [Std.Refl R] (a : α) : Leads R (pure a : Parse σ ε α) := by
  intro p b q hreturns
  cases hreturns
  exact Std.Refl.refl p

theorem Leads.bind [IsTrans σ R] (hx : Leads R x) (hf : ∀ a, Leads R (f a)) : Leads R (x >>= f) := by
  intro p b r hreturns
  obtain ⟨a, q, hfirst, hsecond⟩ := returns_bind_iff.mp hreturns
  exact IsTrans.trans _ _ _ (hx p a q hfirst) (hf a q b r hsecond)

end Leads

end Parse
