import Mathlib.Logic.Function.Basic

/-!
# Threads with shared state

Threads that run programs of atomic steps over one shared state. Each thread is in some phase of its
program; a step of a thread changes the shared state and its own phase, and nothing else.

## Main results

* `Threads.forall_advance`: what a step has to keep for all threads to stay well
-/

universe u v w

/-- The shared state, and the phase of each thread. -/
structure Threads (τ : Type u) (σ : Type v) (π : Type w) where
  shared : σ
  phase : τ → π

namespace Threads

variable {τ : Type u} {σ : Type v} {π : Type w} [DecidableEq τ]

def advance (ts : Threads τ σ π) (t : τ) (s : σ) (p : π) : Threads τ σ π :=
  ⟨s, Function.update ts.phase t p⟩

variable {ts : Threads τ σ π} {t u : τ} {s : σ} {p : π}

@[simp] theorem phase_advance_self : (ts.advance t s p).phase t = p := Function.update_self ..

theorem phase_advance_of_ne (h : u ≠ t) : (ts.advance t s p).phase u = ts.phase u :=
  Function.update_of_ne h ..

/-- **Freedom from interference**: a step keeps every thread well if the thread itself is well after
it and all others still are, each in the phase it was in. -/
theorem forall_advance {W : σ → τ → π → Prop} (hown : W s t p)
    (hothers : ∀ u, u ≠ t → W s u (ts.phase u)) (u : τ) :
    W (ts.advance t s p).shared u ((ts.advance t s p).phase u) := by
  by_cases hu : u = t
  · subst hu
    rw [phase_advance_self]
    exact hown
  · rw [phase_advance_of_ne hu]
    exact hothers u hu

end Threads
