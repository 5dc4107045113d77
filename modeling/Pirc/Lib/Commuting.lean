import Mathlib.Tactic

/-!
# Machines whose inputs commute

A machine takes one input after another, and puts something out at each. Two inputs commute when it
does not matter which of them comes first, neither for what is put out at them nor for what comes
later. A stable sort of the inputs that exchanges only inputs which commute changes none of the
outputs.

## Main results

* `mergeSort_eq_insertionSort`: two stable sorts
* `Machine.outputs_mergeSort`: a sort that exchanges only inputs which commute
-/

universe u v w

/-! ## Stable sorts -/

section Sorts

variable {α : Type u} {r : α → α → Prop} [DecidableRel r] {a : α} {l₁ l₂ : List α}

theorem orderedInsert_append (h₁ : ∀ b ∈ l₁, ¬ r a b) (h₂ : ∀ b ∈ l₂, r a b) :
    (l₁ ++ l₂).orderedInsert r a = l₁ ++ a :: l₂ := by
  induction l₁ with
  | nil =>
    rcases l₂ with - | ⟨b, l₂⟩
    · rfl
    · simp [h₂ b List.mem_cons_self]
  | cons b l₁ ih =>
    have hrest := ih fun c hc => h₁ c (List.mem_cons_of_mem _ hc)
    simp [h₁ b List.mem_cons_self, hrest]

/-- Both sorts are stable, so that they agree also where elements are equally large. -/
theorem mergeSort_eq_insertionSort (trans : ∀ a b c, r a b → r b c → r a c)
    (total : ∀ a b, r a b ∨ r b a) (l : List α) :
    l.mergeSort (fun a b => decide (r a b)) = l.insertionSort r := by
  have htrans (a b c : α) (hab : decide (r a b)) (hbc : decide (r b c)) : decide (r a c) :=
    decide_eq_true (trans a b c (of_decide_eq_true hab) (of_decide_eq_true hbc))
  have htotal (a b : α) : decide (r a b) || decide (r b a) := by simpa using total a b
  induction l with
  | nil => simp
  | cons a l ih =>
    obtain ⟨l₁, l₂, hsort, hrest, hless⟩ := List.mergeSort_cons htrans htotal a l
    have hsorted := List.pairwise_mergeSort htrans htotal (a :: l)
    rw [hsort] at hsorted
    have hle : ∀ b ∈ l₂, r a b := by
      simpa using (List.pairwise_cons.mp (List.pairwise_append.mp hsorted).2.1).1
    rw [List.insertionSort_cons, ← ih, hrest, hsort, orderedInsert_append (by simpa using hless) hle]

end Sorts

/-! ## Machines -/

/-- A machine: its next state, and what it puts out. -/
structure Machine (σ : Type u) (α : Type v) (β : Type w) where
  next : σ → α → σ
  out : σ → α → β

namespace Machine

variable {σ : Type u} {α : Type v} {β : Type w} (M : Machine σ α β)

/-- The inputs, with what is put out at each. -/
def outputs : σ → List α → List (α × β)
  | _, [] => []
  | s, a :: l => (a, M.out s a) :: outputs (M.next s a) l

/-- States that are alike stay alike, and the same is put out at them. -/
structure Respects (r : σ → σ → Prop) : Prop where
  next {s t : σ} (h : r s t) (a : α) : r (M.next s a) (M.next t a)
  out {s t : σ} (h : r s t) (a : α) : M.out s a = M.out t a

/-- **Two inputs commute.** -/
structure Commutes (r : σ → σ → Prop) (a b : α) : Prop where
  next (s : σ) : r (M.next (M.next s a) b) (M.next (M.next s b) a)
  left (s : σ) : M.out (M.next s b) a = M.out s a
  right (s : σ) : M.out (M.next s a) b = M.out s b

variable {M} {r : σ → σ → Prop} {s t : σ} {a : α} {l l₁ l₂ : List α}

theorem outputs_congr (hr : M.Respects r) (h : r s t) : M.outputs s l = M.outputs t l := by
  induction l generalizing s t with
  | nil => rfl
  | cons a l ih => rw [outputs, outputs, hr.out h, ih (hr.next h a)]

theorem outputs_middle (hr : M.Respects r) (h : ∀ b ∈ l₁, M.Commutes r a b) :
    (M.outputs s (l₁ ++ a :: l₂)).Perm (M.outputs s (a :: (l₁ ++ l₂))) := by
  induction l₁ generalizing s with
  | nil => exact .refl _
  | cons b l₁ ih =>
    have hfirst := h b List.mem_cons_self
    have hrest := ih (s := M.next s b) fun b hb => h b (List.mem_cons_of_mem _ hb)
    have hswap : M.outputs s (b :: a :: (l₁ ++ l₂)) =
        (b, M.out s b) :: (a, M.out s a) :: M.outputs (M.next (M.next s a) b) (l₁ ++ l₂) := by
      rw [outputs, outputs, hfirst.left, outputs_congr hr (hfirst.next s)]
    have hback : M.outputs s (a :: b :: (l₁ ++ l₂)) =
        (a, M.out s a) :: (b, M.out s b) :: M.outputs (M.next (M.next s a) b) (l₁ ++ l₂) := by
      rw [outputs, outputs, hfirst.right]
    calc M.outputs s (b :: (l₁ ++ a :: l₂))
        = (b, M.out s b) :: M.outputs (M.next s b) (l₁ ++ a :: l₂) := rfl
      _ |>.Perm ((b, M.out s b) :: M.outputs (M.next s b) (a :: (l₁ ++ l₂))) := hrest.cons _
      _ |>.Perm (M.outputs s (a :: b :: (l₁ ++ l₂))) := by
        rw [hback]
        exact .trans (.of_eq hswap) (List.Perm.swap ..)

/-- **A stable sort** that exchanges only inputs which commute: each input is where the sort has put
it, with what was put out at it before. -/
theorem outputs_mergeSort {le : α → α → Bool} (hr : M.Respects r)
    (trans : ∀ a b c, le a b → le b c → le a c) (total : ∀ a b, le a b || le b a)
    (h : l.Pairwise fun a b => le a b = false → M.Commutes r a b) :
    (M.outputs s (l.mergeSort le)).Perm (M.outputs s l) := by
  induction l generalizing s with
  | nil => simp [outputs]
  | cons a l ih =>
    obtain ⟨hfirst, hrest⟩ := List.pairwise_cons.mp h
    obtain ⟨l₁, l₂, hsort, hsorted, hless⟩ := List.mergeSort_cons trans total a l
    have hcommutes (b : α) (hb : b ∈ l₁) : M.Commutes r a b := by
      have hmem : b ∈ l := List.mem_mergeSort.mp (hsorted ▸ List.mem_append_left l₂ hb)
      exact hfirst b hmem (by simpa using hless b hb)
    rw [hsort]
    refine (outputs_middle hr hcommutes).trans ?_
    rw [← hsorted]
    exact (ih hrest).cons _

end Machine
