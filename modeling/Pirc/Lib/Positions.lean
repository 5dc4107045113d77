import Mathlib.Tactic

/-!
# Positions of elements in lists that change

Where an element is once another one is taken out of its list, or is moved within it.

## Main results

* `getElem?_erasedTo`, `getElem?_movedTo`: **the element is found at its new position**
* `moveIdx_perm`: the elements are the same
-/

universe u

variable {α : Type u} {l : List α} {index start stop i : ℕ}

/-- Where the element at a position is once the one at `index` is taken out. -/
def erasedTo (index i : ℕ) : ℕ := if index < i then i - 1 else i

theorem getElem?_erasedTo (l : List α) (h : i ≠ index) : (l.eraseIdx index)[erasedTo index i]? = l[i]? := by
  unfold erasedTo
  rw [List.getElem?_eraseIdx]
  split_ifs with hlt hlt' hlt'
  · omega
  · congr 1
    omega
  · rfl
  · omega

/-- The list with one element moved. -/
def moveIdx (l : List α) (start stop : ℕ) : List α :=
  match l[start]? with
  | some a => (l.eraseIdx start).insertIdx stop a
  | none => l

/-- The new position of an element, once one is moved. -/
def movedTo (start stop i : ℕ) : ℕ :=
  if i = start then stop
  else if start < stop then if start < i ∧ i ≤ stop then i - 1 else i
  else if stop ≤ i ∧ i < start then i + 1
  else i

theorem movedTo_lt {n : ℕ} (hstart : start < n) (hstop : stop < n) (hi : i < n) :
    movedTo start stop i < n := by
  unfold movedTo
  split_ifs <;> omega

theorem moveIdx_eq (h : start < l.length) :
    moveIdx l start stop = (l.eraseIdx start).insertIdx stop l[start] := by
  rw [moveIdx, List.getElem?_eq_getElem h]

/-- **The element is found at its new position.** -/
theorem getElem?_movedTo (hstart : start < l.length) (hstop : stop < l.length) (hi : i < l.length) :
    (moveIdx l start stop)[movedTo start stop i]? = l[i]? := by
  have hlength := List.length_eraseIdx_of_lt hstart
  rw [moveIdx_eq hstart, List.getElem?_insertIdx]
  by_cases heq : i = start
  · subst heq
    rw [movedTo, if_pos rfl, if_neg (lt_irrefl _), if_pos rfl, if_pos (by omega), List.getElem?_eq_getElem]
  · have hne : movedTo start stop i ≠ stop := by
      unfold movedTo
      split_ifs <;> omega
    -- in the list without the moved element, the position is the one that skips it
    have hbelow : movedTo start stop i < stop → movedTo start stop i = erasedTo start i := by
      unfold movedTo erasedTo
      split_ifs <;> omega
    have habove : stop < movedTo start stop i → movedTo start stop i - 1 = erasedTo start i := by
      unfold movedTo erasedTo
      split_ifs <;> omega
    split_ifs with hlt
    · rw [hbelow hlt, getElem?_erasedTo l heq]
    · rw [habove (by omega), getElem?_erasedTo l heq]

/-- **The elements are the same** where the positions are in the list. -/
theorem moveIdx_perm (hstart : start < l.length) (hstop : stop < l.length) :
    (moveIdx l start stop).Perm l := by
  have hlength := List.length_eraseIdx_of_lt hstart
  rw [moveIdx_eq hstart]
  exact (List.perm_insertIdx _ _ (by omega)).trans (List.getElem_cons_eraseIdx_perm hstart)

theorem length_moveIdx (hstart : start < l.length) (hstop : stop < l.length) :
    (moveIdx l start stop).length = l.length :=
  (moveIdx_perm hstart hstop).length_eq

theorem head?_moveIdx (hstart : 0 < start) (hstop : 0 < stop) (hlt : start < l.length) :
    (moveIdx l start stop).head? = l.head? := by
  rw [moveIdx_eq hlt, List.head?_eq_getElem?, List.head?_eq_getElem?,
    List.getElem?_insertIdx_of_lt hstop, List.getElem?_eraseIdx_of_lt hstart]
