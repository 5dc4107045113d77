import Pirc.Lib.Outcome

/-!
# Reading slices at offsets

A decoder that keeps an offset by hand takes parts of a slice by their bounds, and panics where a
bound is out of range. Here a panic is an error of its own kind, so that a decoder can be shown
never to panic: each part it takes is in range because of a length that it checked before.

## Main results

* `Calm.bind`, `calm_slice`, `calm_word`, …: the rules for decoders that do not panic
* `StandsAt.split`, `StandsAt.slice_eq`, `StandsAt.word_eq`: what was written is read where it
  stands
* `slice_eq_ok`, `items_eq_ok`, `word_eq_ok`: what is read where the bounds are in range
-/

universe u v

/-- Errors that can be panics. -/
class Panics (ε : Type u) where
  panicked : String → ε

open Panics

section Reading

variable {ε : Type u} [Panics ε] {α : Type v}

/-- `bytes[start..end]`. -/
def slice (xs : List α) (start stop : ℕ) : Except ε (List α) :=
  if stop < start then .error (panicked "slice index starts after its end")
  else if xs.length < stop then .error (panicked "range end index out of range for slice")
  else .ok ((xs.drop start).take (stop - start))

/-- `bytes[i]`. -/
def item (xs : List α) (i : ℕ) : Except ε α :=
  match xs[i]? with
  | some x => .ok x
  | none => .error (panicked "index out of bounds")

/-- Exactly so many items. -/
def exactly (n : ℕ) (xs : List α) : Except ε { ys : List α // ys.length = n } :=
  if h : xs.length = n then .ok ⟨xs, h⟩
  else .error (panicked "source slice length does not match destination slice length")

/-- How many items there are from an offset on. -/
def remaining (xs : List α) (offset : ℕ) : Except ε ℕ :=
  if xs.length < offset then .error (panicked "attempt to subtract with overflow")
  else .ok (xs.length - offset)

/-- So many items from an offset on. -/
def word (n : ℕ) (xs : List α) (offset : ℕ) : Except ε { ys : List α // ys.length = n } := do
  let part ← slice xs offset (offset + n)
  exactly n part

/-- So many items from an offset on, read one by one. -/
def items : ℕ → List α → ℕ → Except ε (List α)
  | 0, _, _ => .ok []
  | n + 1, xs, offset => do
    let x ← item xs offset
    let rest ← items n xs (offset + 1)
    return x :: rest

end Reading

/-! ## Bounds in range -/

section InRange

variable {ε : Type u} [Panics ε] {α : Type v} {xs : List α} {n offset : ℕ}

theorem slice_eq_ok {start stop : ℕ} (hle : start ≤ stop) (hstop : stop ≤ xs.length) :
    slice xs start stop = (.ok ((xs.drop start).take (stop - start)) : Except ε (List α)) := by
  rw [slice, if_neg (not_lt.mpr hle), if_neg (not_lt.mpr hstop)]

theorem item_eq_ok {i : ℕ} (h : i < xs.length) : item xs i = (.ok xs[i] : Except ε α) := by
  rw [item, List.getElem?_eq_getElem h]

theorem remaining_eq_ok (h : offset ≤ xs.length) :
    remaining xs offset = (.ok (xs.length - offset) : Except ε ℕ) := by
  rw [remaining, if_neg (not_lt.mpr h)]

theorem exactly_eq_ok (h : xs.length = n) :
    exactly n xs = (.ok ⟨xs, h⟩ : Except ε { ys : List α // ys.length = n }) := dif_pos h

theorem length_take_drop (h : offset + n ≤ xs.length) : ((xs.drop offset).take n).length = n := by
  rw [List.length_take, List.length_drop]
  omega

theorem word_eq_ok (h : offset + n ≤ xs.length) :
    word n xs offset = (.ok ⟨(xs.drop offset).take n, length_take_drop h⟩ :
      Except ε { ys : List α // ys.length = n }) := by
  have hslice : slice xs offset (offset + n) =
      (.ok ((xs.drop offset).take n) : Except ε (List α)) := by
    rw [slice_eq_ok (Nat.le_add_right ..) h, Nat.add_sub_cancel_left]
  rw [word, hslice]
  exact exactly_eq_ok _

theorem items_eq_ok (h : offset + n ≤ xs.length) :
    items n xs offset = (.ok ((xs.drop offset).take n) : Except ε (List α)) := by
  induction n generalizing offset with
  | zero => rfl
  | succ n ih =>
    have hlt : offset < xs.length := by omega
    have hrest := @ih (offset + 1) (by omega)
    rw [List.drop_eq_getElem_cons hlt, List.take_succ_cons, items, item_eq_ok hlt, hrest]
    rfl

end InRange

/-! ## Decoders that do not panic -/

section Calm

variable {ε : Type u} [Panics ε] {α β : Type v} {Q Q' : α → Prop} {xs : List α} {n offset : ℕ}

/-- **The computation does not panic**: it returns something in `Q`, or fails with another error. -/
def Calm (Q : α → Prop) (x : Except ε α) : Prop :=
  match x with
  | .ok a => Q a
  | .error e => ∀ text, e ≠ panicked text

theorem Calm.ne_panicked {x : Except ε α} (h : Calm Q x) (text : String) :
    x ≠ .error (panicked text) := by
  rintro rfl
  exact h text rfl

theorem Calm.of_ok {x : Except ε α} {a : α} (h : Calm Q x) (hx : x = .ok a) : Q a := by
  subst hx
  exact h

theorem calm_ok {a : α} (h : Q a) : Calm Q (.ok a : Except ε α) := h

theorem calm_pure {a : α} (h : Q a) : Calm Q (pure a : Except ε α) := h

theorem calm_error {e : ε} (h : ∀ text, e ≠ panicked text) : Calm Q (.error e : Except ε α) := h

/-- **The rule for sequences.** -/
theorem Calm.bind {P : β → Prop} {x : Except ε β} {f : β → Except ε α} (hx : Calm P x)
    (hf : ∀ b, P b → Calm Q (f b)) : Calm Q (x >>= f) := by
  cases x with
  | ok b => exact hf b hx
  | error e => exact hx

theorem calm_ite {c : Prop} [Decidable c] {x y : Except ε α} (hx : c → Calm Q x)
    (hy : ¬ c → Calm Q y) : Calm Q (if c then x else y) := by
  split_ifs with h
  · exact hx h
  · exact hy h

theorem calm_slice {start stop : ℕ} (hle : start ≤ stop) (hstop : stop ≤ xs.length) :
    Calm (fun part => part.length = stop - start) (slice xs start stop : Except ε (List α)) := by
  unfold slice
  rw [if_neg (not_lt.mpr hle), if_neg (not_lt.mpr hstop)]
  refine calm_ok ?_
  rw [List.length_take, List.length_drop]
  omega

theorem calm_item {i : ℕ} (h : i < xs.length) :
    Calm (fun _ => True) (item xs i : Except ε α) := by
  unfold item
  rw [List.getElem?_eq_getElem h]
  exact calm_ok trivial

theorem calm_exactly (h : xs.length = n) :
    Calm (fun _ => True) (exactly n xs : Except ε { ys : List α // ys.length = n }) := by
  unfold exactly
  rw [dif_pos h]
  exact calm_ok trivial

theorem calm_remaining (h : offset ≤ xs.length) :
    Calm (fun rest => rest = xs.length - offset) (remaining xs offset : Except ε ℕ) := by
  unfold remaining
  rw [if_neg (not_lt.mpr h)]
  exact calm_ok rfl

theorem calm_word (h : offset + n ≤ xs.length) :
    Calm (fun _ => True) (word n xs offset : Except ε { ys : List α // ys.length = n }) := by
  refine (calm_slice (Nat.le_add_right ..) h).bind fun part hpart => calm_exactly ?_
  rw [hpart]
  omega

end Calm

/-! ## What was written -/

section StandsAt

variable {ε : Type u} [Panics ε] {α : Type v} {xs part next : List α} {n offset : ℕ}

def StandsAt (xs : List α) (offset : ℕ) (part : List α) : Prop :=
  ∃ before after, xs = before ++ part ++ after ∧ before.length = offset

theorem standsAt_self (xs : List α) : StandsAt xs 0 xs := ⟨[], [], by simp, rfl⟩

/-- **Two parts in a row** stand one behind the other. -/
theorem StandsAt.split (h : StandsAt xs offset (part ++ next)) (hpart : part.length = n) :
    StandsAt xs offset part ∧ StandsAt xs (offset + n) next := by
  obtain ⟨before, after, rfl, rfl⟩ := h
  refine ⟨⟨before, next ++ after, by simp only [List.append_assoc], rfl⟩,
    ⟨before ++ part, after, by simp only [List.append_assoc], ?_⟩⟩
  rw [List.length_append, hpart]

theorem StandsAt.le (h : StandsAt xs offset part) : offset + part.length ≤ xs.length := by
  obtain ⟨before, after, rfl, rfl⟩ := h
  simp only [List.length_append]
  omega

theorem StandsAt.slice_eq (h : StandsAt xs offset part) (hpart : part.length = n) :
    slice xs offset (offset + n) = (.ok part : Except ε (List α)) := by
  have hle := h.le
  obtain ⟨before, after, rfl, rfl⟩ := h
  unfold slice
  rw [if_neg (by omega), if_neg (by omega), List.append_assoc, List.drop_left,
    Nat.add_sub_cancel_left, ← hpart, List.take_left]

theorem StandsAt.word_eq (h : StandsAt xs offset part) (hpart : part.length = n) :
    word n xs offset = (.ok ⟨part, hpart⟩ : Except ε { ys : List α // ys.length = n }) := by
  unfold word
  rw [h.slice_eq hpart]
  exact dif_pos hpart

end StandsAt
