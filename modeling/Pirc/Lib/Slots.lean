import Mathlib.Data.Finset.Card
import Mathlib.Data.Finset.Image
import Mathlib.Data.List.AList

/-!
# Items in a table

A table of keys and values that holds a set of items, each under the slot it belongs to. Distinct
items have distinct slots, so storing one keeps the others.

## Main results

* `Stores.insert`, `Stores.erase`: storing and removing an item
* `Stores.lookup_eq_none`, `Stores.length_le`: what the table does not hold, and how much it holds
-/

universe u v w

variable {ι : Type u} {κ : Type v} {α : Type w} [DecidableEq κ]

/-- **The table holds the items**: each is found under its slot, with a value that is right for it,
and there is nothing else in the table. -/
structure Stores (slot : ι → κ) (ok : ι → α → Prop) (table : AList fun _ : κ => α)
    (items : Finset ι) : Prop where
  lookup : ∀ i ∈ items, ∃ a, table.lookup (slot i) = some a ∧ ok i a
  mem : ∀ k ∈ table, ∃ i ∈ items, slot i = k

namespace Stores

variable {slot : ι → κ} {ok : ι → α → Prop} {table : AList fun _ : κ => α} {items : Finset ι} {i : ι}

theorem empty (slot : ι → κ) (ok : ι → α → Prop) : Stores slot ok ∅ ∅ where
  lookup i hi := by simp at hi
  mem k hk := by simp at hk

theorem lookup_eq_none (h : Stores slot ok table items) {k : κ} (hk : ∀ i ∈ items, slot i ≠ k) :
    table.lookup k = none := by
  rw [AList.lookup_eq_none]
  intro hmem
  obtain ⟨i, hi, heq⟩ := h.mem k hmem
  exact hk i hi heq

theorem length_le (h : Stores slot ok table items) : table.keys.length ≤ items.card := by
  have hsub : table.keys.toFinset ⊆ items.image slot := by
    intro k hk
    rw [List.mem_toFinset, ← AList.mem_keys] at hk
    simpa using h.mem k hk
  calc table.keys.length = table.keys.toFinset.card :=
        (List.toFinset_card_of_nodup table.keys_nodup).symm
    _ ≤ (items.image slot).card := Finset.card_le_card hsub
    _ ≤ items.card := Finset.card_image_le

variable [DecidableEq ι]

/-- **Storing an item** keeps the others, whose slots are different. -/
theorem insert (h : Stores slot ok table items) (hslot : ∀ j ∈ items, slot j = slot i → j = i)
    {a : α} (ha : ok i a) : Stores slot ok (table.insert (slot i) a) (insert i items) where
  lookup j hj := by
    rcases Finset.mem_insert.mp hj with rfl | hmem
    · exact ⟨a, AList.lookup_insert table, ha⟩
    · by_cases heq : slot j = slot i
      · -- only the item itself has this slot
        obtain rfl := hslot j hmem heq
        exact ⟨a, AList.lookup_insert table, ha⟩
      · rw [AList.lookup_insert_ne heq]
        exact h.lookup j hmem
  mem k hk := by
    rcases (AList.mem_insert table).mp hk with rfl | hmem
    · exact ⟨i, Finset.mem_insert_self i items, rfl⟩
    · obtain ⟨j, hj, rfl⟩ := h.mem k hmem
      exact ⟨j, Finset.mem_insert_of_mem hj, rfl⟩

/-- **Removing an item** keeps the others. -/
theorem erase (h : Stores slot ok table items) (hslot : ∀ j ∈ items, slot j = slot i → j = i) :
    Stores slot ok (table.erase (slot i)) (items.erase i) where
  lookup j hj := by
    obtain ⟨hne, hmem⟩ := Finset.mem_erase.mp hj
    have hother : slot j ≠ slot i := fun heq => hne (hslot j hmem heq)
    rw [AList.lookup_erase_ne hother]
    exact h.lookup j hmem
  mem k hk := by
    obtain ⟨hne, hmem⟩ := (AList.mem_erase).mp hk
    obtain ⟨j, hj, rfl⟩ := h.mem k hmem
    have hother : j ≠ i := by
      rintro rfl
      exact hne rfl
    exact ⟨j, Finset.mem_erase.mpr ⟨hother, hj⟩, rfl⟩

end Stores
