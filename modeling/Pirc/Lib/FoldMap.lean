import Mathlib.Data.List.Nodup
import Mathlib.Tactic

/-!
# Maps that compare keys through a fold

A hash map whose keys are equal when a fold of them is: two keys with one fold, such as two casings
of a name, are one key, and the map keeps the one it was given first. The entries stand in the
order the map is iterated in.

## Main results

* `FoldMap.lookup_insert`, `FoldMap.lookup_remove`, `FoldMap.lookup_modify`: what they do to lookups
* `FoldMap.lookup_eq_some`: lookups and entries
* `FoldMap.values_perm_of_get`, `FoldMap.values_insert_perm`: the values, one key at a time
* `FoldMap.modify_modify`, `FoldMap.assign_assign`: writes at keys that are there, made twice
-/

universe u v w

variable {κ : Type u} {ι : Type v} {ν : Type w} [DecidableEq ι]

/-- **A map with folded keys**: no two of its keys have one fold. -/
structure FoldMap (fold : κ → ι) (ν : Type w) where
  entries : List (κ × ν)
  nodup : (entries.map fun e => fold e.1).Nodup

namespace FoldMap

variable {fold : κ → ι}

def empty : FoldMap fold ν := ⟨[], List.nodup_nil⟩

instance : EmptyCollection (FoldMap fold ν) := ⟨empty⟩

/-- The value at a folded key. -/
def lookup (m : FoldMap fold ν) (i : ι) : Option ν :=
  (m.entries.find? fun e => fold e.1 = i).map Prod.snd

def get (m : FoldMap fold ν) (k : κ) : Option ν := m.lookup (fold k)

def contains (m : FoldMap fold ν) (k : κ) : Bool := (m.get k).isSome

def keys (m : FoldMap fold ν) : List κ := m.entries.map Prod.fst

def values (m : FoldMap fold ν) : List ν := m.entries.map Prod.snd

def isEmpty (m : FoldMap fold ν) : Bool := m.entries.isEmpty

def length (m : FoldMap fold ν) : ℕ := m.entries.length

def setAt (fold : κ → ι) (i : ι) (v : ν) (e : κ × ν) : κ × ν :=
  if fold e.1 = i then (e.1, v) else e

theorem fold_setAt (i : ι) (v : ν) (e : κ × ν) :
    fold (setAt fold i v e).1 = fold e.1 := by
  unfold setAt
  split_ifs
  · rfl
  · rfl

theorem lookup_eq_none {m : FoldMap fold ν} {i : ι} :
    m.lookup i = none ↔ ∀ e ∈ m.entries, fold e.1 ≠ i := by
  simp [lookup, List.find?_eq_none]

/-- Insert a value. A key that is there already stays as it is and gets the new value. -/
def insert (m : FoldMap fold ν) (k : κ) (v : ν) : FoldMap fold ν :=
  match h : m.lookup (fold k) with
  | some _ =>
    ⟨m.entries.map (setAt fold (fold k) v), by
      simpa [List.map_map, Function.comp_def, fold_setAt] using m.nodup⟩
  | none =>
    ⟨(k, v) :: m.entries, by
      rw [List.map_cons, List.nodup_cons]
      refine ⟨?_, m.nodup⟩
      rw [List.mem_map]
      rintro ⟨e, he, hfold⟩
      exact lookup_eq_none.mp h e he hfold⟩

/-- Remove a key. -/
def remove (m : FoldMap fold ν) (k : κ) : FoldMap fold ν :=
  ⟨m.entries.filter fun e => fold e.1 ≠ fold k, m.nodup.sublist (List.filter_sublist.map _)⟩

/-- Change the value at a key. -/
def modify (m : FoldMap fold ν) (k : κ) (f : ν → ν) : FoldMap fold ν :=
  match m.get k with
  | some v => m.insert k (f v)
  | none => m

/-- Change all values. -/
def mapValues (m : FoldMap fold ν) (f : ν → ν) : FoldMap fold ν :=
  ⟨m.entries.map fun e => (e.1, f e.2), by
    simpa [List.map_map, Function.comp_def] using m.nodup⟩

/-- Keep the entries whose value passes a test. -/
def retain (m : FoldMap fold ν) (p : ν → Bool) : FoldMap fold ν :=
  ⟨m.entries.filter fun e => p e.2, m.nodup.sublist (List.filter_sublist.map _)⟩

/-! ## Lookups -/

section Lookups

variable {m : FoldMap fold ν} {k : κ} {i : ι} {v : ν}

@[simp] theorem lookup_empty (i : ι) : (∅ : FoldMap fold ν).lookup i = none := rfl

@[simp] theorem get_empty (k : κ) : (∅ : FoldMap fold ν).get k = none := rfl

theorem lookup_eq_some : m.lookup i = some v ↔ ∃ k, fold k = i ∧ (k, v) ∈ m.entries := by
  constructor
  · intro h
    obtain ⟨e, hfind, rfl⟩ := Option.map_eq_some_iff.mp h
    have hfold : fold e.1 = i := by simpa using List.find?_some hfind
    exact ⟨e.1, hfold, List.mem_of_find?_eq_some hfind⟩
  · rintro ⟨k, rfl, hmem⟩
    unfold lookup
    cases hfind : m.entries.find? fun e => fold e.1 = fold k with
    | none =>
      have hne : fold k ≠ fold k := by simpa using List.find?_eq_none.mp hfind _ hmem
      exact absurd rfl hne
    | some e =>
      -- the entry that is found has the same fold, and no other entry has it
      have hfold : fold e.1 = fold k := by simpa using List.find?_some hfind
      have heq : e = (k, v) :=
        List.inj_on_of_nodup_map m.nodup (List.mem_of_find?_eq_some hfind) hmem hfold
      rw [heq]
      rfl

theorem get_eq_some : m.get k = some v ↔ ∃ k', fold k' = fold k ∧ (k', v) ∈ m.entries :=
  lookup_eq_some

theorem get_of_mem {e : κ × ν} (h : e ∈ m.entries) : m.get e.1 = some e.2 :=
  get_eq_some.mpr ⟨e.1, rfl, h⟩

theorem contains_iff : m.contains k = true ↔ ∃ v, m.get k = some v := by
  rw [contains, Option.isSome_iff_exists]

theorem contains_eq_false : m.contains k = false ↔ m.get k = none := by
  rw [contains, Option.isSome_eq_false_iff, Option.isNone_iff_eq_none]

theorem isEmpty_iff : m.isEmpty = true ↔ ∀ i, m.lookup i = none := by
  rw [isEmpty, List.isEmpty_iff]
  constructor
  · intro h i
    simp [lookup, h]
  · intro h
    rw [List.eq_nil_iff_forall_not_mem]
    intro e he
    have hnone : m.get e.1 = none := h _
    rw [get_of_mem he] at hnone
    cases hnone

theorem exists_lookup_of_not_isEmpty (h : ¬ m.isEmpty) : ∃ i v, m.lookup i = some v := by
  rw [isEmpty_iff] at h
  push Not at h
  obtain ⟨i, hi⟩ := h
  obtain ⟨v, hv⟩ := Option.ne_none_iff_exists'.mp hi
  exact ⟨i, v, hv⟩

theorem exists_mem_keys : (∃ k' ∈ m.keys, fold k' = i) ↔ ∃ v, m.lookup i = some v := by
  constructor
  · rintro ⟨k', hk', rfl⟩
    obtain ⟨e, he, rfl⟩ := List.mem_map.mp hk'
    exact ⟨e.2, get_of_mem he⟩
  · rintro ⟨v, hv⟩
    obtain ⟨k', hfold, hmem⟩ := lookup_eq_some.mp hv
    exact ⟨k', List.mem_map_of_mem hmem, hfold⟩

theorem exists_mem_values {p : ν → Prop} :
    (∃ v ∈ m.values, p v) ↔ ∃ i v, m.lookup i = some v ∧ p v := by
  constructor
  · rintro ⟨v, hv, hp⟩
    obtain ⟨e, he, rfl⟩ := List.mem_map.mp hv
    exact ⟨fold e.1, e.2, get_of_mem he, hp⟩
  · rintro ⟨i, v, hv, hp⟩
    obtain ⟨k', -, hmem⟩ := lookup_eq_some.mp hv
    exact ⟨v, List.mem_map_of_mem hmem, hp⟩

theorem remove_congr {k' : κ} (h : fold k = fold k') : m.remove k = m.remove k' := by
  simp only [remove, h]

end Lookups

/-! ## Operations -/

section Operations

variable (m : FoldMap fold ν) (k : κ) (i : ι) (v : ν)

theorem lookup_insert :
    (m.insert k v).lookup i = if fold k = i then some v else m.lookup i := by
  unfold insert
  split
  · next old hold =>
    unfold lookup at hold ⊢
    rw [List.find?_map]
    have hcomp : ((fun e : κ × ν => decide (fold e.1 = i)) ∘ setAt fold (fold k) v) =
        fun e => decide (fold e.1 = i) := by
      funext e
      simp [fold_setAt]
    rw [hcomp]
    cases hfind : m.entries.find? fun e => fold e.1 = i with
    | none =>
      have hne : fold k ≠ i := by
        rintro rfl
        rw [hfind] at hold
        cases hold
      simp [hne]
    | some e =>
      have hfold : fold e.1 = i := by simpa using List.find?_some hfind
      split_ifs with hi
      · simp [setAt, hfold, hi]
      · simp [setAt, hfold, Ne.symm hi]
  · unfold lookup
    by_cases hi : fold k = i
    · simp [hi]
    · simp [hi]

theorem lookup_remove :
    (m.remove k).lookup i = if fold k = i then none else m.lookup i := by
  unfold remove lookup
  rw [List.find?_filter]
  split_ifs with hi
  · simp [hi]
  · congr 2
    funext e
    by_cases he : fold e.1 = i
    · simp [he, Ne.symm hi]
    · simp [he]

theorem lookup_modify (f : ν → ν) :
    (m.modify k f).lookup i = if fold k = i then (m.lookup i).map f else m.lookup i := by
  unfold modify
  split
  · next old hold =>
    rw [lookup_insert]
    split_ifs with hi
    · rw [get, hi] at hold
      rw [hold]
      rfl
    · rfl
  · next hnone =>
    split_ifs with hi
    · rw [get, hi] at hnone
      rw [hnone]
      rfl
    · rfl

theorem lookup_mapValues (f : ν → ν) : (m.mapValues f).lookup i = (m.lookup i).map f := by
  unfold mapValues lookup
  rw [List.find?_map, Option.map_map, Option.map_map]
  rfl

theorem lookup_retain (p : ν → Bool) : (m.retain p).lookup i = (m.lookup i).filter p := by
  apply Option.ext
  intro v
  rw [Option.filter_eq_some_iff, lookup_eq_some, lookup_eq_some]
  simp only [retain, List.mem_filter]
  constructor
  · rintro ⟨k, hk, hmem, hp⟩
    exact ⟨⟨k, hk, hmem⟩, hp⟩
  · rintro ⟨⟨k, hk, hmem⟩, hp⟩
    exact ⟨k, hk, hmem, hp⟩

/-! A key that is new adds one entry, and removing a key that is there takes one away. -/

theorem length_insert_of_get_eq_none {m : FoldMap fold ν} {k : κ} (h : m.get k = none) (v : ν) :
    (m.insert k v).length = m.length + 1 := by
  unfold insert
  split
  · next old hold =>
    rw [get, hold] at h
    cases h
  · rfl

theorem length_remove_of_get_eq_some {m : FoldMap fold ν} {k : κ} {v : ν} (h : m.get k = some v) :
    (m.remove k).length + 1 = m.length := by
  obtain ⟨k', hfold, hmem⟩ := get_eq_some.mp h
  unfold remove length
  -- the entries are the one at the key and those that stay
  have hcount : m.entries.countP (fun e => fold e.1 = fold k) = 1 := by
    rw [← hfold]
    have hmap : (m.entries.map fun e => fold e.1).count (fold k') = 1 :=
      List.count_eq_one_of_mem m.nodup (List.mem_map_of_mem hmem)
    rw [List.count_eq_countP, List.countP_map] at hmap
    rw [← hmap]
    apply List.countP_congr
    intro e _
    simp
  have hsplit := List.length_eq_countP_add_countP (fun e : κ × ν => decide (fold e.1 = fold k))
    (l := m.entries)
  rw [hcount] at hsplit
  rw [hsplit, ← List.countP_eq_length_filter, Nat.add_comm]
  simp

theorem length_modify (f : ν → ν) : (m.modify k f).length = m.length := by
  unfold modify
  split
  · next old hold =>
    unfold insert
    split
    · exact List.length_map _
    · next hnone =>
      rw [get, hnone] at hold
      cases hold
  · rfl

@[simp] theorem get_insert_self : (m.insert k v).get k = some v := by
  rw [get, lookup_insert, if_pos rfl]

/-! What the operations do to the values at a key. -/

variable (k' : κ)

theorem get_insert : (m.insert k v).get k' = if fold k = fold k' then some v else m.get k' :=
  lookup_insert ..

theorem get_remove : (m.remove k).get k' = if fold k = fold k' then none else m.get k' :=
  lookup_remove ..

theorem get_modify (f : ν → ν) :
    (m.modify k f).get k' = if fold k = fold k' then (m.get k').map f else m.get k' :=
  lookup_modify ..

end Operations

/-! ## The values of a map -/

section Values

variable {m : FoldMap fold ν} {k : κ} {v : ν}

theorem perm_cons_filter {entries : List (κ × ν)} (hnodup : (entries.map fun e => fold e.1).Nodup)
    {e : κ × ν} (he : e ∈ entries) :
    entries.Perm (e :: entries.filter fun e' => fold e'.1 ≠ fold e.1) := by
  induction entries with
  | nil => cases he
  | cons e' entries ih =>
    obtain ⟨hnew, hnodup⟩ := List.nodup_cons.mp hnodup
    rcases List.mem_cons.mp he with rfl | he
    · have hkeep : (entries.filter fun e' => fold e'.1 ≠ fold e.1) = entries := by
        refine List.filter_eq_self.mpr fun e' he' => decide_eq_true ?_
        intro hfold
        exact hnew (List.mem_map.mpr ⟨e', he', hfold⟩)
      rw [List.filter_cons, if_neg (by simp), hkeep]
    · have hne : fold e'.1 ≠ fold e.1 := by
        intro hfold
        exact hnew (List.mem_map.mpr ⟨e, he, hfold.symm⟩)
      rw [List.filter_cons, if_pos (decide_eq_true hne)]
      exact ((ih hnodup he).cons e').trans (.swap ..)

/-- **The values of a map** are the one at a key and those at the other keys. -/
theorem values_perm_of_get (h : m.get k = some v) : m.values.Perm (v :: (m.remove k).values) := by
  obtain ⟨k', hfold, hmem⟩ := get_eq_some.mp h
  have hperm := (perm_cons_filter m.nodup hmem).map Prod.snd
  simp only [hfold] at hperm
  exact hperm

theorem remove_of_get_eq_none (h : m.get k = none) : m.remove k = m := by
  rcases m with ⟨entries, hnodup⟩
  simp only [remove, mk.injEq]
  exact List.filter_eq_self.mpr fun e he => decide_eq_true (lookup_eq_none.mp h e he)

theorem remove_insert : (m.insert k v).remove k = m.remove k := by
  unfold insert
  split
  · simp only [remove, mk.injEq, List.filter_map]
    have hcomp : ((fun e : κ × ν => decide (fold e.1 ≠ fold k)) ∘ setAt fold (fold k) v) =
        fun e => decide (fold e.1 ≠ fold k) := by
      funext e
      simp [fold_setAt]
    rw [hcomp]
    refine (List.map_congr_left (g := id) fun e he => ?_).trans (List.map_id _)
    exact if_neg (of_decide_eq_true (List.mem_filter.mp he).2)
  · simp [remove]

theorem values_insert_perm : (m.insert k v).values.Perm (v :: (m.remove k).values) := by
  have hperm := values_perm_of_get (get_insert_self m k v)
  rwa [remove_insert] at hperm

theorem values_perm_of_lookup_eq {m m' : FoldMap fold ν} (h : ∀ i, m.lookup i = m'.lookup i) :
    m.values.Perm m'.values := by
  -- an entry, as the fold of its key and its value, is what is found at the fold
  have hmem : ∀ (m : FoldMap fold ν) (i : ι) (v : ν),
      (i, v) ∈ m.entries.map (fun e => (fold e.1, e.2)) ↔ m.lookup i = some v := by
    intro m i v
    rw [lookup_eq_some, List.mem_map]
    constructor
    · rintro ⟨e, he, heq⟩
      cases heq
      exact ⟨e.1, rfl, he⟩
    · rintro ⟨k, rfl, he⟩
      exact ⟨(k, v), he, rfl⟩
  have hnodup : ∀ m : FoldMap fold ν, (m.entries.map fun e => (fold e.1, e.2)).Nodup := by
    intro m
    refine List.Nodup.of_map Prod.fst ?_
    rw [List.map_map]
    exact m.nodup
  have hperm : (m.entries.map fun e => (fold e.1, e.2)).Perm (m'.entries.map fun e => (fold e.1, e.2)) := by
    rw [List.perm_ext_iff_of_nodup (hnodup m) (hnodup m')]
    rintro ⟨i, v⟩
    rw [hmem, hmem, h]
  have hvalues := hperm.map Prod.snd
  rwa [List.map_map, List.map_map] at hvalues

end Values

/-! ## Writes at keys that are there

Such writes keep the keys and their order, so that they are equations of maps and not only of
lookups.
-/

section Writes

variable {m : FoldMap fold ν} {k : κ} {v : ν}

omit [DecidableEq ι] in
theorem ext_entries {m m' : FoldMap fold ν} (h : m.entries = m'.entries) : m = m' := by
  cases m
  cases m'
  cases h
  rfl

theorem entries_modify (m : FoldMap fold ν) (k : κ) (f : ν → ν) :
    (m.modify k f).entries =
      m.entries.map fun e => if fold e.1 = fold k then (e.1, f e.2) else e := by
  unfold modify
  cases hget : m.get k with
  | some v =>
    dsimp only
    unfold insert
    split
    · apply List.map_congr_left
      intro e he
      unfold setAt
      split_ifs with hfold
      · -- the entry holds the value that the key has
        have hv := get_of_mem he
        rw [get, hfold, ← get, hget] at hv
        cases hv
        rfl
      · rfl
    · next hnone =>
      rw [get, hnone] at hget
      cases hget
  | none =>
    dsimp only
    symm
    refine (List.map_congr_left (g := id) ?_).trans (List.map_id _)
    intro e he
    exact if_neg (lookup_eq_none.mp hget e he)

theorem modify_modify (m : FoldMap fold ν) (k : κ) (f g : ν → ν) :
    (m.modify k f).modify k g = m.modify k fun v => g (f v) := by
  apply ext_entries
  rw [entries_modify, entries_modify, entries_modify, List.map_map]
  apply List.map_congr_left
  intro e _
  dsimp only [Function.comp]
  split_ifs
  · rfl
  · rfl

theorem modify_of_fixed {f : ν → ν} (h : ∀ v, m.get k = some v → f v = v) : m.modify k f = m := by
  apply ext_entries
  rw [entries_modify]
  refine (List.map_congr_left (g := id) ?_).trans (List.map_id _)
  intro e he
  split_ifs with hfold
  · have hget : m.get k = some e.2 := by
      rw [get, ← hfold]
      exact get_of_mem he
    rw [h e.2 hget]
    rfl
  · rfl

theorem insert_of_get (h : m.get k = some v) : m.insert k v = m := by
  have hmodify : m.modify k (fun _ => v) = m := by
    apply modify_of_fixed
    intro w hw
    rw [h] at hw
    exact Option.some_inj.mp hw
  unfold modify at hmodify
  rw [h] at hmodify
  exact hmodify

/-- Give values to those of the keys that are there, one after the other. -/
def assign (m : FoldMap fold ν) (changes : List (κ × ν)) : FoldMap fold ν :=
  changes.foldl (fun m c => m.modify c.1 fun _ => c.2) m

def lastAssigned (fold : κ → ι) : List (κ × ν) → κ → Option ν
  | [], _ => none
  | c :: changes, k =>
    (lastAssigned fold changes k).or (if fold k = fold c.1 then some c.2 else none)

theorem entries_assign (m : FoldMap fold ν) (changes : List (κ × ν)) :
    (m.assign changes).entries =
      m.entries.map fun e => (e.1, (lastAssigned fold changes e.1).getD e.2) := by
  induction changes generalizing m with
  | nil => exact (List.map_id _).symm
  | cons c changes ih =>
    have hcons : m.assign (c :: changes) = (m.modify c.1 fun _ => c.2).assign changes := rfl
    rw [hcons, ih, entries_modify, List.map_map]
    apply List.map_congr_left
    intro e _
    dsimp only [Function.comp, lastAssigned]
    split_ifs with hfold
    · cases lastAssigned fold changes e.1 with
      | some v => rfl
      | none => rfl
    · rw [Option.or_none]

/-- **Assigning twice is assigning once.** -/
theorem assign_assign (m : FoldMap fold ν) (changes : List (κ × ν)) :
    (m.assign changes).assign changes = m.assign changes := by
  apply ext_entries
  rw [entries_assign, entries_assign, List.map_map]
  apply List.map_congr_left
  intro e _
  dsimp only [Function.comp]
  cases lastAssigned fold changes e.1 with
  | some v => rfl
  | none => rfl

end Writes

end FoldMap
