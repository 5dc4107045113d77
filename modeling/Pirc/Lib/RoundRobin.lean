import Mathlib.Tactic

/-!
# Round robin

Items are dealt out to targets in turn.

## Main results

* `map_fst_roundRobin`: every item is dealt out, once and in order
* `dealt_iff`: targets in order are used from the smallest on, as many as there are items
-/

variable {α β : Type*}

/-- Deal out items in turn; without targets nothing is dealt out. -/
def roundRobin (targets : List α) (items : List β) : List (β × α) :=
  items.zipIdx.filterMap fun item =>
    targets[item.2 % targets.length]?.map fun target => (item.1, target)

namespace RoundRobin

theorem isSome_turn {targets : List α} (h : targets ≠ []) (i : ℕ) :
    ∃ target, targets[i % targets.length]? = some target := by
  have hlt : i % targets.length < targets.length :=
    Nat.mod_lt i (List.length_pos_iff.mpr h)
  exact ⟨_, List.getElem?_eq_getElem hlt⟩

/-- **Every item is dealt out, once and in order.** -/
theorem map_fst_roundRobin {targets : List α} (h : targets ≠ []) (items : List β) :
    (roundRobin targets items).map Prod.fst = items := by
  have hall : ∀ k, ((items.zipIdx k).filterMap fun item =>
      targets[item.2 % targets.length]?.map fun target => (item.1, target)).map Prod.fst =
        items := by
    induction items with
    | nil => intro k; rfl
    | cons item items ih =>
      intro k
      obtain ⟨target, htarget⟩ := isSome_turn h k
      have hhead : targets[(item, k).2 % targets.length]?.map
          (fun target => ((item, k).1, target)) = some (item, target) := by
        rw [htarget]
        rfl
      rw [List.zipIdx_cons, List.filterMap_cons, hhead, List.map_cons, ih (k + 1)]
  exact hall 0

theorem exists_mem_roundRobin {targets : List α} {items : List β} {target : α} :
    (∃ item, (item, target) ∈ roundRobin targets items) ↔
      ∃ i < items.length, targets[i % targets.length]? = some target := by
  constructor
  · rintro ⟨item, hmem⟩
    obtain ⟨⟨item', i⟩, hitem, hturn⟩ := List.mem_filterMap.mp hmem
    obtain ⟨target', htarget, heq⟩ := Option.map_eq_some_iff.mp hturn
    obtain ⟨-, rfl⟩ := Prod.mk.inj heq
    exact ⟨i, (List.mem_zipIdx' hitem).1, htarget⟩
  · rintro ⟨i, hi, htarget⟩
    refine ⟨items[i], List.mem_filterMap.mpr ⟨(items[i], i), ?_, ?_⟩⟩
    · exact List.mk_mem_zipIdx_iff_getElem?.mpr (List.getElem?_eq_getElem hi)
    · rw [htarget]
      rfl

variable [LinearOrder α]

theorem eq_filter_append {l : List α} (h : l.Pairwise (· ≤ ·)) (a : α) :
    l = l.filter (· < a) ++ l.filter (a ≤ ·) := by
  induction l with
  | nil => rfl
  | cons x l ih =>
    obtain ⟨hx, hl⟩ := List.pairwise_cons.mp h
    rcases lt_or_ge x a with hlt | hge
    · have hnot : ¬ a ≤ x := not_le.mpr hlt
      rw [List.filter_cons_of_pos (by simpa using hlt), List.filter_cons_of_neg (by simpa using hnot),
        List.cons_append, ← ih hl]
    · -- nothing after `x` is smaller than `a` either
      have hnone : (x :: l).filter (· < a) = [] := by
        refine List.filter_eq_nil_iff.mpr fun y hy => ?_
        rcases List.mem_cons.mp hy with rfl | hy
        · simpa using hge
        · simpa using hge.trans (hx y hy)
      have hall : (x :: l).filter (a ≤ ·) = x :: l := by
        refine List.filter_eq_self.mpr fun y hy => ?_
        rcases List.mem_cons.mp hy with rfl | hy
        · simpa using hge
        · simpa using hge.trans (hx y hy)
      rw [hnone, hall, List.nil_append]

/-- **Targets in order are used from the smallest on**: a target is used exactly if there are fewer
smaller ones than items. -/
theorem dealt_iff {targets : List α} (h : targets.Pairwise (· ≤ ·)) {items : List β} {target : α} :
    (∃ item, (item, target) ∈ roundRobin targets items) ↔
      target ∈ targets ∧ targets.countP (· < target) < items.length := by
  rw [exists_mem_roundRobin]
  have hsplit := eq_filter_append h target
  have hget? : ∀ j : ℕ, targets[j]? =
      (targets.filter (· < target) ++ targets.filter (target ≤ ·))[j]? :=
    fun j => congrArg (·[j]?) hsplit
  have hcount : (targets.filter (· < target)).length = targets.countP (· < target) :=
    List.countP_eq_length_filter.symm
  constructor
  · rintro ⟨i, hi, hturn⟩
    obtain ⟨hlt, hget⟩ := List.getElem?_eq_some_iff.mp hturn
    refine ⟨List.mem_of_getElem? hturn, ?_⟩
    have hle : targets.countP (· < target) ≤ i % targets.length := by
      by_contra hnot
      have hmem : targets[i % targets.length] ∈ targets.filter (· < target) := by
        have hlt' : i % targets.length < (targets.filter (· < target)).length := by omega
        have hsame : targets[i % targets.length]? =
            (targets.filter (· < target))[i % targets.length]? :=
          (hget? _).trans (List.getElem?_append_left hlt')
        rw [hturn] at hsame
        rw [hget]
        exact List.mem_of_getElem? hsame.symm
      rw [hget] at hmem
      simpa using (List.mem_filter.mp hmem).2
    exact (hle.trans (Nat.mod_le _ _)).trans_lt hi
  · rintro ⟨hmem, hlt⟩
    refine ⟨targets.countP (· < target), hlt, ?_⟩
    -- the first of those that are not smaller is the target itself
    obtain ⟨x, rest, hrest⟩ : ∃ x rest, targets.filter (target ≤ ·) = x :: rest :=
      List.exists_cons_of_ne_nil (List.ne_nil_of_mem (List.mem_filter.mpr ⟨hmem, by simp⟩))
    have hx : x = target := by
      have hsorted : (targets.filter (target ≤ ·)).Pairwise (· ≤ ·) := h.filter _
      have hge : target ≤ x := by
        have hxmem : x ∈ targets.filter (target ≤ ·) := hrest ▸ List.mem_cons_self
        simpa using (List.mem_filter.mp hxmem).2
      have hin : target ∈ x :: rest := hrest ▸ List.mem_filter.mpr ⟨hmem, by simp⟩
      rcases List.mem_cons.mp hin with heq | hin
      · exact heq.symm
      · rw [hrest] at hsorted
        exact le_antisymm ((List.pairwise_cons.mp hsorted).1 target hin) hge
    have hget : targets[targets.countP (· < target)]? = some target := by
      rw [hget?, ← hcount, List.getElem?_append_right le_rfl, Nat.sub_self, hrest, hx]
      rfl
    have hlen : targets.countP (· < target) < targets.length :=
      (List.getElem?_eq_some_iff.mp hget).1
    rw [Nat.mod_eq_of_lt hlen, hget]

end RoundRobin
