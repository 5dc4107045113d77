import Pirc.P2p.Ice

/-!
# P2P: candidate pairs

`connectivity.rs`: both agents pair their own candidates with those of the peer and check the pairs.
Each nominates the pair of highest priority among those that succeeded. What a check sends is not
modelled, only how it ends.
-/

namespace Pirc.P2p

open Net Protocol

/-! ## Pairs -/

/-- The part of an agent: the initiator controls, the responder is controlled. -/
inductive IceRole
  | controlling
  | controlled
  deriving DecidableEq

inductive PairState
  | waiting
  | inProgress
  | succeeded
  | failed
  deriving DecidableEq

structure CandidatePair where
  «local» : IceCandidate
  remote : IceCandidate
  state : PairState
  priority : UInt64
  deriving DecidableEq

/-- The priority of a pair; sums wrap around, as in a release build. -/
def computePairPriority (localPriority remotePriority : UInt32) (role : IceRole) : UInt64 :=
  let (g, d) :=
    match role with
    | .controlling => (localPriority.toUInt64, remotePriority.toUInt64)
    | .controlled => (remotePriority.toUInt64, localPriority.toUInt64)
  ((1 : UInt64) <<< 32) * min g d + 2 * max g d + if d < g then 1 else 0

def CandidatePair.new («local» remote : IceCandidate) (role : IceRole) : CandidatePair where
  «local» := «local»
  remote := remote
  state := .waiting
  priority := computePairPriority «local».priority remote.priority role

/-- The pairs of an agent in the order of their priorities. -/
def formPairs («local» remote : List IceCandidate) (role : IceRole) : List CandidatePair :=
  («local».flatMap fun l => remote.map fun r => CandidatePair.new l r role).mergeSort
    fun a b => b.priority ≤ a.priority

/-! ## Checks -/

def maxByKey {α κ : Type} [LT κ] [DecidableLT κ] (key : α → κ) : List α → Option α
  | [] => none
  | x :: xs => some (xs.foldl (fun best y => if key y < key best then best else y) x)

structure ConnectivityChecker where
  pairs : List CandidatePair
  deriving DecidableEq

namespace ConnectivityChecker

def new («local» remote : List IceCandidate) (role : IceRole) : ConnectivityChecker where
  pairs := formPairs «local» remote role

/-- The pair an agent nominates. -/
def nominatedPair (checker : ConnectivityChecker) : Option CandidatePair :=
  maxByKey (·.priority) (checker.pairs.filter (·.state = .succeeded))

def setState (checker : ConnectivityChecker) (i : ℕ) (state : PairState) : ConnectivityChecker where
  pairs := checker.pairs.modify i fun pair => { pair with state := state }

/-- The checks from pair `i` on: how each one ends that begins within the budget. -/
def checkFrom (checker : ConnectivityChecker) (i : ℕ) : List Bool → ConnectivityChecker
  | [] => checker
  | succeeds :: outcomes =>
    if i < checker.pairs.length then
      ((checker.setState i .inProgress).setState i
        (if succeeds then .succeeded else .failed)).checkFrom (i + 1) outcomes
    else checker

def runChecks (checker : ConnectivityChecker) (outcomes : List Bool) :
    ConnectivityChecker × Except P2pError CandidatePair :=
  if checker.pairs = [] then (checker, .error (.ice "no candidate pairs to check"))
  else
    let checker := checker.checkFrom 0 outcomes
    (checker, match checker.nominatedPair with
      | some pair => .ok pair
      | none => .error (.ice "all connectivity checks failed"))

end ConnectivityChecker

/-! ## Priorities of pairs -/

/-- The priority of a pair from those of the controlling and of the controlled candidate. -/
def pairCode (g d : ℕ) : ℕ := 2 ^ 32 * min g d + 2 * max g d + if d < g then 1 else 0

/-- **The code tells its parts**: below the smaller one there is room for the larger one and the tie
bit. -/
theorem pairCode_injective {g d g' d' : ℕ} (hg : g < 2 ^ 31) (hd : d < 2 ^ 31) (hg' : g' < 2 ^ 31)
    (hd' : d' < 2 ^ 31) (h : pairCode g d = pairCode g' d') : g = g' ∧ d = d' := by
  unfold pairCode at h
  split_ifs at h <;> omega

/-- The same from the priorities of an agent's own candidate and of the peer's. -/
def IceRole.code (role : IceRole) (own peer : ℕ) : ℕ :=
  match role with
  | .controlling => pairCode own peer
  | .controlled => pairCode peer own

theorem IceRole.code_injective (role : IceRole) {a b a' b' : ℕ} (ha : a < 2 ^ 31) (hb : b < 2 ^ 31)
    (ha' : a' < 2 ^ 31) (hb' : b' < 2 ^ 31) (h : role.code a b = role.code a' b') :
    a = a' ∧ b = b' := by
  cases role with
  | controlling => exact pairCode_injective ha hb ha' hb' h
  | controlled => exact (pairCode_injective hb ha hb' ha' h).symm

theorem pairCode_lt {g d : ℕ} (hg : g < 2 ^ 31) (hd : d < 2 ^ 31) : pairCode g d < 2 ^ 63 := by
  unfold pairCode
  split_ifs <;> omega

theorem toNat_min (a b : UInt64) : (min a b).toNat = min a.toNat b.toNat := by
  show (if a ≤ b then a else b).toNat = _
  simp only [UInt64.le_iff_toNat_le]
  split_ifs <;> omega

theorem toNat_max (a b : UInt64) : (max a b).toNat = max a.toNat b.toNat := by
  show (if a ≤ b then b else a).toNat = _
  simp only [UInt64.le_iff_toNat_le]
  split_ifs <;> omega

/-- **The priority of a pair does not overflow.** -/
theorem toNat_computePairPriority {localPriority remotePriority : UInt32}
    (hlocal : localPriority.toNat < 2 ^ 31) (hremote : remotePriority.toNat < 2 ^ 31)
    (role : IceRole) :
    (computePairPriority localPriority remotePriority role).toNat =
      role.code localPriority.toNat remotePriority.toNat := by
  have hcode : ∀ g d : UInt32, g.toNat < 2 ^ 31 → d.toNat < 2 ^ 31 →
      (((1 : UInt64) <<< 32) * min g.toUInt64 d.toUInt64 + 2 * max g.toUInt64 d.toUInt64 +
        if d.toUInt64 < g.toUInt64 then 1 else 0).toNat = pairCode g.toNat d.toNat := by
    intro g d hg hd
    have hlt := pairCode_lt hg hd
    have htie : (if d.toUInt64 < g.toUInt64 then (1 : UInt64) else 0).toNat =
        if d.toNat < g.toNat then 1 else 0 := by
      simp only [UInt64.lt_iff_toNat_lt, UInt32.toNat_toUInt64]
      split_ifs <;> rfl
    have hshift : ((1 : UInt64) <<< 32).toNat = 2 ^ 32 := by decide
    have htwo : (2 : UInt64).toNat = 2 := rfl
    rw [UInt64.toNat_add, UInt64.toNat_add, UInt64.toNat_mul, UInt64.toNat_mul, htie, hshift, htwo,
      toNat_min, toNat_max, UInt32.toNat_toUInt64, UInt32.toNat_toUInt64]
    unfold pairCode at hlt ⊢
    omega
  cases role with
  | controlling => exact hcode _ _ hlocal hremote
  | controlled => exact hcode _ _ hremote hlocal

/-! ## What both agents know -/

/-- A pair as both agents know it: the candidates as they are exchanged. -/
structure PairView where
  controlling : IceCandidate
  controlled : IceCandidate
  priority : UInt64
  deriving DecidableEq

/-- A pair as both agents know it. -/
def CandidatePair.view (role : IceRole) (pair : CandidatePair) : PairView :=
  match role with
  | .controlling => ⟨pair.local.exchanged, pair.remote.exchanged, pair.priority⟩
  | .controlled => ⟨pair.remote.exchanged, pair.local.exchanged, pair.priority⟩

@[simp] theorem CandidatePair.priority_view (role : IceRole) (pair : CandidatePair) :
    (pair.view role).priority = pair.priority := by
  cases role <;> rfl

def PairView.Above (v w : PairView) : Prop := w.priority < v.priority

instance : Std.Asymm PairView.Above where
  asymm _ _ h h' := absurd (UInt64.lt_iff_toNat_lt.mp h) (lt_asymm (UInt64.lt_iff_toNat_lt.mp h'))

def pairView (g d : IceCandidate) : PairView :=
  ⟨g.exchanged, d.exchanged, computePairPriority g.priority d.priority .controlling⟩

/-- Candidates of one agent: built as such, the component in range, the foundation a word, no two of
one priority. -/
structure Gathered (candidates : List IceCandidate) : Prop where
  built : ∀ c ∈ candidates, ∃ localPreference,
    c = IceCandidate.new c.candidateType c.address localPreference c.foundation c.component
  component_pos : ∀ c ∈ candidates, 1 ≤ c.component.toNat
  component_le : ∀ c ∈ candidates, c.component.toNat ≤ 256
  foundation_word : ∀ c ∈ candidates, IsWord c.foundation
  priorities_nodup : (candidates.map (·.priority)).Nodup

namespace Gathered

variable {candidates : List IceCandidate}

theorem priority_lt (h : Gathered candidates) {c : IceCandidate} (hc : c ∈ candidates) :
    c.priority.toNat < 2 ^ 31 := by
  obtain ⟨localPreference, heq⟩ := h.built c hc
  rw [heq]
  exact (toNat_computePriority c.candidateType localPreference (h.component_pos c hc)
    (h.component_le c hc)).2

/-- **The peer reads all candidates.** -/
theorem mapM_fromSdpString (h : Gathered candidates) :
    candidates.mapM (fun c => IceCandidate.fromSdpString c.toSdpString) =
      .ok (candidates.map IceCandidate.exchanged) := by
  have hread := h.foundation_word
  clear h
  induction candidates with
  | nil => rfl
  | cons c candidates ih =>
    rw [List.mapM_cons, IceCandidate.fromSdpString_toSdpString (hread c List.mem_cons_self),
      ih fun c hc => hread c (List.mem_cons_of_mem _ hc)]
    rfl

end Gathered

/-! ## The pairs of both agents -/

section Agents

variable {L R : List IceCandidate}

theorem nodup_codes (hL : Gathered L) (hR : Gathered R) (role : IceRole) :
    (L.flatMap fun l => R.map fun r => role.code l.priority.toNat r.priority.toNat).Nodup := by
  have hnodup : ∀ {l : List IceCandidate}, (l.map (·.priority)).Nodup →
      l.Pairwise fun a b => a.priority.toNat ≠ b.priority.toNat := by
    intro l h
    refine (List.pairwise_map.mp h).imp ?_
    intro a b hne heq
    exact hne (UInt32.toNat_inj.mp heq)
  refine List.pairwise_flatMap.mpr ⟨?_, ?_⟩
  · -- pairs of one candidate differ in the peer's
    intro l hl
    refine List.pairwise_map.mpr ((hnodup hR.priorities_nodup).imp_of_mem ?_)
    intro r r' hr hr' hne heq
    exact hne (role.code_injective (hL.priority_lt hl) (hR.priority_lt hr) (hL.priority_lt hl)
      (hR.priority_lt hr') heq).2
  · refine (hnodup hL.priorities_nodup).imp_of_mem ?_
    intro l l' hl hl' hne code hcode code' hcode'
    obtain ⟨r, hr, rfl⟩ := List.mem_map.mp hcode
    obtain ⟨r', hr', rfl⟩ := List.mem_map.mp hcode'
    intro heq
    exact hne (role.code_injective (hL.priority_lt hl) (hR.priority_lt hr) (hL.priority_lt hl')
      (hR.priority_lt hr') heq).1

theorem strictlyDecreasing_of_nodup {pairs : List CandidatePair}
    (h : (pairs.map (·.priority.toNat)).Nodup) :
    (pairs.mergeSort fun a b => b.priority ≤ a.priority).Pairwise
      fun p q => q.priority < p.priority := by
  have hsorted : (pairs.mergeSort fun a b => decide (b.priority ≤ a.priority)).Pairwise
      fun p q => decide (q.priority ≤ p.priority) = true := by
    refine List.pairwise_mergeSort ?_ ?_ pairs
    · intro a b c hab hbc
      simp only [decide_eq_true_eq, UInt64.le_iff_toNat_le] at hab hbc ⊢
      omega
    · intro a b
      simp only [Bool.or_eq_true, decide_eq_true_eq, UInt64.le_iff_toNat_le]
      omega
  have hne : (pairs.mergeSort fun a b => decide (b.priority ≤ a.priority)).Pairwise
      fun p q => p.priority.toNat ≠ q.priority.toNat :=
    List.pairwise_map.mp (((List.mergeSort_perm _ _).map _).nodup_iff.mpr h)
  refine (hsorted.and hne).imp ?_
  rintro p q ⟨hle, hneq⟩
  simp only [decide_eq_true_eq, UInt64.le_iff_toNat_le] at hle
  rw [UInt64.lt_iff_toNat_lt]
  omega

/-- **The pairs of an agent are strictly ordered.** -/
theorem strictlyDecreasing_formPairs (hL : Gathered L) (hR : Gathered R) (role : IceRole) :
    (formPairs L (R.map IceCandidate.exchanged) role).Pairwise
      fun p q => q.priority < p.priority := by
  refine strictlyDecreasing_of_nodup ((congrArg List.Nodup ?_).mpr (nodup_codes hL hR role))
  rw [List.map_flatMap]
  refine List.flatMap_congr fun l hl => ?_
  rw [List.map_map, List.map_map]
  refine List.map_congr_left fun r hr => ?_
  exact toNat_computePairPriority (hL.priority_lt hl) (hR.priority_lt hr) role

theorem priority_of_mem_formPairs (hL : Gathered L) (hR : Gathered R) (role : IceRole) :
    ∀ pair ∈ formPairs L (R.map IceCandidate.exchanged) role,
      pair.priority.toNat = role.code pair.local.priority.toNat pair.remote.priority.toNat := by
  intro pair hpair
  simp only [formPairs, List.mem_mergeSort, List.mem_flatMap, List.mem_map] at hpair
  obtain ⟨l, hl, -, ⟨r, hr, rfl⟩, rfl⟩ := hpair
  exact toNat_computePairPriority (hL.priority_lt hl) (hR.priority_lt hr) role

theorem mem_views_controlling {v : PairView} :
    v ∈ (formPairs L (R.map IceCandidate.exchanged) .controlling).map
        (CandidatePair.view .controlling) ↔
      ∃ l ∈ L, ∃ r ∈ R, pairView l r = v := by
  simp only [formPairs, List.mem_map, List.mem_mergeSort, List.mem_flatMap,
    exists_exists_and_eq_and]
  constructor
  · rintro ⟨-, ⟨l, hl, r, hr, rfl⟩, rfl⟩
    refine ⟨l, hl, r, hr, ?_⟩
    simp [pairView, CandidatePair.view, CandidatePair.new]
  · rintro ⟨l, hl, r, hr, rfl⟩
    refine ⟨_, ⟨l, hl, r, hr, rfl⟩, ?_⟩
    simp [pairView, CandidatePair.view, CandidatePair.new]

theorem mem_views_controlled {v : PairView} :
    v ∈ (formPairs R (L.map IceCandidate.exchanged) .controlled).map
        (CandidatePair.view .controlled) ↔
      ∃ l ∈ L, ∃ r ∈ R, pairView l r = v := by
  simp only [formPairs, List.mem_map, List.mem_mergeSort, List.mem_flatMap,
    exists_exists_and_eq_and]
  constructor
  · rintro ⟨-, ⟨r, hr, l, hl, rfl⟩, rfl⟩
    refine ⟨l, hl, r, hr, ?_⟩
    simp [pairView, CandidatePair.view, CandidatePair.new, computePairPriority]
  · rintro ⟨l, hl, r, hr, rfl⟩
    refine ⟨_, ⟨r, hr, l, hl, rfl⟩, ?_⟩
    simp [pairView, CandidatePair.view, CandidatePair.new, computePairPriority]

theorem above_of_strictlyDecreasing {pairs : List CandidatePair}
    (h : pairs.Pairwise fun p q => q.priority < p.priority) (role : IceRole) :
    (pairs.map (CandidatePair.view role)).Pairwise PairView.Above := by
  refine List.pairwise_map.mpr (h.imp ?_)
  intro p q hlt
  simpa [PairView.Above] using hlt

/-- **Both agents have the same pairs in the same order.** -/
theorem views_formPairs (hL : Gathered L) (hR : Gathered R) :
    (formPairs L (R.map IceCandidate.exchanged) .controlling).map
        (CandidatePair.view .controlling) =
      (formPairs R (L.map IceCandidate.exchanged) .controlled).map
        (CandidatePair.view .controlled) := by
  refine List.Pairwise.eq_of_mem_iff
    (above_of_strictlyDecreasing (strictlyDecreasing_formPairs hL hR .controlling) _)
    (above_of_strictlyDecreasing (strictlyDecreasing_formPairs hR hL .controlled) _) ?_
  intro v
  rw [mem_views_controlling, mem_views_controlled]

end Agents

/-! ## The nomination -/

theorem maxByKey_eq_head? {α : Type} {key : α → UInt64} {l : List α}
    (h : l.Pairwise fun a b => key b < key a) : maxByKey key l = l.head? := by
  cases l with
  | nil => rfl
  | cons x xs =>
    obtain ⟨hx, -⟩ := List.pairwise_cons.mp h
    have hstay : xs.foldl (fun best y => if key y < key best then best else y) x = x := by
      clear h
      induction xs with
      | nil => rfl
      | cons y xs ih =>
        rw [List.foldl_cons, if_pos (hx y List.mem_cons_self)]
        exact ih fun z hz => hx z (List.mem_cons_of_mem _ hz)
    simp [maxByKey, hstay]

namespace ConnectivityChecker

def record (checker : ConnectivityChecker) (results : List (ℕ × PairState)) : ConnectivityChecker :=
  results.foldl (fun checker (i, state) => checker.setState i state) checker

def Succeeded (checker : ConnectivityChecker) (role : IceRole) (v : PairView) : Prop :=
  ∃ pair ∈ checker.pairs, pair.state = .succeeded ∧ pair.view role = v

theorem map_pairs_setState {β : Type} {f : CandidatePair → β}
    (hf : ∀ pair state, f { pair with state := state } = f pair) (checker : ConnectivityChecker)
    (i : ℕ) (state : PairState) : (checker.setState i state).pairs.map f = checker.pairs.map f := by
  have hmap : ∀ (pairs : List CandidatePair) (i : ℕ),
      (pairs.modify i fun pair => { pair with state := state }).map f = pairs.map f := by
    intro pairs
    induction pairs with
    | nil => intro i; cases i <;> rfl
    | cons pair pairs ih =>
      intro i
      cases i with
      | zero => simp [hf]
      | succ i => simp [ih i]
  exact hmap checker.pairs i

theorem map_pairs_record {β : Type} {f : CandidatePair → β}
    (hf : ∀ pair state, f { pair with state := state } = f pair) (checker : ConnectivityChecker)
    (results : List (ℕ × PairState)) :
    (checker.record results).pairs.map f = checker.pairs.map f := by
  induction results generalizing checker with
  | nil => rfl
  | cons result results ih =>
    exact (ih (checker.setState result.1 result.2)).trans
      (map_pairs_setState hf checker result.1 result.2)

theorem nominatedPair_eq_head? {checker : ConnectivityChecker}
    (h : checker.pairs.Pairwise fun p q => q.priority < p.priority) :
    checker.nominatedPair = (checker.pairs.filter (·.state = .succeeded)).head? :=
  maxByKey_eq_head? (h.sublist List.filter_sublist)

/-- **Agents with the same pairs in strict order nominate the same** if the same pairs succeeded. -/
theorem nominatedPair_eq {ours theirs : ConnectivityChecker}
    (hours : ours.pairs.Pairwise fun p q => q.priority < p.priority)
    (htheirs : theirs.pairs.Pairwise fun p q => q.priority < p.priority)
    (hsame : ∀ v, ours.Succeeded .controlling v ↔ theirs.Succeeded .controlled v) :
    ours.nominatedPair.map (CandidatePair.view .controlling) =
      theirs.nominatedPair.map (CandidatePair.view .controlled) := by
  have hviews : (ours.pairs.filter (·.state = .succeeded)).map (CandidatePair.view .controlling) =
      (theirs.pairs.filter (·.state = .succeeded)).map (CandidatePair.view .controlled) := by
    refine List.Pairwise.eq_of_mem_iff
      (above_of_strictlyDecreasing (hours.sublist List.filter_sublist) _)
      (above_of_strictlyDecreasing (htheirs.sublist List.filter_sublist) _) ?_
    intro v
    simpa [Succeeded, and_assoc] using hsame v
  rw [nominatedPair_eq_head? hours, nominatedPair_eq_head? htheirs, ← List.head?_map, hviews,
    List.head?_map]

/-! ### Checks in order -/

/-- The pairs after their checks, as many as there are outcomes for. -/
def checked : List CandidatePair → List Bool → List CandidatePair
  | pair :: pairs, succeeds :: outcomes =>
    { pair with state := if succeeds then .succeeded else .failed } :: checked pairs outcomes
  | pairs, _ => pairs

theorem modify_length_append {α : Type} (done : List α) (x : α) (todo : List α) (f : α → α) :
    (done ++ x :: todo).modify done.length f = done ++ f x :: todo := by
  induction done with
  | nil => rfl
  | cons y done ih => exact congrArg (y :: ·) ih

theorem checkFrom_append (done todo : List CandidatePair) (outcomes : List Bool) :
    (⟨done ++ todo⟩ : ConnectivityChecker).checkFrom done.length outcomes =
      ⟨done ++ checked todo outcomes⟩ := by
  induction outcomes generalizing done todo with
  | nil => cases todo <;> rfl
  | cons succeeds outcomes ih =>
    cases todo with
    | nil =>
      rw [checkFrom, if_neg (by simp)]
      rfl
    | cons pair todo =>
      have hset := ih (done ++ [{ pair with state := if succeeds then .succeeded else .failed }]) todo
      rw [List.length_append, List.length_singleton] at hset
      rw [checkFrom, if_pos (by simp)]
      simpa [setState, modify_length_append, checked] using hset

theorem map_priority_checked (pairs : List CandidatePair) (outcomes : List Bool) :
    (checked pairs outcomes).map CandidatePair.priority = pairs.map CandidatePair.priority := by
  induction pairs generalizing outcomes with
  | nil => cases outcomes <;> rfl
  | cons pair pairs ih =>
    cases outcomes with
    | nil => rfl
    | cons succeeds outcomes => exact congrArg (pair.priority :: ·) (ih outcomes)

theorem head?_succeeded_checked {pairs : List CandidatePair}
    (hfresh : ∀ pair ∈ pairs, pair.state = .waiting) (outcomes : List Bool) :
    ((checked pairs outcomes).filter (·.state = .succeeded)).head? =
      ((pairs.zip outcomes).find? Prod.snd).map fun p => { p.1 with state := .succeeded } := by
  induction pairs generalizing outcomes with
  | nil => cases outcomes <;> rfl
  | cons pair pairs ih =>
    cases outcomes with
    | nil =>
      have hnone : (pair :: pairs).filter (·.state = .succeeded) = [] :=
        List.filter_eq_nil_iff.mpr fun p hp => by simp [hfresh p hp]
      rw [checked, hnone]
      · rfl
      · simp
    | cons succeeds outcomes =>
      cases succeeds
      · simpa [checked] using ih (fun p hp => hfresh p (List.mem_cons_of_mem _ hp)) outcomes
      · simp [checked]

/-- **The pair that `run_checks` nominates** is the first whose check succeeded, in the order of the
pairs. -/
theorem runChecks_eq {checker : ConnectivityChecker}
    (hstrict : checker.pairs.Pairwise fun p q => q.priority < p.priority)
    (hfresh : ∀ pair ∈ checker.pairs, pair.state = .waiting) (outcomes : List Bool) :
    (checker.runChecks outcomes).2.toOption =
      ((checker.pairs.zip outcomes).find? Prod.snd).map fun p => { p.1 with state := .succeeded } := by
  unfold runChecks
  split_ifs with hnil
  · rw [hnil]
    rfl
  · have hchecked : checker.checkFrom 0 outcomes = ⟨checked checker.pairs outcomes⟩ :=
      checkFrom_append [] checker.pairs outcomes
    have hpairs : (checked checker.pairs outcomes).Pairwise fun p q => q.priority < p.priority := by
      have hmap : (checker.pairs.map CandidatePair.priority).Pairwise fun a b => b < a :=
        List.pairwise_map.mpr hstrict
      rw [← map_priority_checked _ outcomes] at hmap
      exact List.pairwise_map.mp hmap
    rw [hchecked, ← head?_succeeded_checked hfresh,
      ← @nominatedPair_eq_head? ⟨checked checker.pairs outcomes⟩ hpairs]
    dsimp only
    cases (⟨checked checker.pairs outcomes⟩ : ConnectivityChecker).nominatedPair <;> rfl

end ConnectivityChecker

/-- **ICE agents agree**, up to flow label and scope of the addresses. Each reads the other's
candidates, both have the same pairs, one for each two candidates, in the same strictly decreasing
order, no priority overflows, and they nominate the same pair if the same pairs succeed. -/
theorem agents_agree {L R : List IceCandidate} (hL : Gathered L) (hR : Gathered R) :
    ∃ L' R' : List IceCandidate,
      L.mapM (fun c => IceCandidate.fromSdpString c.toSdpString) = .ok L' ∧
      R.mapM (fun c => IceCandidate.fromSdpString c.toSdpString) = .ok R' ∧
      (formPairs L R' .controlling).map (CandidatePair.view .controlling) =
        (formPairs R L' .controlled).map (CandidatePair.view .controlled) ∧
      (∀ v, v ∈ (formPairs L R' .controlling).map (CandidatePair.view .controlling) ↔
        ∃ l ∈ L, ∃ r ∈ R, pairView l r = v) ∧
      (formPairs L R' .controlling).Pairwise (fun p q => q.priority < p.priority) ∧
      (formPairs R L' .controlled).Pairwise (fun p q => q.priority < p.priority) ∧
      (∀ c ∈ L ++ R, ∀ localPreference, c = IceCandidate.new c.candidateType c.address localPreference
          c.foundation c.component → c.priority.toNat =
        2 ^ 24 * c.candidateType.typePreference.toNat + 2 ^ 8 * localPreference.toNat +
          (256 - c.component.toNat)) ∧
      (∀ pair ∈ formPairs L R' .controlling, pair.priority.toNat =
        pairCode pair.local.priority.toNat pair.remote.priority.toNat) ∧
      (∀ pair ∈ formPairs R L' .controlled, pair.priority.toNat =
        pairCode pair.remote.priority.toNat pair.local.priority.toNat) ∧
      ∀ results results' : List (ℕ × PairState),
        let ours := (ConnectivityChecker.new L R' .controlling).record results
        let theirs := (ConnectivityChecker.new R L' .controlled).record results'
        (∀ v, ours.Succeeded .controlling v ↔ theirs.Succeeded .controlled v) →
          ours.nominatedPair.map (CandidatePair.view .controlling) =
            theirs.nominatedPair.map (CandidatePair.view .controlled) := by
  have hnumbers : ∀ {candidates : List IceCandidate}, Gathered candidates → ∀ c ∈ candidates,
      ∀ localPreference, c = IceCandidate.new c.candidateType c.address localPreference
        c.foundation c.component → c.priority.toNat =
      2 ^ 24 * c.candidateType.typePreference.toNat + 2 ^ 8 * localPreference.toNat +
        (256 - c.component.toNat) := by
    intro candidates h c hc localPreference heq
    rw [congrArg IceCandidate.priority heq]
    exact (toNat_computePriority c.candidateType localPreference (h.component_pos c hc)
      (h.component_le c hc)).1
  have hours := strictlyDecreasing_formPairs hL hR .controlling
  have htheirs := strictlyDecreasing_formPairs hR hL .controlled
  refine ⟨L.map IceCandidate.exchanged, R.map IceCandidate.exchanged, hL.mapM_fromSdpString,
    hR.mapM_fromSdpString, views_formPairs hL hR, fun _ => mem_views_controlling, hours, htheirs,
    ?_, ?_, ?_, ?_⟩
  · intro c hc
    rcases List.mem_append.mp hc with hc | hc
    · exact hnumbers hL c hc
    · exact hnumbers hR c hc
  · exact priority_of_mem_formPairs hL hR .controlling
  · exact priority_of_mem_formPairs hR hL .controlled
  · intro results results' ours theirs hsame
    have hdecreasing : ∀ (checker : ConnectivityChecker) (results : List (ℕ × PairState)),
        checker.pairs.Pairwise (fun p q => q.priority < p.priority) →
        (checker.record results).pairs.Pairwise fun p q => q.priority < p.priority := by
      intro checker results h
      have hmap := checker.map_pairs_record (f := (·.priority)) (fun _ _ => rfl) results
      have hprio : (checker.pairs.map (·.priority)).Pairwise (fun a b => b < a) :=
        List.pairwise_map.mpr h
      rw [← hmap] at hprio
      exact List.pairwise_map.mp hprio
    exact ConnectivityChecker.nominatedPair_eq (hdecreasing _ results hours)
      (hdecreasing _ results' htheirs) hsame

def hostCandidate : IceCandidate :=
  .new .host (.v4 ⟨192, 168, 1, 10⟩ 5000) 65535 "host1".toList 1

def reflexiveCandidate : IceCandidate :=
  .new .serverReflexive (.v4 ⟨203, 0, 113, 5⟩ 6000) 65535 "srflx1".toList 256

theorem gathered_new (candidateType : CandidateType) (address : SocketAddr)
    (localPreference : UInt16) {foundation : Str} {component : UInt16} (hpos : 1 ≤ component.toNat)
    (hle : component.toNat ≤ 256) (hword : IsWord foundation) :
    Gathered [IceCandidate.new candidateType address localPreference foundation component] where
  built := by
    intro c hc
    obtain rfl := List.mem_singleton.mp hc
    exact ⟨localPreference, rfl⟩
  component_pos := List.forall_mem_singleton.mpr hpos
  component_le := List.forall_mem_singleton.mpr hle
  foundation_word := List.forall_mem_singleton.mpr hword
  priorities_nodup := List.nodup_singleton _

theorem gathered_hostCandidate : Gathered [hostCandidate] :=
  gathered_new _ _ _ (by decide) (by decide) (by decide)

theorem gathered_reflexiveCandidate : Gathered [reflexiveCandidate] :=
  gathered_new _ _ _ (by decide) (by decide) (by decide)

/-- Two agents with one candidate each, whose only pair succeeds. -/
theorem agents_agree_host :
    ∃ L' R' : List IceCandidate,
      [hostCandidate].mapM (fun c => IceCandidate.fromSdpString c.toSdpString) = .ok L' ∧
      [reflexiveCandidate].mapM (fun c => IceCandidate.fromSdpString c.toSdpString) = .ok R' ∧
      (formPairs [hostCandidate] R' .controlling).map (CandidatePair.view .controlling) =
        (formPairs [reflexiveCandidate] L' .controlled).map (CandidatePair.view .controlled) ∧
      ((ConnectivityChecker.new [hostCandidate] R' .controlling).record
          [(0, .succeeded)]).nominatedPair.map (CandidatePair.view .controlling) =
        ((ConnectivityChecker.new [reflexiveCandidate] L' .controlled).record
          [(0, .succeeded)]).nominatedPair.map (CandidatePair.view .controlled) := by
  obtain ⟨L', R', hreadL, hreadR, hviews, -, -, -, -, -, -, hnominated⟩ :=
    agents_agree gathered_hostCandidate gathered_reflexiveCandidate
  refine ⟨L', R', hreadL, hreadR, hviews, hnominated _ _ ?_⟩
  rw [gathered_hostCandidate.mapM_fromSdpString] at hreadL
  rw [gathered_reflexiveCandidate.mapM_fromSdpString] at hreadR
  obtain rfl := Except.ok.inj hreadL
  obtain rfl := Except.ok.inj hreadR
  intro v
  simp only [formPairs, List.map_cons, List.map_nil, List.flatMap_cons, List.flatMap_nil,
    List.append_nil, List.mergeSort_singleton, List.cons.injEq, and_true] at hviews
  simp only [ConnectivityChecker.record, ConnectivityChecker.setState, ConnectivityChecker.new,
    ConnectivityChecker.Succeeded, formPairs, List.map_cons, List.map_nil, List.flatMap_cons,
    List.flatMap_nil, List.append_nil, List.mergeSort_singleton, List.foldl_cons, List.foldl_nil,
    List.modify_zero_cons, List.mem_singleton, exists_eq_left, true_and]
  exact Eq.congr_left hviews

/-- A link-local candidate, on the interface that its agent numbers so. -/
def linkLocal (scopeId : UInt32) : IceCandidate :=
  .new .host (.v6 ⟨[0xfe80, 0, 0, 0, 0, 0, 0, 1], rfl⟩ 5000 0 scopeId) 65535 "host1".toList 1

/-- Flow label and scope are not exchanged, so that the pairs of one agent are not those of the
other with local and remote swapped. -/
theorem pairs_not_swapped :
    ¬ ∀ L R L' R' : List IceCandidate, Gathered L → Gathered R →
      L.mapM (fun c => IceCandidate.fromSdpString c.toSdpString) = .ok L' →
      R.mapM (fun c => IceCandidate.fromSdpString c.toSdpString) = .ok R' →
        (formPairs L R' .controlling).map (fun p => (p.local, p.remote, p.priority)) =
          (formPairs R L' .controlled).map fun p => (p.remote, p.local, p.priority) := by
  intro h
  have hgathered : ∀ scopeId, Gathered [linkLocal scopeId] := fun scopeId =>
    gathered_new _ _ _ (by decide) (by decide) (by decide)
  have hpairs := h [linkLocal 3] [linkLocal 4] _ _ (hgathered 3) (hgathered 4)
    (hgathered 3).mapM_fromSdpString (hgathered 4).mapM_fromSdpString
  -- the controlling agent knows its own scope, the peer reads none
  have hscope := congrArg (List.map fun p => p.1.address) hpairs
  simp [formPairs, CandidatePair.new, linkLocal, IceCandidate.new, IceCandidate.exchanged,
    SocketAddr.new, SocketAddr.ip] at hscope

/-- **Agents nominate the best pair that works**, and the same one if their checks go alike: the
first pair in the order of priorities whose check succeeds in time. -/
theorem checks_agree {L R L' R' : List IceCandidate} (hL : Gathered L) (hR : Gathered R)
    (hreadL : L.mapM (fun c => IceCandidate.fromSdpString c.toSdpString) = .ok L')
    (hreadR : R.mapM (fun c => IceCandidate.fromSdpString c.toSdpString) = .ok R')
    (outcomes : List Bool) :
    let ours := ((ConnectivityChecker.new L R' .controlling).runChecks outcomes).2.toOption
    let theirs := ((ConnectivityChecker.new R L' .controlled).runChecks outcomes).2.toOption
    ours = (((formPairs L R' .controlling).zip outcomes).find? Prod.snd).map
        (fun p => { p.1 with state := .succeeded }) ∧
      theirs = (((formPairs R L' .controlled).zip outcomes).find? Prod.snd).map
        (fun p => { p.1 with state := .succeeded }) ∧
      ours.map (CandidatePair.view .controlling) = theirs.map (CandidatePair.view .controlled) := by
  obtain rfl := Except.ok.inj (hL.mapM_fromSdpString.symm.trans hreadL)
  obtain rfl := Except.ok.inj (hR.mapM_fromSdpString.symm.trans hreadR)
  have hfresh : ∀ {l r : List IceCandidate} {role : IceRole}, ∀ pair ∈ formPairs l r role,
      pair.state = .waiting := by
    intro l r role pair hpair
    simp only [formPairs, List.mem_mergeSort, List.mem_flatMap, List.mem_map] at hpair
    obtain ⟨_, -, _, -, rfl⟩ := hpair
    rfl
  have hours := @ConnectivityChecker.runChecks_eq (.new L _ .controlling)
    (strictlyDecreasing_formPairs hL hR .controlling) hfresh outcomes
  have htheirs := @ConnectivityChecker.runChecks_eq (.new R _ .controlled)
    (strictlyDecreasing_formPairs hR hL .controlled) hfresh outcomes
  -- what is found first depends on the views of the pairs only
  have hviews : ∀ {role : IceRole} {pairs : List CandidatePair},
      (((pairs.zip outcomes).find? Prod.snd).map fun p =>
          ({ p.1 with state := .succeeded } : CandidatePair)).map (CandidatePair.view role) =
        (((pairs.map (CandidatePair.view role)).zip outcomes).find? Prod.snd).map Prod.fst := by
    intro role pairs
    rw [List.zip_map_left, List.find?_map, Option.map_map, Option.map_map]
    cases role <;> rfl
  refine ⟨hours, htheirs, ?_⟩
  rw [hours, htheirs, hviews, hviews]
  exact congrArg (fun views => ((List.zip views outcomes).find? Prod.snd).map Prod.fst)
    (views_formPairs hL hR)

/-- The only pair of two agents works. -/
theorem checks_agree_host :
    let ours := ConnectivityChecker.new [hostCandidate] [reflexiveCandidate.exchanged] .controlling
    let theirs := ConnectivityChecker.new [reflexiveCandidate] [hostCandidate.exchanged] .controlled
    (ours.runChecks [true]).2.toOption = ours.pairs.head?.map ({ · with state := .succeeded }) ∧
      (ours.runChecks [true]).2.toOption.map (CandidatePair.view .controlling) =
        (theirs.runChecks [true]).2.toOption.map (CandidatePair.view .controlled) := by
  obtain ⟨hours, -, hviews⟩ := checks_agree gathered_hostCandidate gathered_reflexiveCandidate
    gathered_hostCandidate.mapM_fromSdpString gathered_reflexiveCandidate.mapM_fromSdpString [true]
  refine ⟨hours.trans ?_, hviews⟩
  simp [ConnectivityChecker.new, formPairs]

end Pirc.P2p
