import Mathlib.Order.Bounds.Basic
import Pirc.Raft.CommitRule

/-!
# Raft: the scan for the commit index

`advance_commit_index` scans from the end of the log down to the commit index. It stops at the first
entry that a quorum has, and also where the terms become older than the current one.
-/

namespace Pirc.Raft

variable {T : Type}

namespace RaftNode

/-- The terms of the log do not decrease, and the current one is the last. -/
structure TermsOrdered (node : RaftNode T) : Prop where
  mono : ∀ i j s t, i ≤ j → node.log.termAt i = some s → node.log.termAt j = some t → s ≤ t
  le : ∀ i t, node.log.termAt i = some t → t ≤ node.currentTerm

/-- The servers that have an index as far as the leader knows, itself included. -/
def replicas (matchIndex : NodeMap ℕ) (n : ℕ) : ℕ :=
  1 + (matchIndex.keys.toFinset.filter fun p => (matchIndex.lookup p).any (n ≤ ·)).card

/-- **An index that may be committed**: a later one than the commit index, with an entry of the
current term that a quorum has. -/
def Commits (node : RaftNode T) (leader : LeaderState) (n : ℕ) : Prop :=
  node.volatile.commitIndex < n ∧ node.log.termAt n = some node.currentTerm ∧
    node.quorumSize ≤ replicas leader.matchIndex n

instance (node : RaftNode T) (leader : LeaderState) (n : ℕ) : Decidable (node.Commits leader n) :=
  inferInstanceAs (Decidable (_ ∧ _ ∧ _))

end RaftNode

open RaftNode

variable {node : RaftNode T} {leader : LeaderState}

/-! ## Counting -/

theorem le_countReplicas_iff (quorum idx : ℕ) : ∀ (count : ℕ) (ms : List ℕ),
    quorum ≤ countReplicas quorum idx count ms ↔ quorum ≤ count + (ms.filter (idx ≤ ·)).length
  | count, [] => Iff.rfl
  | count, m :: ms => by
    have ih := le_countReplicas_iff quorum idx (count + 1) ms
    have ihSkip := le_countReplicas_iff quorum idx count ms
    rw [countReplicas]
    by_cases hm : idx ≤ m
    · rw [if_pos hm, List.filter_cons_of_pos (by simpa using hm), List.length_cons]
      split_ifs with hquorum
      · exact iff_of_true hquorum (by omega)
      · rw [ih]
        omega
    · rw [if_neg hm, List.filter_cons_of_neg (by simpa using hm), ihSkip]

theorem quorum_le_iff (quorum n : ℕ) :
    quorum ≤ countReplicas quorum n 1 (leader.matchIndex.entries.map Sigma.snd) ↔
      quorum ≤ replicas leader.matchIndex n := by
  rw [le_countReplicas_iff, card_counted, replicas]

/-! ## The scan -/

theorem RaftNode.TermsOrdered.not_commits (h : node.TermsOrdered) {n t : ℕ}
    (hterm : node.log.termAt n = some t) (hlt : t < node.currentTerm) {k : ℕ} (hk : k ≤ n) :
    ¬ node.Commits leader k := by
  rintro ⟨-, hcurrent, -⟩
  have hle := h.mono k n _ _ hk hcurrent hterm
  omega

/-- **What the scan finds** from an index down: the greatest index that may be committed, or the
commit index where there is none. -/
theorem scanCommit_spec (leader : LeaderState) (h : node.TermsOrdered) (n : ℕ) :
    let found := scanCommit node.log node.currentTerm node.quorumSize node.volatile.commitIndex
      (leader.matchIndex.entries.map Sigma.snd) n
    (found = node.volatile.commitIndex ∨ node.Commits leader found) ∧
      ∀ k ≤ n, node.Commits leader k → k ≤ found := by
  induction n with
  | zero =>
    refine ⟨.inl rfl, fun k hk hcommits => ?_⟩
    exact absurd (hcommits.1.trans_le hk) (Nat.not_lt_zero _)
  | succ n ih =>
    -- an index that may not be committed is skipped
    have hskip : ¬ node.Commits leader (n + 1) → ∀ found,
        (∀ k ≤ n, node.Commits leader k → k ≤ found) →
          ∀ k ≤ n + 1, node.Commits leader k → k ≤ found := by
      intro hnot found hbelow k hk hcommits
      rcases Nat.le_succ_iff.mp hk with hle | rfl
      · exact hbelow k hle hcommits
      · exact absurd hcommits hnot
    intro found
    by_cases hle : n + 1 ≤ node.volatile.commitIndex
    · have hfound : found = node.volatile.commitIndex := if_pos hle
      refine ⟨.inl hfound, fun k hk _ => ?_⟩
      rw [hfound]
      exact hk.trans hle
    · have hstep : found = scanCommit node.log node.currentTerm node.quorumSize
        node.volatile.commitIndex (leader.matchIndex.entries.map Sigma.snd) (n + 1) := rfl
      rw [scanCommit, if_neg hle] at hstep
      cases hterm : node.log.termAt (n + 1) with
      | none =>
        rw [hterm] at hstep
        rw [hstep]
        refine ⟨ih.1, hskip (fun hcommits => ?_) _ ih.2⟩
        have hcurrent := hcommits.2.1
        rw [hterm] at hcurrent
        cases hcurrent
      | some t =>
        rw [hterm] at hstep
        dsimp only at hstep
        split_ifs at hstep with hcurrent hquorum hold
        · -- the entry has its quorum
          subst hcurrent
          have hcommits : node.Commits leader (n + 1) :=
            ⟨Nat.lt_of_not_le hle, hterm, (quorum_le_iff _ _).mp hquorum⟩
          rw [hstep]
          exact ⟨.inr hcommits, fun k hk _ => hk⟩
        · rw [hstep]
          exact ⟨ih.1, hskip (fun hcommits => hquorum ((quorum_le_iff _ _).mpr hcommits.2.2)) _ ih.2⟩
        · -- the entries before it are not of the current term either
          rw [hstep]
          exact ⟨.inl rfl, fun k hk hcommits => absurd hcommits (h.not_commits hterm hold hk)⟩
        · exact absurd ((h.le _ _ hterm).lt_of_ne hcurrent) hold

theorem RaftLog.le_lastIndex_of_termAt {log : RaftLog T} {n t : ℕ} (h : log.termAt n = some t) :
    n ≤ log.lastIndex := by
  unfold termAt at h
  unfold lastIndex
  split_ifs at h with hoffset
  · omega
  · obtain ⟨entry, hentry, -⟩ := Option.map_eq_some_iff.mp h
    obtain ⟨i, hi, -⟩ := Option.bind_eq_some_iff.mp hentry
    unfold toInternal at hi
    dsimp only at hi
    split_ifs at hi with hle hlength
    omega

theorem RaftNode.volatile_commitMembershipChangeIfPending (node : RaftNode T) (k : ℕ) :
    (node.commitMembershipChangeIfPending k).volatile = node.volatile := by
  obtain ⟨_, _, _, _, heq⟩ := node.commitMembershipChangeIfPending_eq k
  rw [heq]

theorem RaftNode.commitIndex_advanceCommitIndex (hstate : node.state = .leader)
    (hleader : node.leaderState = some leader) :
    node.advanceCommitIndex.volatile.commitIndex = max node.volatile.commitIndex
      (scanCommit node.log node.currentTerm node.quorumSize node.volatile.commitIndex
        (leader.matchIndex.entries.map Sigma.snd) node.log.lastIndex) := by
  unfold advanceCommitIndex
  rw [if_neg (not_not.mpr hstate), hleader]
  dsimp only
  split_ifs with hlt
  · rw [volatile_commitMembershipChangeIfPending, max_eq_right hlt.le]
  · rw [max_eq_left (Nat.le_of_not_lt hlt)]

/-- **The commit index becomes the greatest that may be**, and stays where nothing may be
committed. -/
theorem advanceCommitIndex_greatest (h : node.TermsOrdered) (hstate : node.state = .leader)
    (hleader : node.leaderState = some leader) :
    ((∃ n, node.Commits leader n) →
        IsGreatest {n | node.Commits leader n} node.advanceCommitIndex.volatile.commitIndex) ∧
      ((∀ n, ¬ node.Commits leader n) →
        node.advanceCommitIndex.volatile.commitIndex = node.volatile.commitIndex) := by
  have hspec := scanCommit_spec leader h node.log.lastIndex
  rw [commitIndex_advanceCommitIndex hstate hleader]
  generalize scanCommit node.log node.currentTerm node.quorumSize node.volatile.commitIndex
    (leader.matchIndex.entries.map Sigma.snd) node.log.lastIndex = found at hspec
  obtain ⟨hfound, hgreatest⟩ := hspec
  have hbound : ∀ n, node.Commits leader n → n ≤ found := fun n hn =>
    hgreatest n (RaftLog.le_lastIndex_of_termAt hn.2.1) hn
  constructor
  · rintro ⟨n, hn⟩
    have hlt : node.volatile.commitIndex < found := hn.1.trans_le (hbound n hn)
    rw [max_eq_right hlt.le]
    rcases hfound with rfl | hcommits
    · exact absurd hlt (lt_irrefl _)
    · exact ⟨hcommits, fun k hk => hbound k hk⟩
  · intro hnone
    rcases hfound with rfl | hcommits
    · exact max_self _
    · exact absurd hcommits (hnone _)

section Examples

def progressOfThree : LeaderState where
  nextIndex := ∅
  matchIndex := (AList.insert 3 1 ∅ : NodeMap ℕ).insert 2 2

/-- A leader of three in term 2. Server 2 has two of its three entries, and server 3 the first. -/
def leaderOfThree : RaftNode ℕ where
  config := { nodeId := 1, peers := [2, 3] }
  state := .leader
  currentTerm := 2
  log := { entries := [⟨1, 1, 10⟩, ⟨2, 2, 11⟩, ⟨2, 3, 12⟩] }
  leaderState := some progressOfThree
  electionTracker := { clusterSize := 3 }
  membership := .new 1 [2, 3]

theorem termsOrdered_leaderOfThree : leaderOfThree.TermsOrdered := by
  have hbound : ∀ {i t}, leaderOfThree.log.termAt i = some t → i ≤ 3 := RaftLog.le_lastIndex_of_termAt
  have hle : ∀ i ≤ 3, ∀ t ∈ leaderOfThree.log.termAt i, t ≤ leaderOfThree.currentTerm := by decide
  have hmono : ∀ j ≤ 3, ∀ i ≤ j, ∀ s ∈ leaderOfThree.log.termAt i,
      ∀ t ∈ leaderOfThree.log.termAt j, s ≤ t := by decide
  exact ⟨fun i j s t hij hs ht => hmono j (hbound ht) i hij s hs t ht,
    fun i t ht => hle i (hbound ht) t ht⟩

theorem leaderOfThree_greatest :
    leaderOfThree.advanceCommitIndex.volatile.commitIndex = 2 ∧
      IsGreatest {n | leaderOfThree.Commits progressOfThree n}
        leaderOfThree.advanceCommitIndex.volatile.commitIndex :=
  ⟨by decide, (advanceCommitIndex_greatest termsOrdered_leaderOfThree rfl rfl).1 ⟨2, by decide⟩⟩

end Examples

end Pirc.Raft
