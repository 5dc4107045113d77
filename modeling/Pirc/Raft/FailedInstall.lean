import Pirc.Raft.HandlerFrames
import Pirc.Raft.Recovery

/-!
# Raft: a snapshot that cannot be installed

The last chunk of a snapshot cuts the log first, then the state machine takes the data, then the
snapshot is saved, and only then do the commit and apply positions and the latest snapshot change.
What fails in the middle leaves what came before: the log is cut already, and the state machine may
have the data. An own snapshot is saved before the log is compacted.
-/

namespace Pirc.Raft

variable {T M : Type}

/-- The log begins at the snapshot point: it was compacted there, or it is new. -/
structure RaftLog.StandsAt (log : RaftLog T) (index term : ℕ) : Prop where
  offset : log.offset = index
  snapshotTerm : log.snapshotTerm = term
  start : 0 < log.offset ∨ log.entries = []

/-- The data that the last chunk completes. -/
def RaftNode.collected (node : RaftNode T) (req : InstallSnapshot) : List UInt8 :=
  if req.offset = 0 then req.data else node.pendingSnapshot.getD [] ++ req.data

section Install

variable {node : RaftNode T} {req : InstallSnapshot}

/-- **Cutting the log** leaves it as it is exactly if it begins at the point. -/
theorem RaftNode.cutLog_eq_iff {index term : ℕ} :
    node.cutLog index term = node.log ↔ node.log.StandsAt index term := by
  unfold cutLog
  split_ifs with hterm
  · constructor
    · intro heq
      rcases RaftLog.termAt_eq_some hterm with ⟨hindex, hpos, hsnap⟩ | ⟨p, e, hindex, he, -⟩
      · exact ⟨hindex.symm, hsnap.symm, .inl hpos⟩
      · -- a point past the offset becomes the offset
        have hlen := (List.getElem?_eq_some_iff.mp he).1
        have hcut := congrArg RaftLog.offset heq
        unfold RaftLog.compactTo RaftLog.lastIndex at hcut
        rw [if_neg (by omega), if_neg (by omega)] at hcut
        dsimp only at hcut
        omega
    · intro h
      exact if_pos h.offset.ge
  · constructor
    · intro heq
      unfold RaftLog.resetToSnapshot at heq
      exact ⟨congrArg RaftLog.offset heq.symm, congrArg RaftLog.snapshotTerm heq.symm,
        .inr (congrArg RaftLog.entries heq.symm)⟩
    · rintro ⟨hoffset, hsnap, hstart⟩
      rcases hstart with hpos | hnil
      · -- the term at a compacted offset is known
        rw [← hoffset, ← hsnap] at hterm
        exact absurd (RaftLog.termAt_offset hpos) hterm
      · unfold RaftLog.resetToSnapshot
        rw [← hoffset, ← hsnap, ← hnil]

variable [StateMachine T M] {sm : M}

theorem finishInstall_error (data : List UInt8) :
    wp (finishInstall req data) (fun _ _ => True)
      (fun _ s => s.1.log = node.cutLog req.lastIncludedIndex req.lastIncludedTerm ∧
        s.1.volatile = node.volatile ∧ s.1.lastSnapshot = node.lastSnapshot ∧
        s.2 = (StateMachine.restore sm data).2) (node, sm) := by
  unfold finishInstall wp EStateM.run
  dsimp only
  rcases StateMachine.restore sm data with ⟨_ | _, sm'⟩
  · exact ⟨rfl, rfl, rfl, rfl⟩
  · change wp (onNode _) _ _ _
    rw [wp_onNode]
    unfold saveInstalled
    rw [wp_bind, wp_asSnapshotError]
    apply wp_write
    · intro rest
      trivial
    · intro e rest
      exact ⟨rfl, rfl, rfl, rfl⟩

/-- **What a failed installation leaves.** -/
theorem handleInstallSnapshot_error (hterm : req.term = node.currentTerm) :
    wp (handleInstallSnapshot req) (fun _ _ => True)
      (fun _ s => s.1.log = node.cutLog req.lastIncludedIndex req.lastIncludedTerm ∧
        s.1.volatile = node.volatile ∧ s.1.lastSnapshot = node.lastSnapshot ∧
        s.2 = (StateMachine.restore sm (node.collected req)).2) (node, sm) := by
  unfold handleInstallSnapshot
  rw [wp_bind, wp_onNode, wp_asSnapshotError]
  rw [wp_handleTermUpdate_of_le hterm.le, wp_bind, wp_get]
  dsimp only
  rw [wp_ite, if_neg (not_lt.mpr hterm.ge)]
  split
  · trivial
  · next data hdata =>
    have hcollected : data = node.collected req := by
      unfold RaftNode.collected
      split_ifs at hdata ⊢
      · exact (Option.some_inj.mp hdata).symm
      · obtain ⟨chunks, hchunks, rfl⟩ := Option.map_eq_some_iff.mp hdata
        have hpending : node.pendingSnapshot = some chunks := hchunks
        rw [hpending]
        rfl
    rw [wp_ite]
    by_cases hdone : req.done = true
    · rw [if_neg (not_not.mpr hdone), wp_bind, wp_onNode, wp_set, ← hcollected]
      -- the role and the buffer change, and the rest is what the last chunk found
      exact finishInstall_error data
    · rw [if_pos hdone]
      trivial

variable {e : SnapshotError} {node' : RaftNode T} {sm' : M}

/-- **A failed installation leaves the follower as it was** exactly when its log begins at the
snapshot point already, and the state machine is the same after it was given the data: it refuses
them, or it holds them. -/
theorem failedInstall_unchanged_iff (hterm : req.term = node.currentTerm)
    (hrun : (handleInstallSnapshot req).run (node, sm) = .error e (node', sm')) :
    (node'.log = node.log ∧ node'.volatile.commitIndex = node.volatile.commitIndex ∧
        node'.volatile.lastApplied = node.volatile.lastApplied ∧
        node'.lastSnapshot = node.lastSnapshot ∧ sm' = sm) ↔
      node.log.StandsAt req.lastIncludedIndex req.lastIncludedTerm ∧
        (StateMachine.restore sm (node.collected req)).2 = sm := by
  obtain ⟨hlog, hvolatile, hlast, hmachine⟩ := wp_error (handleInstallSnapshot_error hterm) hrun
  dsimp only at hlog hvolatile hlast hmachine
  rw [hlog, hvolatile, hlast, hmachine, RaftNode.cutLog_eq_iff]
  simp only [true_and]

end Install

section OneChunk

def fullDisk : RaftNode ℕ :=
  { config := { nodeId := 2, peers := [1, 3] }
    currentTerm := 1
    log := { entries := [⟨1, 1, 10⟩, ⟨1, 2, 20⟩] }
    storage := { outcomes := [some (.io "no space left on device")] }
    electionTracker := { clusterSize := 3 }
    membership := ClusterMembership.new 2 [1, 3] }

def bothEntries : InstallSnapshot where
  term := 1
  leaderId := 1
  lastIncludedIndex := 2
  lastIncludedTerm := 1
  offset := 0
  data := [10, 20]
  done := true

/-- What the snapshot leaves that cannot be saved. -/
def cutFollower : RaftNode ℕ :=
  { fullDisk.follow 1 with
    log := { entries := [], offset := 2, snapshotTerm := 1 }
    storage := {} }

theorem failedInstall_unchanged_iff_bothEntries :
    (cutFollower.log = fullDisk.log ∧
        cutFollower.volatile.commitIndex = fullDisk.volatile.commitIndex ∧
        cutFollower.volatile.lastApplied = fullDisk.volatile.lastApplied ∧
        cutFollower.lastSnapshot = fullDisk.lastSnapshot ∧ [10, 20] = ([] : List ℕ)) ↔
      fullDisk.log.StandsAt 2 1 ∧
        (StateMachine.restore ([] : List ℕ) (fullDisk.collected bothEntries)).2 = [] := by
  have hrun : (handleInstallSnapshot bothEntries).run (fullDisk, ([] : List ℕ)) =
      .error (.storage (.io "no space left on device")) (cutFollower, [10, 20]) := rfl
  exact failedInstall_unchanged_iff rfl hrun

/-- **A failed installation that leaves its traces**: the snapshot cannot be saved, and the entries
are gone from the log while the state machine has them. -/
theorem failedInstall_changes :
    (handleInstallSnapshot bothEntries).run (fullDisk, ([] : List ℕ)) =
        .error (.storage (.io "no space left on device")) (cutFollower, [10, 20]) ∧
      bothEntries.term = fullDisk.currentTerm ∧ cutFollower.log ≠ fullDisk.log ∧
      [10, 20] ≠ ([] : List ℕ) :=
  ⟨rfl, rfl, by decide, by decide⟩

end OneChunk

end Pirc.Raft
