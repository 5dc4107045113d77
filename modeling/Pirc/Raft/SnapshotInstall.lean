import Pirc.Raft.CompactedLog

/-!
# Raft: installing a snapshot

One node of a cluster, next to the sequence of entries the cluster has committed. The rest of the
cluster is an environment that keeps what Raft promises: logs match, leaders hold what is committed,
and a leader commits only what is. Snapshots of committed prefixes may reach the node at any time,
so also late.

`handle_install_snapshot` never compares the snapshot's index with the node's own positions before
it restores the state machine and cuts the log; only the commit and apply positions are guarded.
-/

namespace Pirc.Raft

variable {T M : Type}

/-! ## What is committed -/

/-- The logs that existed in a cluster, over all nodes and all times: every log grew entry by entry,
carries its positions, and matches all others. -/
structure ClusterLogs (T : Type) where
  logs : Set (List (LogEntry T))
  nil : [] ∈ logs
  take : ∀ {l}, l ∈ logs → ∀ n, l.take n ∈ logs
  agree : ∀ {l l'}, l ∈ logs → l' ∈ logs → TermsAgree l l'
  contiguous : ∀ {l}, l ∈ logs → RaftLog.Contiguous 1 l
  pos : ∀ {l}, l ∈ logs → ∀ e ∈ l, 0 < e.term

def ClusterLogs.ofLog (l : List (LogEntry T)) (contiguous : RaftLog.Contiguous 1 l)
    (pos : ∀ e ∈ l, 0 < e.term) : ClusterLogs T where
  logs := {p | p <+: l}
  nil := List.nil_prefix
  take hp n := (List.take_prefix n _).trans hp
  agree := by
    intro p q hp hq i x y hx hy _
    have hcut : ∀ {r : List (LogEntry T)} {z : LogEntry T}, r <+: l → r[i]? = some z →
        r.take (i + 1) = l.take (i + 1) := by
      intro r z hr hz
      have hlt := (List.getElem?_eq_some_iff.mp hz).1
      rw [List.prefix_iff_eq_take.mp hr, List.take_take, min_eq_left (by omega)]
    rw [hcut hp hx, hcut hq hy]
  contiguous := by
    intro p hp
    rw [List.prefix_iff_eq_take.mp hp]
    exact contiguous.take _
  pos := by
    intro p hp e he
    exact pos e (hp.subset he)

def replay [StateMachine T M] (sm : M) (l : List (LogEntry T)) : M :=
  l.foldl (fun sm e => StateMachine.apply sm e.command) sm

/-- **A genuine snapshot in one chunk**: it names a committed position and the term there, and the
state machine restores the state at that position from it. -/
structure InstallSnapshot.Genuine [StateMachine T M] (req : InstallSnapshot) (sm₀ : M)
    (committed : List (LogEntry T)) : Prop where
  offset : req.offset = 0
  done : req.done = true
  pos : 0 < req.lastIncludedIndex
  le : req.lastIncludedIndex ≤ committed.length
  term : req.lastIncludedTerm =
    Ledger.lastTerm LogEntry.term (committed.take req.lastIncludedIndex)
  restore : ∀ sm : M, StateMachine.restore sm req.data =
    (.ok (), replay sm₀ (committed.take req.lastIncludedIndex))

/-- The log holds the entry at its position, or has it compacted away. -/
def RaftLog.Covers (log : RaftLog T) (p : ℕ) (e : LogEntry T) : Prop :=
  p < log.offset ∨ log.get (p + 1) = some e

/-! ## Runs -/

/-- A node, and what is committed. -/
structure CommitRun (T M : Type) where
  driver : RaftDriver T M
  committed : List (LogEntry T) := []

/-- The cluster commits more entries, or something happens to the node. -/
inductive CommitEvent (T : Type)
  | commit (entries : List (LogEntry T))
  | call (e : Event T)

namespace CommitRun

variable [StateMachine T M]

/-- **What Raft promises the node**: requests carry a segment of some log that has the leader's
commit position and agrees with what is committed as far as the node knows it; a leader extends its
log and commits only what is committed. Snapshots are genuine. -/
def Promised (env : ClusterLogs T) (sm₀ : M) (r : CommitRun T M) : Event T → Prop
  | .deliver _ _ (.appendEntries req) =>
    BeyondEnd req ∨ ∃ l ∈ env.logs, Segment l req ∧
      req.leaderCommit ≤ req.prevLogIndex + req.entries.length ∧
      l.take req.leaderCommit <+: r.committed ∧
      l.take r.driver.node.volatile.commitIndex <+: r.committed
  | .deliver _ _ (.installSnapshot req) => req.done = false ∨ req.Genuine sm₀ r.committed
  | .clientRequest _ command =>
    ∀ l ∈ env.logs, r.driver.node.log.Represents l →
      l ++ [⟨r.driver.node.currentTerm, r.driver.node.log.lastIndex + 1, command⟩] ∈ env.logs
  | e => ∀ p, r.driver.node.volatile.commitIndex ≤ p →
      p < (e.act r.driver).node.volatile.commitIndex →
      ∃ x, r.driver.node.log.get (p + 1) = some x ∧ r.committed[p]? = some x

def system (env : ClusterLogs T) (sm₀ : M) : System (CommitRun T M) (CommitEvent T) where
  enabled r
    | .commit entries => r.committed ++ entries ∈ env.logs
    | .call e => r.Promised env sm₀ e
  step r
    | .commit entries => { r with committed := r.committed ++ entries }
    | .call e => { r with driver := e.act r.driver }

omit [StateMachine T M] in
/-- A fresh node on empty storage. -/
def initial (config : RaftConfig) (sm₀ : M) : CommitRun T M where
  driver := { node := RaftNode.new config {}, stateMachine := sm₀ }

/-- **An installation moves the node forward**: afterwards the state machine is where `last_applied`
says, and every committed entry past the snapshot that the log covered is covered still. -/
def Forward (sm₀ : M) (committed : List (LogEntry T)) (k : ℕ) (node : RaftNode T)
    (node' : RaftNode T) (sm' : M) : Prop :=
  sm' = replay sm₀ (committed.take node'.volatile.lastApplied) ∧
  ∀ p e, k ≤ p → committed[p]? = some e → node.log.Covers p e → node'.log.Covers p e

/-- **The snapshot reaches the node's positions**: it is not below the compaction point, and not
below `last_applied` either, unless the commands in between leave the state machine as it was. A
stale leader's snapshot is refused. -/
def Reaches (sm₀ : M) (r : CommitRun T M) (req : InstallSnapshot) : Prop :=
  req.term < r.driver.node.currentTerm ∨
  (r.driver.node.log.offset ≤ req.lastIncludedIndex ∧
    (r.driver.node.volatile.lastApplied ≤ req.lastIncludedIndex ∨
      replay sm₀ (r.committed.take r.driver.node.volatile.lastApplied) =
        replay sm₀ (r.committed.take req.lastIncludedIndex)))

/-- Every snapshot that completes reaches the node's positions. -/
def reaching (sm₀ : M) (r : CommitRun T M) : CommitEvent T → Prop
  | .call (.deliver _ _ (.installSnapshot req)) => req.done = true → r.Reaches sm₀ req
  | _ => True

/-- **Invariant**: the log stands for a log of the cluster that holds what is committed up to the
commit position, and the state machine is at `last_applied`. -/
structure Inv (env : ClusterLogs T) (sm₀ : M) (r : CommitRun T M) : Prop where
  reliable : r.driver.node.storage.Reliable
  committed : r.committed ∈ env.logs
  log : ∃ l ∈ env.logs, r.driver.node.log.Represents l ∧
    r.driver.node.volatile.commitIndex ≤ l.length ∧
    l.take r.driver.node.volatile.commitIndex <+: r.committed
  offset_le : r.driver.node.log.offset ≤ r.driver.node.volatile.lastApplied
  applied_le : r.driver.node.volatile.lastApplied ≤ r.driver.node.volatile.commitIndex
  machine : r.driver.stateMachine =
    replay sm₀ (r.committed.take r.driver.node.volatile.lastApplied)

end CommitRun

/-! ## Cutting the log -/

section Cutting

variable {node : RaftNode T} {l committed : List (LogEntry T)} {k p : ℕ} {e : LogEntry T}

theorem Ledger.lastTerm_take_succ (he : committed[p]? = some e) :
    Ledger.lastTerm LogEntry.term (committed.take (p + 1)) = e.term := by
  have hlt := (List.getElem?_eq_some_iff.mp he).1
  rw [Ledger.lastTerm, List.getLast?_eq_getElem?, List.length_take_of_le hlt, Nat.succ_sub_one,
    List.getElem?_take_of_lt (Nat.lt_succ_self p), he]
  rfl

namespace RaftLog.Represents

theorem covers_iff {log : RaftLog T} (h : log.Represents l) :
    log.Covers p e ↔ p < log.offset ∨ l[p]? = some e := by
  unfold RaftLog.Covers
  rcases Nat.lt_or_ge p log.offset with hlt | hge
  · simp [hlt]
  · rw [h.get_succ hge]

/-- **Cutting the log at a committed point** keeps the suffix exactly where the log holds that
point. -/
theorem cutLog_cases (h : node.log.Represents l) (hagree : TermsAgree l committed) (hpos : 0 < k)
    (hk : k ≤ committed.length) (hoff : node.log.offset ≤ k) :
    (committed.take k <+: l ∧
      node.cutLog k (Ledger.lastTerm LogEntry.term (committed.take k)) = node.log.compactTo k) ∨
    (¬ committed.take k <+: l ∧
      node.cutLog k (Ledger.lastTerm LogEntry.term (committed.take k)) =
        node.log.resetToSnapshot k (Ledger.lastTerm LogEntry.term (committed.take k))) := by
  obtain ⟨p, rfl⟩ : ∃ p, k = p + 1 := ⟨k - 1, by omega⟩
  have he : committed[p]? = some committed[p] := List.getElem?_eq_getElem hk
  rw [Ledger.lastTerm_take_succ he, RaftNode.cutLog, h.termAt_succ hoff]
  split_ifs with hterm
  · obtain ⟨x, hx, hxterm⟩ := Option.map_eq_some_iff.mp hterm
    refine .inl ⟨?_, rfl⟩
    rw [← hagree p x _ hx he hxterm]
    exact List.take_prefix _ _
  · refine .inr ⟨?_, rfl⟩
    intro hp
    apply hterm
    rw [Ledger.getElem?_of_isPrefix hp (by rw [List.getElem?_take_of_lt (Nat.lt_succ_self p), he])]
    rfl

theorem covers_cutLog (h : node.log.Represents l) (hagree : TermsAgree l committed) (hpos : 0 < k)
    (hk : k ≤ committed.length) (hoff : node.log.offset ≤ k) (hp : k ≤ p)
    (he : committed[p]? = some e) (hcovers : node.log.Covers p e) :
    (node.cutLog k (Ledger.lastTerm LogEntry.term (committed.take k))).Covers p e := by
  have hl : l[p]? = some e := by
    rcases h.covers_iff.mp hcovers with hlt | hl
    · omega
    · exact hl
  rcases h.cutLog_cases hagree hpos hk hoff with ⟨-, heq⟩ | ⟨hnot, -⟩
  · rw [heq]
    exact (h.compactTo k).covers_iff.mpr (.inr hl)
  · -- a log that holds a later committed entry holds the point as well
    have hsame := hagree p e e hl he rfl
    refine absurd ?_ hnot
    rw [← min_eq_left (show k ≤ p + 1 by omega), ← List.take_take, ← hsame, List.take_take]
    exact List.take_prefix _ _

end RaftLog.Represents

/-- Cutting below the offset drops the whole log, and forgets what it had compacted away. -/
theorem not_covers_cutLog (hlt : k < node.log.offset) (t : ℕ) : ¬ (node.cutLog k t).Covers k e := by
  have hnone : node.log.termAt k = none := RaftLog.Represents.termAt_of_lt hlt
  rw [RaftNode.cutLog, hnone, if_neg (Option.some_ne_none t).symm]
  rintro (hbelow | hget)
  · exact lt_irrefl k hbelow
  · have hnil : (node.log.resetToSnapshot k t).get (k + 1) = none := by
      have hfirst := (node.log.resetToSnapshot k t).get_offset_add 0
      exact hfirst
    rw [hnil] at hget
    cases hget

end Cutting

/-! ## The positions of a node -/

namespace RaftNode

variable {node node' : RaftNode T}

theorem Sends.volatile_eq {P : NodeId → RaftMessage T → Prop} (h : node.Sends P node') :
    node'.volatile = node.volatile := by
  obtain ⟨out, rfl, -⟩ := h
  rfl

theorem volatile_becomeLeader (node : RaftNode T) : node.becomeLeader.volatile = node.volatile :=
  node.lead.sendAppendEntriesToAll_sends.volatile_eq

theorem volatile_requestVotes (node : RaftNode T) : node.requestVotes.volatile = node.volatile := by
  unfold requestVotes
  split_ifs
  · exact volatile_becomeLeader node
  · exact node.voteRequests_sends.volatile_eq

theorem volatile_countVote (node : RaftNode T) (sender : NodeId) (resp : RequestVoteResponse) :
    (node.countVote sender resp).volatile = node.volatile := by
  unfold countVote
  split_ifs
  · rfl
  · dsimp only
    split_ifs
    · exact volatile_becomeLeader _
    · rfl
  · rfl

theorem volatile_advanceCommitIndex (node : RaftNode T) : ∃ c, node.volatile.commitIndex ≤ c ∧
    node.advanceCommitIndex.volatile = { node.volatile with commitIndex := c } := by
  unfold advanceCommitIndex
  split_ifs
  · exact ⟨_, le_rfl, rfl⟩
  · cases node.leaderState with
    | none => exact ⟨_, le_rfl, rfl⟩
    | some leader =>
      dsimp only
      split_ifs with hlt
      · obtain ⟨_, _, _, _, heq⟩ := commitMembershipChangeIfPending_eq (T := T) _ _
        rw [heq]
        exact ⟨_, hlt.le, rfl⟩
      · exact ⟨_, le_rfl, rfl⟩

theorem volatile_updateProgress (node : RaftNode T) (f : LeaderState → LeaderState) :
    ∃ c, node.volatile.commitIndex ≤ c ∧
      (node.updateProgress f).volatile = { node.volatile with commitIndex := c } := by
  unfold updateProgress
  split_ifs
  · exact ⟨_, le_rfl, rfl⟩
  · obtain ⟨c, hle, heq⟩ :=
      volatile_advanceCommitIndex { node with leaderState := node.leaderState.map f }
    exact ⟨c, hle, heq⟩

end RaftNode

/-! ## Installing -/

section Install

variable [StateMachine T M] {env : ClusterLogs T} {sm₀ : M} {r : CommitRun T M}

theorem InstallSnapshot.Genuine.run_eq {node : RaftNode T} {req : InstallSnapshot}
    {committed : List (LogEntry T)} (h : req.Genuine sm₀ committed)
    (hreliable : node.storage.Reliable) (hterm : node.currentTerm ≤ req.term) (sm : M) :
    (handleInstallSnapshot req).run (node, sm) =
      .ok ⟨(node.receiving req none).currentTerm⟩
        (RaftNode.installed
          { node.receiving req none with
            log := node.cutLog req.lastIncludedIndex
              (Ledger.lastTerm LogEntry.term (committed.take req.lastIncludedIndex)) }
          ⟨req.lastIncludedIndex, req.lastIncludedTerm, req.data⟩,
        replay sm₀ (committed.take req.lastIncludedIndex)) := by
  have hreliable' : (node.receiving req none).storage.Reliable :=
    node.observe_reliable hreliable req.term
  rw [handleInstallSnapshot_eq hreliable hterm, if_pos h.offset]
  dsimp only
  rw [if_neg (not_not.mpr h.done), finishInstall_eq hreliable', RaftNode.cutLog_receiving]
  dsimp only
  rw [h.restore, ← h.term]

namespace CommitRun

theorem Inv.commit_le (h : r.Inv env sm₀) :
    r.driver.node.volatile.commitIndex ≤ r.committed.length := by
  obtain ⟨l, -, -, hlen, hp⟩ := h.log
  have hle := hp.length_le
  rwa [List.length_take_of_le hlen] at hle

/-- **An installation moves the node forward exactly if the snapshot reaches its positions.** -/
theorem Inv.forward_iff (h : r.Inv env sm₀) {req : InstallSnapshot}
    (hgenuine : req.Genuine sm₀ r.committed) {resp : InstallSnapshotResponse} {node' : RaftNode T}
    {sm' : M}
    (hrun : (handleInstallSnapshot req).run (r.driver.node, r.driver.stateMachine) =
      .ok resp (node', sm')) :
    Forward sm₀ r.committed req.lastIncludedIndex r.driver.node node' sm' ↔ r.Reaches sm₀ req := by
  obtain ⟨l, hl, hlog, -, -⟩ := h.log
  have hagree := env.agree hl h.committed
  have hoff := h.offset_le
  have happlied := h.applied_le
  have hcommit := h.commit_le
  rcases Nat.lt_or_ge req.term r.driver.node.currentTerm with hstale | hterm
  · -- a stale leader is refused, and nothing changes
    rw [handleInstallSnapshot_stale h.reliable hstale] at hrun
    cases hrun
    exact iff_of_true ⟨h.machine, fun p e _ _ hcovers => hcovers⟩ (.inl hstale)
  rw [hgenuine.run_eq h.reliable hterm] at hrun
  cases hrun
  constructor
  · rintro ⟨hmachine, hcovers⟩
    refine .inr ⟨?_, ?_⟩
    · by_contra hlt
      rw [not_le] at hlt
      have hin : req.lastIncludedIndex < r.committed.length := by omega
      exact not_covers_cutLog hlt _
        (hcovers req.lastIncludedIndex _ le_rfl (List.getElem?_eq_getElem hin) (.inl hlt))
    · rcases Nat.le_total r.driver.node.volatile.lastApplied req.lastIncludedIndex with hle | hle
      · exact .inl hle
      · have hmax : max r.driver.node.volatile.lastApplied req.lastIncludedIndex =
            r.driver.node.volatile.lastApplied := max_eq_left hle
        have hstate : replay sm₀ (r.committed.take req.lastIncludedIndex) =
            replay sm₀ (r.committed.take
              (max r.driver.node.volatile.lastApplied req.lastIncludedIndex)) := by
          simpa [RaftNode.installed, RaftNode.receiving, RaftNode.follow] using hmachine
        rw [hmax] at hstate
        exact .inr hstate.symm
  · rintro (hlt | ⟨hlow, hstate⟩)
    · omega
    refine ⟨?_, ?_⟩
    · have hpositions : replay sm₀ (r.committed.take
          (max r.driver.node.volatile.lastApplied req.lastIncludedIndex)) =
            replay sm₀ (r.committed.take req.lastIncludedIndex) := by
        rcases Nat.le_total r.driver.node.volatile.lastApplied req.lastIncludedIndex with hle | hle
        · rw [max_eq_right hle]
        · rw [max_eq_left hle]
          rcases hstate with hle' | hstate
          · rw [le_antisymm hle' hle]
          · exact hstate
      simpa [RaftNode.installed, RaftNode.receiving, RaftNode.follow] using hpositions.symm
    · intro p e hp he hcovers
      exact hlog.covers_cutLog hagree hgenuine.pos hgenuine.le hlow hp he hcovers

/-! ### Steps -/

theorem take_isPrefix_of_forall {l committed : List (LogEntry T)} {c : ℕ}
    (h : ∀ p, p < c → ∃ x, l[p]? = some x ∧ committed[p]? = some x) : l.take c <+: committed := by
  rw [List.prefix_iff_getElem?]
  intro p hp
  have hpc : p < c := hp.trans_le (List.length_take_le _ _)
  obtain ⟨x, hx, hcommitted⟩ := h p hpc
  rw [hcommitted, List.getElem_take]
  obtain ⟨hlt, hget⟩ := List.getElem?_eq_some_iff.mp hx
  rw [← hget]

/-- A step that leaves the log and the application alone, and moves the commit position only over
committed entries. -/
theorem Inv.raise (h : r.Inv env sm₀) {d' : RaftDriver T M} (hreliable : d'.node.storage.Reliable)
    (hlog : d'.node.log = r.driver.node.log)
    (happlied : d'.node.volatile.lastApplied = r.driver.node.volatile.lastApplied)
    (hmachine : d'.stateMachine = r.driver.stateMachine)
    (hle : r.driver.node.volatile.commitIndex ≤ d'.node.volatile.commitIndex)
    (hpromised : ∀ p, r.driver.node.volatile.commitIndex ≤ p →
      p < d'.node.volatile.commitIndex →
      ∃ x, r.driver.node.log.get (p + 1) = some x ∧ r.committed[p]? = some x) :
    Inv env sm₀ { r with driver := d' } := by
  obtain ⟨l, hl, hrep, hlen, hp⟩ := h.log
  -- every position up to the new commit position holds the committed entry
  have hall : ∀ p, p < d'.node.volatile.commitIndex →
      ∃ x, l[p]? = some x ∧ r.committed[p]? = some x := by
    intro p hpc
    rcases Nat.lt_or_ge p r.driver.node.volatile.commitIndex with hlt | hge
    · have hx : l[p]? = some l[p] := List.getElem?_eq_getElem (hlt.trans_le hlen)
      refine ⟨_, hx, Ledger.getElem?_of_isPrefix hp ?_⟩
      rw [List.getElem?_take_of_lt hlt, hx]
    · obtain ⟨x, hget, hx⟩ := hpromised p hge hpc
      have hoff := h.offset_le
      have happlied := h.applied_le
      rw [hrep.get_succ (by omega)] at hget
      exact ⟨x, hget, hx⟩
  refine ⟨hreliable, h.committed, ⟨l, hl, ?_, ?_, take_isPrefix_of_forall hall⟩, ?_, ?_, ?_⟩
  · show d'.node.log.Represents l
    rw [hlog]
    exact hrep
  · show d'.node.volatile.commitIndex ≤ l.length
    by_contra hlt
    rw [not_le] at hlt
    obtain ⟨x, hx, -⟩ := hall l.length hlt
    exact lt_irrefl _ (List.getElem?_eq_some_iff.mp hx).1
  · show d'.node.log.offset ≤ d'.node.volatile.lastApplied
    rw [hlog, happlied]
    exact h.offset_le
  · show d'.node.volatile.lastApplied ≤ d'.node.volatile.commitIndex
    rw [happlied]
    exact h.applied_le.trans hle
  · show d'.stateMachine = replay sm₀ (r.committed.take d'.node.volatile.lastApplied)
    rw [happlied, hmachine]
    exact h.machine

theorem Inv.quiet (h : r.Inv env sm₀) {d' : RaftDriver T M} (hreliable : d'.node.storage.Reliable)
    (hlog : d'.node.log = r.driver.node.log)
    (hvolatile : d'.node.volatile = r.driver.node.volatile)
    (hmachine : d'.stateMachine = r.driver.stateMachine) :
    Inv env sm₀ { r with driver := d' } := by
  refine h.raise hreliable hlog (by rw [hvolatile]) hmachine (by rw [hvolatile]) ?_
  intro p hp hlt
  rw [hvolatile] at hlt
  omega

theorem Inv.accept (h : r.Inv env sm₀) {req : AppendEntries T} {log : RaftLog T}
    {l' : List (LogEntry T)} (hl' : l' ∈ env.logs) (hseg : Segment l' req)
    (hlead : req.leaderCommit ≤ req.prevLogIndex + req.entries.length)
    (hcommit : l'.take req.leaderCommit <+: r.committed)
    (hknown : l'.take r.driver.node.volatile.commitIndex <+: r.committed)
    (hlog : r.driver.node.log.appendEntries req.prevLogIndex req.prevLogTerm req.entries =
      some log) {d' : RaftDriver T M} (hreliable : d'.node.storage.Reliable)
    (hlog' : d'.node.log = log)
    (hvolatile : d'.node.volatile = { r.driver.node.volatile with
      commitIndex := r.driver.node.followerCommit req.leaderCommit log })
    (hmachine : d'.stateMachine = r.driver.stateMachine) :
    Inv env sm₀ { r with driver := d' } := by
  obtain ⟨l, hl, hrep, hlen, hp⟩ := h.log
  have hoff := h.offset_le
  have happlied := h.applied_le
  set m := req.prevLogIndex + req.entries.length
  have hml : m ≤ l'.length := by
    have hentries := hseg.entries.length_le
    have hprev := hseg.prev_le
    rw [List.length_drop] at hentries
    omega
  -- the request has nothing else where the node knows what is committed
  have hboth : ∀ n, n ≤ r.driver.node.volatile.commitIndex → (l'.take m).take n <+: l := by
    intro n hn
    have hcut : (l'.take m).take n <+: r.committed := by
      rw [List.take_take, min_comm, ← List.take_take]
      exact (List.take_prefix _ _).trans ((List.take_prefix_take_left hn).trans hknown)
    refine (List.prefix_of_prefix_length_le hcut hp ?_).trans (List.take_prefix _ _)
    rw [List.length_take_of_le hlen]
    exact (List.length_take_le _ _).trans hn
  obtain ⟨hrep', hoffset⟩ := hrep.appendEntries (env.agree hl hl') (env.contiguous hl') hseg
    (fun _ => hboth _ (by omega)) hlog
  have hmerge : Ledger.merge l (l'.take m) ∈ env.logs := by
    unfold Ledger.merge
    split_ifs
    · exact hl
    · exact env.take hl' m
  -- both the old and the leader's commit position are committed in the merged log
  have hold : r.driver.node.volatile.commitIndex ≤ (Ledger.merge l (l'.take m)).length ∧
      (Ledger.merge l (l'.take m)).take r.driver.node.volatile.commitIndex <+: r.committed := by
    unfold Ledger.merge
    split_ifs with hpre
    · exact ⟨hlen, hp⟩
    · have hlt : r.driver.node.volatile.commitIndex < m := by
        by_contra hge
        rw [not_lt] at hge
        apply hpre
        have hall := hboth m hge
        rwa [List.take_take, min_self] at hall
      rw [List.length_take_of_le hml, List.take_take, min_eq_left hlt.le]
      exact ⟨hlt.le, hknown⟩
  have hnew : (Ledger.merge l (l'.take m)).take (min req.leaderCommit
      (Ledger.merge l (l'.take m)).length) <+: r.committed := by
    refine (List.take_prefix_take_left (min_le_left _ _)).trans ?_
    unfold Ledger.merge
    split_ifs with hpre
    · have hsame : l.take req.leaderCommit = l'.take req.leaderCommit := by
        obtain ⟨rest, rfl⟩ := hpre
        rw [List.take_append_of_le_length (by rwa [List.length_take_of_le hml]), List.take_take,
          min_eq_left hlead]
      rw [hsame]
      exact hcommit
    · rw [List.take_take, min_eq_left hlead]
      exact hcommit
  have hvol : d'.node.volatile.lastApplied = r.driver.node.volatile.lastApplied := by
    rw [hvolatile]
  have hcom : d'.node.volatile.commitIndex =
      if r.driver.node.volatile.commitIndex < req.leaderCommit then
        min req.leaderCommit (Ledger.merge l (l'.take m)).length
      else r.driver.node.volatile.commitIndex := by
    rw [hvolatile, ← hrep'.lastIndex]
    rfl
  have hmono : r.driver.node.volatile.commitIndex ≤ d'.node.volatile.commitIndex := by
    rw [hcom]
    split_ifs with hlt
    · exact le_min hlt.le hold.1
    · exact le_rfl
  refine ⟨hreliable, h.committed, ⟨_, hmerge, ?_, ?_, ?_⟩, ?_, ?_, ?_⟩
  · show d'.node.log.Represents _
    rw [hlog']
    exact hrep'
  · show d'.node.volatile.commitIndex ≤ _
    rw [hcom]
    split_ifs
    · exact min_le_right _ _
    · exact hold.1
  · show (Ledger.merge l (l'.take m)).take d'.node.volatile.commitIndex <+: r.committed
    rw [hcom]
    split_ifs
    · exact hnew
    · exact hold.2
  · show d'.node.log.offset ≤ d'.node.volatile.lastApplied
    rw [hlog', hoffset, hvol]
    exact h.offset_le
  · show d'.node.volatile.lastApplied ≤ d'.node.volatile.commitIndex
    rw [hvol]
    exact h.applied_le.trans hmono
  · show d'.stateMachine = replay sm₀ (r.committed.take d'.node.volatile.lastApplied)
    rw [hvol, hmachine]
    exact h.machine

omit [StateMachine T M] in
theorem filterMap_get {log : RaftLog T} {l : List (LogEntry T)} (h : log.Represents l) {n : ℕ} :
    ∀ {s : ℕ}, log.offset ≤ s → s + n ≤ l.length →
      (List.range' (s + 1) n).filterMap log.get = (l.drop s).take n := by
  induction n with
  | zero =>
    intro s _ _
    simp
  | succ n ih =>
    intro s hs hn
    have hlt : s < l.length := by omega
    have hget : log.get (s + 1) = some l[s] := by
      rw [h.get_succ hs, List.getElem?_eq_getElem hlt]
    rw [List.range'_succ, List.filterMap_cons, hget, ih (by omega) (by omega),
      ← List.getElem_cons_drop hlt, List.take_succ_cons]

theorem Inv.applyCommittedEntries (h : r.Inv env sm₀) :
    Inv env sm₀ { r with driver := r.driver.applyCommittedEntries } := by
  unfold RaftDriver.applyCommittedEntries
  split_ifs with hle
  · exact h
  · rw [not_le] at hle
    obtain ⟨l, hl, hrep, hlen, hp⟩ := h.log
    have hmax : max r.driver.node.volatile.lastApplied r.driver.node.volatile.commitIndex =
        r.driver.node.volatile.commitIndex := max_eq_right hle.le
    refine ⟨h.reliable, h.committed, ⟨l, hl, hrep, hlen, hp⟩, ?_, ?_, ?_⟩
    · show r.driver.node.log.offset ≤ max _ _
      exact h.offset_le.trans (le_max_left _ _)
    · show max r.driver.node.volatile.lastApplied r.driver.node.volatile.commitIndex ≤
        r.driver.node.volatile.commitIndex
      exact hmax.le
    · -- the entries applied are the committed ones from `last_applied` on
      have hsame : l.take r.driver.node.volatile.commitIndex =
          r.committed.take r.driver.node.volatile.commitIndex := by
        have heq := List.prefix_iff_eq_take.mp hp
        rwa [List.length_take_of_le hlen] at heq
      have hunapplied : r.driver.node.unapplied =
          (r.committed.take r.driver.node.volatile.commitIndex).drop
            r.driver.node.volatile.lastApplied := by
        rw [← hsame, List.drop_take]
        exact filterMap_get hrep h.offset_le (by omega)
      have hstart : r.committed.take r.driver.node.volatile.lastApplied =
          (r.committed.take r.driver.node.volatile.commitIndex).take
            r.driver.node.volatile.lastApplied := by
        rw [List.take_take, min_eq_left hle.le]
      show r.driver.node.unapplied.foldl (fun sm e => StateMachine.apply sm e.command)
        r.driver.stateMachine = replay sm₀ (r.committed.take (max _ _))
      rw [hmax, h.machine, hunapplied, hstart, replay, ← List.foldl_append, List.take_append_drop]
      rfl

omit [StateMachine T M] in
theorem offset_compactTo_le (log : RaftLog T) (k : ℕ) :
    (log.compactTo k).offset ≤ max log.offset k := by
  unfold RaftLog.compactTo
  split_ifs
  · exact le_max_left _ _
  · exact le_max_left _ _
  · exact le_max_right _ _

theorem Inv.createSnapshot (h : r.Inv env sm₀) :
    Inv env sm₀ { r with driver := r.driver.after (Raft.createSnapshot r.driver.stateMachine) } := by
  rw [RaftDriver.after]
  rcases createSnapshot_cases h.reliable r.driver.stateMachine with hrun | ⟨-, hrun⟩
  · rw [hrun]
    exact h
  · rw [hrun]
    obtain ⟨l, hl, hrep, hlen, hp⟩ := h.log
    refine ⟨h.reliable, h.committed, ⟨l, hl, hrep.compactTo _, hlen, hp⟩, ?_, h.applied_le,
      h.machine⟩
    exact (offset_compactTo_le _ _).trans (max_le h.offset_le le_rfl)

theorem Inv.clientRequest (h : r.Inv env sm₀) {command : T}
    (hpromised : ∀ l ∈ env.logs, r.driver.node.log.Represents l →
      l ++ [⟨r.driver.node.currentTerm, r.driver.node.log.lastIndex + 1, command⟩] ∈ env.logs) :
    Inv env sm₀
      { r with driver := { r.driver with node := (r.driver.node.clientRequest command).2 } } := by
  unfold RaftNode.clientRequest
  split_ifs with hs
  · exact h
  · obtain ⟨l, hl, hrep, hlen, hp⟩ := h.log
    obtain ⟨out, heq, -⟩ := (r.driver.node.appendCommand command).sendAppendEntriesToAll_sends
    rw [heq]
    refine ⟨h.reliable, h.committed, ⟨_, hpromised l hl hrep, hrep.append _, ?_, ?_⟩,
      h.offset_le, h.applied_le, h.machine⟩
    · show r.driver.node.volatile.commitIndex ≤ (l ++ [_]).length
      rw [List.length_append]
      omega
    · show (l ++ [_]).take r.driver.node.volatile.commitIndex <+: r.committed
      rwa [List.take_append_of_le_length hlen]

theorem Inv.install (h : r.Inv env sm₀) {req : InstallSnapshot}
    (hgenuine : req.Genuine sm₀ r.committed) (hterm : r.driver.node.currentTerm ≤ req.term)
    (hreaches : r.Reaches sm₀ req) {node' : RaftNode T} {sm' : M} {resp : InstallSnapshotResponse}
    (hrun : (handleInstallSnapshot req).run (r.driver.node, r.driver.stateMachine) =
      .ok resp (node', sm')) {d' : RaftDriver T M} (hreliable : d'.node.storage.Reliable)
    (hlog : d'.node.log = node'.log) (hvolatile : d'.node.volatile = node'.volatile)
    (hmachine : d'.stateMachine = sm') :
    Inv env sm₀ { r with driver := d' } := by
  have hforward := ((h.forward_iff hgenuine hrun).mpr hreaches).1
  obtain ⟨l, hl, hrep, hlen, hp⟩ := h.log
  have hoff := h.offset_le
  have happlied := h.applied_le
  have hlow : r.driver.node.log.offset ≤ req.lastIncludedIndex := by
    rcases hreaches with hlt | ⟨hlow, -⟩
    · omega
    · exact hlow
  rw [hgenuine.run_eq h.reliable hterm] at hrun
  cases hrun
  have hcommit : d'.node.volatile.commitIndex =
      max r.driver.node.volatile.commitIndex req.lastIncludedIndex := by
    rw [hvolatile]
    simp [RaftNode.installed, RaftNode.receiving, RaftNode.follow]
  have hlast : d'.node.volatile.lastApplied =
      max r.driver.node.volatile.lastApplied req.lastIncludedIndex := by
    rw [hvolatile]
    simp [RaftNode.installed, RaftNode.receiving, RaftNode.follow]
  have hcut : d'.node.log = r.driver.node.cutLog req.lastIncludedIndex
      (Ledger.lastTerm LogEntry.term (r.committed.take req.lastIncludedIndex)) := hlog
  have hnewlog : ∃ l ∈ env.logs, d'.node.log.Represents l ∧
      d'.node.volatile.commitIndex ≤ l.length ∧
      l.take d'.node.volatile.commitIndex <+: r.committed := by
    rw [hcut, hcommit]
    rcases hrep.cutLog_cases (env.agree hl h.committed) hgenuine.pos hgenuine.le hlow with
      ⟨hpre, heq⟩ | ⟨hnot, heq⟩
    · -- the log holds the point, and with it everything up to the later of the two positions
      have hk : req.lastIncludedIndex ≤ l.length := by
        have hle := hpre.length_le
        rwa [List.length_take_of_le hgenuine.le] at hle
      rw [heq]
      refine ⟨l, hl, hrep.compactTo _, max_le hlen hk, ?_⟩
      rcases Nat.le_total r.driver.node.volatile.commitIndex req.lastIncludedIndex with hle | hle
      · have hsame := List.prefix_iff_eq_take.mp hpre
        rw [List.length_take_of_le hgenuine.le] at hsame
        rw [max_eq_right hle, ← hsame]
        exact List.take_prefix _ _
      · rwa [max_eq_left hle]
    · -- the log does not hold it: the node did not know it was committed
      have hlt : r.driver.node.volatile.commitIndex < req.lastIncludedIndex := by
        by_contra hge
        rw [not_lt] at hge
        apply hnot
        refine (List.prefix_of_prefix_length_le (List.take_prefix _ _) hp ?_).trans
          (List.take_prefix _ _)
        rw [List.length_take_of_le hlen]
        exact (List.length_take_le _ _).trans hge
      rw [heq, max_eq_right hlt.le]
      refine ⟨_, env.take h.committed _,
        RaftLog.represents_resetToSnapshot _ hgenuine.le rfl, ?_, ?_⟩
      · rw [List.length_take_of_le hgenuine.le]
      · rw [List.take_take, min_self]
        exact List.take_prefix _ _
  have hoffset : d'.node.log.offset ≤ d'.node.volatile.lastApplied := by
    rw [hcut, hlast, RaftNode.cutLog]
    split_ifs
    · exact (offset_compactTo_le _ _).trans (max_le_max hoff le_rfl)
    · exact le_max_right _ _
  refine ⟨hreliable, h.committed, hnewlog, hoffset, ?_, ?_⟩
  · show d'.node.volatile.lastApplied ≤ d'.node.volatile.commitIndex
    rw [hlast, hcommit]
    exact max_le_max happlied le_rfl
  · show d'.stateMachine = replay sm₀ (r.committed.take d'.node.volatile.lastApplied)
    rw [hmachine, hvolatile]
    exact hforward

theorem Inv.updateProgress (h : r.Inv env sm₀) {t : ℕ} {f : LeaderState → LeaderState}
    (hpromised : ∀ p, r.driver.node.volatile.commitIndex ≤ p →
      p < ((r.driver.node.observe t).updateProgress f).volatile.commitIndex →
      ∃ x, r.driver.node.log.get (p + 1) = some x ∧ r.committed[p]? = some x) :
    Inv env sm₀
      { r with driver :=
        { r.driver with node := (r.driver.node.observe t).updateProgress f } } := by
  have hcore := RaftNode.core_updateProgress (r.driver.node.observe t) f
  have hstorage : ((r.driver.node.observe t).updateProgress f).storage =
      (r.driver.node.observe t).storage := congrArg RaftNode.Core.storage hcore
  have hlog : ((r.driver.node.observe t).updateProgress f).log = (r.driver.node.observe t).log :=
    congrArg RaftNode.Core.log hcore
  obtain ⟨c, hle, heq⟩ := RaftNode.volatile_updateProgress (r.driver.node.observe t) f
  rw [RaftNode.observe_volatile] at hle heq
  refine h.raise ?_ (hlog.trans (RaftNode.observe_log _ _)) ?_ rfl ?_ hpromised
  · show ((r.driver.node.observe t).updateProgress f).storage.Reliable
    rw [hstorage]
    exact r.driver.node.observe_reliable h.reliable t
  · show ((r.driver.node.observe t).updateProgress f).volatile.lastApplied = _
    rw [heq]
  · show _ ≤ ((r.driver.node.observe t).updateProgress f).volatile.commitIndex
    rw [heq]
    exact hle

theorem Inv.deliver (h : r.Inv env sm₀) {src dst : NodeId} {msg : RaftMessage T}
    (hpromised : r.Promised env sm₀ (.deliver src dst msg))
    (hreaching : r.reaching sm₀ (.call (.deliver src dst msg))) :
    Inv env sm₀ { r with driver := (Event.deliver src dst msg).act r.driver } := by
  have hobserved : ∀ t, (r.driver.node.observe t).storage.Reliable :=
    r.driver.node.observe_reliable h.reliable
  cases msg with
  | requestVote req =>
    rw [Event.act, RaftDriver.handleInboundMessage, RaftDriver.answering]
    rcases handleRequestVote_cases h.reliable req with hrun | ⟨-, -, -, hrun⟩
    · rw [hrun]
      exact h.quiet (hobserved _) (RaftNode.observe_log _ _) (RaftNode.observe_volatile _ _) rfl
    · rw [hrun]
      exact h.quiet h.reliable (RaftNode.observe_log _ _) (RaftNode.observe_volatile _ _) rfl
  | requestVoteResponse resp =>
    rw [Event.act, RaftDriver.handleInboundMessage, RaftDriver.after,
      handleRequestVoteResponse_eq h.reliable]
    have hcore := RaftNode.core_countVote (r.driver.node.observe resp.term) src resp
    have hreliable :
        ((r.driver.node.observe resp.term).countVote src resp).core.storage.Reliable := by
      rw [hcore]
      exact hobserved resp.term
    exact h.quiet hreliable ((congrArg RaftNode.Core.log hcore).trans (RaftNode.observe_log _ _))
      ((RaftNode.volatile_countVote _ _ _).trans (RaftNode.observe_volatile _ _)) rfl
  | appendEntries req =>
    rw [Event.act, RaftDriver.handleInboundMessage, RaftDriver.answering]
    rcases handleAppendEntries_cases h.reliable req with
      ⟨-, hrun⟩ | ⟨-, -, hrun⟩ | ⟨log, hterm, hlog, hrun⟩
    · rw [hrun]
      exact h.quiet h.reliable rfl rfl rfl
    · rw [hrun]
      exact h.quiet (hobserved _) (RaftNode.observe_log _ _) (RaftNode.observe_volatile _ _) rfl
    · rw [hrun]
      rcases hpromised with hbeyond | ⟨l', hl', hseg, hlead, hcommit, hknown⟩
      · obtain ⟨l, hl, hrep, -, -⟩ := h.log
        rw [hrep.appendEntries_beyondEnd (env.pos hl) hbeyond] at hlog
        cases hlog
      · exact h.accept hl' hseg hlead hcommit hknown hlog (hobserved _) rfl rfl rfl
  | appendEntriesResponse resp =>
    have hact : (Event.deliver src dst (.appendEntriesResponse resp)).act r.driver =
        { r.driver with
          node := (r.driver.node.observe resp.term).updateProgress fun leader =>
            RaftNode.recordAppendResponse leader src resp } := by
      rw [Event.act, RaftDriver.handleInboundMessage, RaftDriver.after,
        handleAppendEntriesResponse_eq h.reliable]
    simp only [Promised, hact] at hpromised
    rw [hact]
    exact h.updateProgress hpromised
  | installSnapshot req =>
    rw [Event.act, RaftDriver.handleInboundMessage]
    rcases Nat.lt_or_ge req.term r.driver.node.currentTerm with hstale | hterm
    · rw [handleInstallSnapshot_stale h.reliable hstale]
      exact h.quiet h.reliable rfl rfl rfl
    by_cases hdone : req.done = true
    · have hgenuine : req.Genuine sm₀ r.committed := by
        rcases hpromised with hnot | hgenuine
        · rw [hdone] at hnot
          cases hnot
        · exact hgenuine
      have hrun := hgenuine.run_eq h.reliable hterm r.driver.stateMachine
      have hinstall := hrun
      rw [hrun]
      exact h.install hgenuine hterm (hreaching hdone) hinstall (hobserved _) rfl rfl rfl
    · -- a chunk that is not the last one is only collected
      rw [handleInstallSnapshot_eq h.reliable hterm]
      generalize (if req.offset = 0 then some req.data
        else (r.driver.node.observe req.term).pendingSnapshot.map (· ++ req.data)) = buffer
      cases buffer with
      | none =>
        exact h.quiet (hobserved req.term) (RaftNode.observe_log _ _)
          (RaftNode.observe_volatile _ _) rfl
      | some data =>
        dsimp only
        rw [if_pos hdone]
        exact h.quiet (hobserved req.term) (RaftNode.observe_log _ _)
          (RaftNode.observe_volatile _ _) rfl
  | installSnapshotResponse resp =>
    have hact : (Event.deliver src dst (.installSnapshotResponse resp)).act r.driver =
        { r.driver with
          node := (r.driver.node.observe resp.term).updateProgress fun leader =>
            RaftNode.recordSnapshotResponse r.driver.node.lastSnapshot leader src } := by
      rw [Event.act, RaftDriver.handleInboundMessage, RaftDriver.after,
        handleInstallSnapshotResponse_eq h.reliable]
    simp only [Promised, hact] at hpromised
    rw [hact]
    exact h.updateProgress hpromised

/-- **Step lemma**: what the environment promises keeps the invariant, if snapshots that complete
reach the node's positions. -/
theorem Inv.step (h : r.Inv env sm₀) {e : CommitEvent T} (henabled : (system env sm₀).enabled r e)
    (hreaching : r.reaching sm₀ e) : ((system env sm₀).step r e).Inv env sm₀ := by
  cases e with
  | commit entries =>
    obtain ⟨l, hl, hrep, hlen, hp⟩ := h.log
    have happlied := h.applied_le.trans h.commit_le
    refine ⟨h.reliable, henabled, ⟨l, hl, hrep, hlen, hp.trans (List.prefix_append _ _)⟩,
      h.offset_le, h.applied_le, ?_⟩
    show r.driver.stateMachine =
      replay sm₀ ((r.committed ++ entries).take r.driver.node.volatile.lastApplied)
    rw [List.take_append_of_le_length happlied]
    exact h.machine
  | call e =>
    have hpromised : r.Promised env sm₀ e := henabled
    show Inv env sm₀ { r with driver := e.act r.driver }
    cases e with
    | startElection i =>
      have hact : (Event.startElection i).act r.driver =
          { r.driver with node := r.driver.node.savedCampaign.requestVotes } := by
        rw [Event.act, RaftDriver.after, startElection_eq h.reliable]
      have hcore := RaftNode.core_requestVotes r.driver.node.savedCampaign
      have hreliable : r.driver.node.savedCampaign.requestVotes.core.storage.Reliable := by
        rw [hcore]
        exact h.reliable
      rw [hact]
      exact h.quiet hreliable (congrArg RaftNode.Core.log hcore)
        (RaftNode.volatile_requestVotes _) rfl
    | deliver src dst msg => exact h.deliver hpromised hreaching
    | clientRequest i command => exact h.clientRequest hpromised
    | replicateToPeer i peer =>
      obtain ⟨out, heq, -⟩ := r.driver.node.replicateToPeer_sends peer
      rw [Event.act, heq]
      exact h.quiet h.reliable rfl rfl rfl
    | advanceCommitIndex i =>
      have hcore := r.driver.node.core_advanceCommitIndex
      have hreliable : r.driver.node.advanceCommitIndex.core.storage.Reliable := by
        rw [hcore]
        exact h.reliable
      obtain ⟨c, hle, heq⟩ := r.driver.node.volatile_advanceCommitIndex
      refine h.raise hreliable (congrArg RaftNode.Core.log hcore) ?_ rfl ?_ hpromised
      · show r.driver.node.advanceCommitIndex.volatile.lastApplied = _
        rw [heq]
      · show _ ≤ r.driver.node.advanceCommitIndex.volatile.commitIndex
        rw [heq]
        exact hle
    | applyCommitted i => exact h.applyCommittedEntries
    | createSnapshot i => exact h.createSnapshot

omit [StateMachine T M] in
theorem Inv.initial [StateMachine T M] (env : ClusterLogs T) (config : RaftConfig) (sm₀ : M) :
    (CommitRun.initial config sm₀ : CommitRun T M).Inv env sm₀ where
  reliable := rfl
  committed := env.nil
  log := ⟨[], env.nil, ⟨rfl, Nat.zero_le _, rfl⟩, Nat.zero_le _, List.nil_prefix⟩
  offset_le := Nat.zero_le _
  applied_le := Nat.zero_le _
  machine := rfl

/-- **Installing a snapshot never moves a node backwards, exactly if it reaches the node's
positions**: in any state of any run in which the snapshots installed so far did. -/
theorem install_forward_iff {config : RaftConfig}
    (run : (system env sm₀).Steps (reaching sm₀) (CommitRun.initial config sm₀) r)
    {req : InstallSnapshot} (hgenuine : req.Genuine sm₀ r.committed)
    {resp : InstallSnapshotResponse} {node' : RaftNode T} {sm' : M}
    (hrun : (handleInstallSnapshot req).run (r.driver.node, r.driver.stateMachine) =
      .ok resp (node', sm')) :
    Forward sm₀ r.committed req.lastIncludedIndex r.driver.node node' sm' ↔ r.Reaches sm₀ req := by
  have hinv : r.Inv env sm₀ :=
    run.invariant (fun r e henabled hreaching hinv => hinv.step henabled hreaching)
      (Inv.initial env config sm₀)
  exact hinv.forward_iff hgenuine hrun

end CommitRun

end Install

/-! ## A late snapshot -/

/-- A state machine that keeps the bytes it is given. -/
instance : StateMachine UInt8 (List UInt8) where
  apply sm byte := sm ++ [byte]
  snapshot sm := sm
  restore _ data := (.ok (), data)

namespace CommitRun

def twoEntries : List (LogEntry UInt8) := [⟨1, 1, 10⟩, ⟨1, 2, 20⟩]

def twoLogs : ClusterLogs UInt8 := .ofLog twoEntries (by decide) (by decide)

/-- Node 2 is sent both entries, with a commit position, and applies what is committed. -/
def twoApplied (leaderCommit : ℕ) : List (CommitEvent UInt8) :=
  [.commit twoEntries, .call (.deliver 1 2 (.appendEntries ⟨1, 1, 0, 0, twoEntries, leaderCommit⟩)),
    .call (.applyCommitted 2)]

def snapshotOf (k : ℕ) (data : List UInt8) : InstallSnapshot where
  term := 1
  leaderId := 1
  lastIncludedIndex := k
  lastIncludedTerm := 1
  offset := 0
  data := data
  done := true

def twoAppliedRun (leaderCommit : ℕ) : CommitRun UInt8 (List UInt8) :=
  (system twoLogs []).exec (initial { nodeId := 2, peers := [1] } []) (twoApplied leaderCommit)

theorem promised_applyCommitted [StateMachine T M] (env : ClusterLogs T) (sm₀ : M)
    {r : CommitRun T M} {i : NodeId} : r.Promised env sm₀ (.applyCommitted i) := by
  intro p hle hlt
  have hsame : ((Event.applyCommitted i).act r.driver).node.volatile.commitIndex =
      r.driver.node.volatile.commitIndex := by
    rw [Event.act, RaftDriver.applyCommittedEntries]
    split_ifs
    · rfl
    · rfl
  omega

theorem twoApplied_legal {leaderCommit : ℕ} (h : leaderCommit ≤ 2)
    {o : CommitRun UInt8 (List UInt8) → CommitEvent UInt8 → Prop}
    (hok : ∀ r, ∀ e ∈ twoApplied leaderCommit, o r e) :
    (system twoLogs []).Legal o (initial { nodeId := 2, peers := [1] } [])
      (twoApplied leaderCommit) := by
  refine ⟨List.prefix_rfl, hok _ _ (by simp [twoApplied]), ?_, hok _ _ (by simp [twoApplied]),
    promised_applyCommitted twoLogs [], hok _ _ (by simp [twoApplied]), trivial⟩
  refine .inr ⟨twoEntries, List.prefix_rfl, ⟨Nat.zero_le _, List.prefix_rfl, ?_⟩, h,
    List.take_prefix _ _, List.take_prefix _ _⟩
  intro p hp
  cases hp

/-- A snapshot of both entries reaches a node that applied the first one. -/
theorem install_forward_iff_ahead :
    (snapshotOf 2 [10, 20]).Genuine ([] : List UInt8) (twoAppliedRun 1).committed ∧
    ∃ resp node' sm', (handleInstallSnapshot (snapshotOf 2 [10, 20])).run
        ((twoAppliedRun 1).driver.node, (twoAppliedRun 1).driver.stateMachine) =
          .ok resp (node', sm') ∧
      sm' = [10, 20] ∧
      Forward ([] : List UInt8) (twoAppliedRun 1).committed 2 (twoAppliedRun 1).driver.node node' sm' := by
  have hgenuine : (snapshotOf 2 [10, 20]).Genuine ([] : List UInt8) (twoAppliedRun 1).committed :=
    ⟨rfl, rfl, by decide, by decide, by decide, fun _ => rfl⟩
  have hlegal : (system twoLogs []).Legal (reaching ([] : List UInt8))
      (initial { nodeId := 2, peers := [1] } [])
      (twoApplied 1) := by
    refine twoApplied_legal (by decide) ?_
    intro r e he
    rcases List.mem_cons.mp he with rfl | he
    · trivial
    rcases List.mem_cons.mp he with rfl | he
    · trivial
    rw [List.mem_singleton.mp he]
    trivial
  have hreliable : (twoAppliedRun 1).driver.node.storage.Reliable := rfl
  have hrun := hgenuine.run_eq hreliable (by decide) (twoAppliedRun 1).driver.stateMachine
  refine ⟨hgenuine, _, _, _, hrun, by decide, ?_⟩
  exact (install_forward_iff hlegal.steps hgenuine hrun).mpr (.inr ⟨by decide, .inl (by decide)⟩)

/-- A node that applied both entries is sent a snapshot of the first one: its state machine goes
back, and stays behind `last_applied`. -/
theorem late_snapshot_reverts : ¬ ∀ (env : ClusterLogs UInt8) (config : RaftConfig)
    (r : CommitRun UInt8 (List UInt8)),
    (system env []).Steps System.Free (initial config []) r →
      ∀ req : InstallSnapshot, req.Genuine ([] : List UInt8) r.committed → ∀ resp node' sm',
        (handleInstallSnapshot req).run (r.driver.node, r.driver.stateMachine) =
          .ok resp (node', sm') →
        Forward ([] : List UInt8) r.committed req.lastIncludedIndex r.driver.node node' sm' := by
  intro hall
  have hgenuine : (snapshotOf 1 [10]).Genuine ([] : List UInt8) (twoAppliedRun 2).committed :=
    ⟨rfl, rfl, by decide, by decide, by decide, fun _ => rfl⟩
  have hlegal := twoApplied_legal (o := System.Free) le_rfl fun _ _ _ => trivial
  have hreliable : (twoAppliedRun 2).driver.node.storage.Reliable := rfl
  have hrun := hgenuine.run_eq hreliable (by decide) (twoAppliedRun 2).driver.stateMachine
  have hforward := hall twoLogs _ _ hlegal.steps _ hgenuine _ _ _ hrun
  exact absurd hforward.1 (by decide)

end CommitRun

end Pirc.Raft
