import Pirc.Raft.Durability

/-!
# Raft: restarting from a snapshot

A driver built on storage that holds a snapshot continues its log after the snapshot, but its
application state is the one it is given and its commit and apply positions start at zero. Only
`handle_install_snapshot` restores a state machine, never `RaftBuilder::build`.
-/

namespace Pirc.Raft

variable {T M : Type}

/-- The counters of a node are in order, so that no committed index is skipped. -/
def RaftNode.Ordered (node : RaftNode T) : Prop :=
  node.log.offset ≤ node.volatile.lastApplied ∧
    node.volatile.lastApplied ≤ node.volatile.commitIndex ∧
    node.volatile.commitIndex ≤ node.log.lastIndex

/-- The runs of one driver whose storage does not fail. Any message may arrive at any time. -/
def RaftDriver.system (T M : Type) [StateMachine T M] : System (RaftDriver T M) (Event T) where
  enabled _ _ := True
  step d e := e.act d

/-- The event brings a chunk of a snapshot, with which the leader replaces the application
state. -/
def Event.installs : Event T → Bool
  | .deliver _ _ (.installSnapshot _) => true
  | _ => false

section Definitions

variable [StateMachine T M]

/-- **The disk holds a snapshot saved by `create_snapshot`** of a state machine that had applied `k`
commands. What else is on the disk does not matter. -/
def Disk.HoldsSnapshot (disk : Disk T) (sm : M) (k : ℕ) : Prop :=
  ∃ node node' : RaftNode T, node.volatile.lastApplied = k ∧ k ≠ 0 ∧
    node.lastSnapshot.all (·.lastIncludedIndex < k) ∧
    (createSnapshot sm).run node = .ok () node' ∧ disk.snapshot = node'.storage.disk.snapshot

/-- **Recovery**: in every state reached from the restart the counters are in order, and the state
machine has applied the commands before it and those committed since. -/
def Recovers (config : RaftConfig) (disk : Disk T) (fresh : M) (commands : List T) : Prop :=
  ∀ d : RaftDriver T M, (RaftDriver.system T M).Steps (fun _ e => e.installs = false)
      (.build config disk fresh) d →
    d.node.Ordered ∧
      d.stateMachine = (commands ++ d.commitTx.map LogEntry.command).foldl StateMachine.apply fresh

end Definitions

/-! ## What is saved and what is loaded -/

section Saved

variable [StateMachine T M]

theorem Disk.HoldsSnapshot.exists_snapshot {disk : Disk T} {sm : M} {k : ℕ}
    (h : disk.HoldsSnapshot sm k) :
    0 < k ∧ ∃ s, disk.snapshot = some s ∧ s.lastIncludedIndex = k := by
  obtain ⟨node, node', happlied, hzero, hold, hrun, hdisk⟩ := h
  refine ⟨Nat.pos_of_ne_zero hzero, ?_⟩
  have hwp : wp (createSnapshot sm)
      (fun _ node' => ∃ s, node'.storage.disk.snapshot = some s ∧ s.lastIncludedIndex = k)
      (fun _ _ => True) node := by
    have hany : ¬ node.lastSnapshot.any (node.volatile.lastApplied ≤ ·.lastIncludedIndex) := by
      rw [happlied]
      cases hs : node.lastSnapshot with
      | none => simp
      | some s =>
        rw [hs] at hold
        simpa using hold
    unfold createSnapshot
    rw [wp_bind, wp_get]
    dsimp only
    rw [if_neg (happlied ▸ hzero), if_neg hany, wp_bind, wp_asSnapshotError]
    apply wp_write
    · intro rest
      exact ⟨node.takeSnapshot sm, rfl, happlied⟩
    · intro e rest
      trivial
  rw [hdisk]
  exact wp_ok hwp hrun

end Saved

theorem RaftNode.new_offset {config : RaftConfig} {storage : Storage T} {s : Snapshot}
    (hs : storage.disk.snapshot = some s) :
    (RaftNode.new config storage).log.offset = s.lastIncludedIndex := by
  simp only [RaftNode.new, hs]
  split_ifs with hlt
  · rfl
  · unfold RaftLog.compactTo at hlt ⊢
    split_ifs at hlt ⊢ with hlow hhigh
    · have hzero : (RaftLog.fromEntries storage.disk.log).offset = 0 := rfl
      omega
    · have hzero : (RaftLog.fromEntries storage.disk.log).offset = 0 := rfl
      omega
    · rfl

/-! ## Runs after a restart -/

structure RaftLog.Past (log : RaftLog T) (k : ℕ) : Prop where
  offset : k ≤ log.offset
  entries : ∀ e ∈ log.entries, k < e.index

namespace RaftLog.Past

variable {log : RaftLog T} {k : ℕ}

theorem get (h : log.Past k) {i : ℕ} {e : LogEntry T} (he : log.get i = some e) : k < e.index := by
  obtain ⟨p, -, hp⟩ := get_eq_some he
  exact h.entries e (List.mem_of_getElem? hp)

theorem push (h : log.Past k) {kept : List (LogEntry T)} (hkept : kept ⊆ log.entries)
    {entry : LogEntry T} (hentry : k < entry.index) :
    ({ log with entries := kept ++ [entry] } : RaftLog T).Past k := by
  refine ⟨h.offset, ?_⟩
  intro e he
  rcases List.mem_append.mp he with hold | hnew
  · exact h.entries e (hkept hold)
  · rwa [List.mem_singleton.mp hnew]

theorem append (h : log.Past k) (term : ℕ) (command : T) :
    (log.append ⟨term, log.lastIndex + 1, command⟩).Past k := by
  apply h.push (List.Subset.refl _)
  have hoffset := h.offset
  simp only [lastIndex]
  omega

/-- Entries at or below the offset are skipped, so those taken over are past `k` too. -/
theorem appendEntry (h : log.Past k) (entry : LogEntry T) : (log.appendEntry entry).Past k := by
  unfold RaftLog.appendEntry
  by_cases hskip : entry.index ≤ log.offset
  · rw [if_pos hskip]
    exact h
  rw [if_neg hskip]
  have hentry : k < entry.index := by
    have hoffset := h.offset
    omega
  dsimp only
  split
  · split
    · split
      · exact h.push (List.take_subset _ _) hentry
      · exact h
    · exact h
  · exact h.push (List.Subset.refl _) hentry

theorem foldl_appendEntry (h : log.Past k) (entries : List (LogEntry T)) :
    (entries.foldl RaftLog.appendEntry log).Past k := by
  induction entries generalizing log with
  | nil => exact h
  | cons entry entries ih => exact ih (h.appendEntry entry)

theorem appendEntries (h : log.Past k) {log' : RaftLog T} {prevLogIndex prevLogTerm : ℕ}
    {entries : List (LogEntry T)}
    (hlog : log.appendEntries prevLogIndex prevLogTerm entries = some log') : log'.Past k := by
  unfold RaftLog.appendEntries at hlog
  split_ifs at hlog
  obtain rfl := Option.some_inj.mp hlog
  exact h.foldl_appendEntry entries

theorem compactTo (h : log.Past k) (i : ℕ) : (log.compactTo i).Past k := by
  unfold RaftLog.compactTo
  split_ifs with hlow hhigh
  · exact h
  · exact h
  · refine ⟨?_, ?_⟩
    · have hoffset := h.offset
      simp only
      omega
    · intro e he
      exact h.entries e (List.mem_of_mem_drop he)

end RaftLog.Past

/-- **Only commands past the snapshot have been applied** to the fresh state. -/
structure RaftDriver.AppliesAfter [StateMachine T M] (d : RaftDriver T M) (fresh : M) (k : ℕ) :
    Prop where
  reliable : d.node.storage.Reliable
  log : d.node.log.Past k
  machine : d.stateMachine = (d.commitTx.map LogEntry.command).foldl StateMachine.apply fresh
  applied : ∀ e ∈ d.commitTx, k < e.index

namespace RaftDriver.AppliesAfter

variable [StateMachine T M] {d d' : RaftDriver T M} {fresh : M} {k : ℕ}

/-- A handler that changes neither the state machine nor what was applied. -/
theorem of_node (h : d.AppliesAfter fresh k) {node : RaftNode T} (hreliable : node.storage.Reliable)
    (hlog : node.log.Past k) : ({ d with node := node } : RaftDriver T M).AppliesAfter fresh k :=
  { h with reliable := hreliable, log := hlog }

theorem of_core (h : d.AppliesAfter fresh k) {node : RaftNode T} (hcore : node.core = d.node.core) :
    ({ d with node := node } : RaftDriver T M).AppliesAfter fresh k := by
  have hstorage : node.storage = d.node.storage := congrArg RaftNode.Core.storage hcore
  have hlog : node.log = d.node.log := congrArg RaftNode.Core.log hcore
  apply h.of_node
  · rw [hstorage]
    exact h.reliable
  · rw [hlog]
    exact h.log

theorem observe (h : d.AppliesAfter fresh k) (t : ℕ) :
    ({ d with node := d.node.observe t } : RaftDriver T M).AppliesAfter fresh k := by
  apply h.of_node
  · exact d.node.observe_reliable h.reliable t
  · rw [RaftNode.observe_log]
    exact h.log

theorem applyCommittedEntries (h : d.AppliesAfter fresh k) :
    d.applyCommittedEntries.AppliesAfter fresh k := by
  unfold RaftDriver.applyCommittedEntries
  split_ifs
  · exact h
  · refine ⟨h.reliable, h.log, ?_, ?_⟩
    · simp only [h.machine, List.map_append, List.foldl_append, List.foldl_map]
    · intro e he
      rcases List.mem_append.mp he with hold | hnew
      · exact h.applied e hold
      · -- what is missing from the log is skipped, and that is everything up to the snapshot
        obtain ⟨i, -, hi⟩ := List.mem_filterMap.mp hnew
        exact h.log.get hi

theorem handleInboundMessage (h : d.AppliesAfter fresh k) (src : NodeId) {msg : RaftMessage T}
    (hmsg : ∀ req, msg ≠ .installSnapshot req) :
    (d.handleInboundMessage src msg).AppliesAfter fresh k := by
  cases msg with
  | requestVote req =>
    simp only [RaftDriver.handleInboundMessage, RaftDriver.answering]
    rcases handleRequestVote_cases h.reliable req with hrun | ⟨-, -, -, hrun⟩
    · rw [hrun]
      exact (h.observe req.term).of_core rfl
    · rw [hrun]
      exact (h.observe req.term).of_node h.reliable (h.observe req.term).log
  | requestVoteResponse resp =>
    simp only [RaftDriver.handleInboundMessage, RaftDriver.after]
    rw [handleRequestVoteResponse_eq h.reliable src resp]
    exact (h.observe resp.term).of_core (RaftNode.core_countVote _ src resp)
  | appendEntries req =>
    simp only [RaftDriver.handleInboundMessage, RaftDriver.answering]
    rcases handleAppendEntries_cases h.reliable req with
      ⟨-, hrun⟩ | ⟨-, -, hrun⟩ | ⟨log, -, hlog, hrun⟩
    · rw [hrun]
      exact h.of_core rfl
    · rw [hrun]
      exact (h.observe req.term).of_core rfl
    · rw [hrun]
      exact (h.observe req.term).of_node (h.observe req.term).reliable (h.log.appendEntries hlog)
  | appendEntriesResponse resp =>
    simp only [RaftDriver.handleInboundMessage, RaftDriver.after]
    rw [handleAppendEntriesResponse_eq h.reliable src resp]
    exact (h.observe resp.term).of_core (RaftNode.core_updateProgress _ _)
  | installSnapshot req => exact absurd rfl (hmsg req)
  | installSnapshotResponse resp =>
    simp only [RaftDriver.handleInboundMessage, RaftDriver.after]
    rw [handleInstallSnapshotResponse_eq h.reliable src resp]
    exact (h.observe resp.term).of_core (RaftNode.core_updateProgress _ _)

/-- **Step lemma.** -/
theorem step (h : d.AppliesAfter fresh k) {e : Event T} (he : e.installs = false) :
    (e.act d).AppliesAfter fresh k := by
  cases e with
  | startElection i =>
    simp only [Event.act, RaftDriver.after]
    rw [startElection_eq h.reliable]
    have hcampaign := @of_node _ _ _ _ _ _ h d.node.savedCampaign h.reliable h.log
    exact hcampaign.of_core (RaftNode.core_requestVotes _)
  | deliver src dst msg =>
    apply h.handleInboundMessage src
    rintro req rfl
    cases he
  | clientRequest i command =>
    simp only [Event.act, RaftNode.clientRequest]
    split_ifs
    · exact h
    · have happend := @of_node _ _ _ _ _ _ h (d.node.appendCommand command) h.reliable
        (h.log.append d.node.currentTerm command)
      exact happend.of_core (RaftNode.sendAppendEntriesToAll_sends _).core_eq
  | replicateToPeer i peer => exact h.of_core (d.node.replicateToPeer_sends peer).core_eq
  | advanceCommitIndex i => exact h.of_core d.node.core_advanceCommitIndex
  | applyCommitted i => exact h.applyCommittedEntries
  | createSnapshot i =>
    simp only [Event.act, RaftDriver.after]
    rcases createSnapshot_cases h.reliable d.stateMachine with hrun | ⟨-, hrun⟩
    · rw [hrun]
      exact h
    · rw [hrun]
      exact h.of_node h.reliable (h.log.compactTo _)

/-- **Run lemma**: after a restart from a snapshot at `k`, only commands past `k` are applied. -/
theorem run {config : RaftConfig} {disk : Disk T} {s : Snapshot} (hs : disk.snapshot = some s)
    (hlog : disk.log = [])
    (hrun : (RaftDriver.system T M).Steps (fun _ e => e.installs = false)
      (.build config disk fresh) d) : d.AppliesAfter fresh s.lastIncludedIndex := by
  apply hrun.invariant (I := fun d => d.AppliesAfter fresh s.lastIncludedIndex)
  · intro d e _ he h
    exact h.step he
  · refine ⟨rfl, ⟨?_, ?_⟩, rfl, ?_⟩
    · exact (RaftNode.new_offset hs).ge
    · intro e he
      have hnil : (RaftDriver.build config disk fresh).node.log.entries = [] :=
        RaftNode.new_log_entries hlog
      rw [hnil] at he
      cases he
    · intro e he
      cases he

end RaftDriver.AppliesAfter

/-- **No restart recovers**: the counters are out of order from the start, and what was applied up
to the snapshot is not in the state machine in any state reached later. -/
theorem restart_forgets [StateMachine T M] {disk : Disk T} {sm fresh : M} {k : ℕ}
    (h : disk.HoldsSnapshot sm k) (config : RaftConfig) (commands : List T) :
    ¬ Recovers config disk fresh commands ∧
      (disk.log = [] → ∀ d : RaftDriver T M,
        (RaftDriver.system T M).Steps (fun _ e => e.installs = false)
          (.build config disk fresh) d →
        d.stateMachine = (d.commitTx.map LogEntry.command).foldl StateMachine.apply fresh ∧
          ∀ e ∈ d.commitTx, k < e.index) := by
  obtain ⟨hk, s, hs, rfl⟩ := h.exists_snapshot
  constructor
  · intro hrecovers
    obtain ⟨⟨hoffset, -⟩, -⟩ := hrecovers _ .refl
    have heq : (RaftDriver.build config disk fresh).node.log.offset = s.lastIncludedIndex :=
      RaftNode.new_offset hs
    have hzero : (RaftDriver.build config disk fresh).node.volatile.lastApplied = 0 := rfl
    omega
  · intro hlog d hrun
    have happlies := RaftDriver.AppliesAfter.run hs hlog hrun
    exact ⟨happlies.machine, happlies.applied⟩

section OneNode

/-- A state machine that keeps the commands. -/
instance : StateMachine ℕ (List ℕ) where
  apply l command := l ++ [command]
  snapshot l := l.map UInt8.ofNat
  restore _ data := (.ok (), data.map UInt8.toNat)

/-- A cluster of one node, which leads as soon as it stands for election. -/
def alone : RaftConfig := { nodeId := 1, peers := [] }

def twoApplied : RaftDriver ℕ (List ℕ) :=
  (RaftDriver.system ℕ (List ℕ)).exec (.build alone {} [])
    [.startElection 1, .clientRequest 1 10, .clientRequest 1 11, .advanceCommitIndex 1,
      .applyCommitted 1]

def twoSaved : Disk ℕ := (twoApplied.after (createSnapshot twoApplied.stateMachine)).node.storage.disk

theorem twoSaved_holdsSnapshot : twoSaved.HoldsSnapshot [10, 11] 2 := by
  have hmachine : twoApplied.stateMachine = [10, 11] := by decide +kernel
  refine ⟨twoApplied.node, (twoApplied.after (createSnapshot twoApplied.stateMachine)).node,
    by decide +kernel, by decide, by decide +kernel, ?_, rfl⟩
  rw [← hmachine]
  have hreliable : twoApplied.node.storage.Reliable := by
    unfold Storage.Reliable
    decide +kernel
  rcases createSnapshot_cases hreliable twoApplied.stateMachine with hrun | ⟨-, hrun⟩
  · rw [RaftDriver.after, hrun]
  · rw [RaftDriver.after, hrun]

/-- The node restarts, leads and commits the command 12. -/
def oneMore : List (Event ℕ) :=
  [.startElection 1, .clientRequest 1 12, .advanceCommitIndex 1, .applyCommitted 1]

theorem restart_forgets_twoSaved :
    twoSaved.HoldsSnapshot [10, 11] 2 ∧ ¬ Recovers alone twoSaved ([] : List ℕ) [10, 11] :=
  ⟨twoSaved_holdsSnapshot, (restart_forgets twoSaved_holdsSnapshot alone [10, 11]).1⟩

/-- After the restart the state machine holds the command 12 alone. -/
theorem restart_state_lost :
    ¬ ∀ (disk : Disk ℕ) (commands : List ℕ),
      disk.HoldsSnapshot commands commands.length →
      ∀ d : RaftDriver ℕ (List ℕ),
        (RaftDriver.system ℕ (List ℕ)).Steps (fun _ e => e.installs = false)
          (.build alone disk []) d →
        d.stateMachine = commands ++ d.commitTx.map LogEntry.command := by
  intro h
  have hlegal : System.Legal (RaftDriver.system ℕ (List ℕ)) (fun _ e => e.installs = false)
      (.build alone twoSaved []) oneMore := by
    refine ⟨trivial, rfl, trivial, rfl, trivial, rfl, trivial, rfl, trivial⟩
  have heq := h twoSaved [10, 11] twoSaved_holdsSnapshot _ hlegal.steps
  exact absurd heq (by decide +kernel)

end OneNode

end Pirc.Raft
