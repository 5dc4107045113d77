import Pirc.Raft.Handlers
import Pirc.Lib.Outcome

/-!
# Raft: one node, failing storage and restarts

Runs of one node whose storage writes may each fail, with crashes in between. A crash restarts the
node from its disk by `RaftNode.new`; a crash in the middle of a handler is a failing write
followed by a restart, since every handler stops at its first failing write.
-/

namespace Pirc.Raft

variable {T M : Type}

/-! ## Runs -/

/-- What happens to one node: an event with the outcomes of its writes, a membership proposal, or
a crash and restart with a fresh application state. -/
inductive NodeEvent (T M : Type)
  | call (e : Event T) (outcomes : List (Option StorageError))
  | propose (change : MembershipChange) (noopCommand : T)
  | restart (stateMachine : M)

/-- A node, the votes it granted (term and candidate) and the entries it acknowledged. -/
structure NodeRun (T M : Type) where
  driver : RaftDriver T M
  granted : List (ℕ × NodeId) := []
  acked : List (LogEntry T) := []

namespace RaftDriver

def expecting (d : RaftDriver T M) (outcomes : List (Option StorageError)) : RaftDriver T M :=
  { d with node := { d.node with storage := { d.node.storage with outcomes := outcomes } } }

def grants (d : RaftDriver T M) : Event T → List (ℕ × NodeId)
  | .deliver _ _ (.requestVote req) =>
    match (handleRequestVote req).run d.node with
    | .ok resp _ => if resp.voteGranted then [(resp.term, req.candidateId)] else []
    | .error _ _ => []
  | _ => []

/-- The entries acknowledged by an event: a follower's success covers its log up to `match_index`,
and a leader counts itself for every position it commits. -/
def acks [StateMachine T M] (d : RaftDriver T M) (e : Event T) : List (LogEntry T) :=
  match e with
  | .deliver _ _ (.appendEntries req) =>
    match (handleAppendEntries req).run d.node with
    | .ok resp node =>
      if resp.success then node.log.entries.filter (·.index ≤ resp.matchIndex) else []
    | .error _ _ => []
  | .deliver _ _ (.appendEntriesResponse _) | .deliver _ _ (.installSnapshotResponse _)
  | .advanceCommitIndex _ =>
    let node := (e.act d).node
    if d.node.volatile.commitIndex < node.volatile.commitIndex then
      node.log.entries.filter (·.index ≤ node.volatile.commitIndex)
    else []
  | _ => []

/-- Build a driver on existing storage: the application state is taken as it is given. -/
def build (config : RaftConfig) (disk : Disk T) (stateMachine : M) : RaftDriver T M where
  node := RaftNode.new config { disk := disk }
  stateMachine := stateMachine

end RaftDriver

namespace NodeRun

/-- The runs of one node. Any message may arrive at any time. -/
def system (T M : Type) [StateMachine T M] : System (NodeRun T M) (NodeEvent T M) where
  enabled _ _ := True
  step r
    | .call e outcomes =>
      let d := r.driver.expecting outcomes
      { driver := e.act d
        granted := r.granted ++ d.grants e
        acked := r.acked ++ d.acks e }
    | .propose change noopCommand =>
      { r with
        driver := { r.driver with
          node := (r.driver.node.proposeMembershipChange change noopCommand).2 } }
    | .restart stateMachine =>
      { r with
        driver := .build r.driver.node.config r.driver.node.storage.disk stateMachine }

def initial (config : RaftConfig) (disk : Disk T) (stateMachine : M) : NodeRun T M where
  driver := .build config disk stateMachine

end NodeRun

/-! ## Handlers whose writes may fail -/

section Handlers

variable {node : RaftNode T} {ε α : Type}

@[simp] theorem wp_writing {w : Storage T → Except StorageError Unit × Storage T}
    {Q : Unit → RaftNode T → Prop} {E : StorageError → RaftNode T → Prop} :
    wp (writing w) Q E node ↔
      match w node.storage with
      | (.ok (), s) => Q () { node with storage := s }
      | (.error e, s) => E e { node with storage := s } := by
  unfold wp
  rw [run_writing]
  rcases w node.storage with ⟨_ | _, s⟩ <;> rfl

theorem Storage.write_cases (storage : Storage T) (f : Disk T → Disk T) :
    (∃ rest, storage.write f = (.ok (), ⟨f storage.disk, rest⟩)) ∨
    ∃ e rest, storage.write f = (.error e, ⟨storage.disk, rest⟩) := by
  unfold Storage.write
  cases storage.outcomes with
  | nil => exact .inl ⟨_, rfl⟩
  | cons outcome rest =>
    cases outcome with
    | none => exact .inl ⟨rest, rfl⟩
    | some e => exact .inr ⟨e, rest, rfl⟩

theorem wp_write {f : Disk T → Disk T} {Q : Unit → RaftNode T → Prop}
    {E : StorageError → RaftNode T → Prop}
    (hok : ∀ rest, Q () { node with storage := ⟨f node.storage.disk, rest⟩ })
    (herror : ∀ e rest, E e { node with storage := ⟨node.storage.disk, rest⟩ }) :
    wp (writing (·.write f)) Q E node := by
  rw [wp_writing]
  rcases node.storage.write_cases f with ⟨rest, heq⟩ | ⟨e, rest, heq⟩
  · rw [heq]
    exact hok rest
  · rw [heq]
    exact herror e rest

end Handlers

/-! ## Term, vote and disk -/

/-- The part of a node that decides its votes and what it finds after a restart. -/
structure Vital (T : Type) where
  term : ℕ
  votedFor : Option NodeId
  disk : Disk T

def RaftNode.vital (node : RaftNode T) : Vital T :=
  ⟨node.currentTerm, node.votedFor, node.storage.disk⟩

namespace Vital

def raised (v : Vital T) (t : ℕ) : Vital T :=
  if v.term < t then ⟨t, none, { v.disk with term := t, votedFor := none }⟩ else v

/-- A higher term is seen, and one of the two writes fails. -/
def Torn (v : Vital T) (t : ℕ) (v' : Vital T) : Prop :=
  v.term < t ∧ ∃ disk, v' = ⟨t, none, disk⟩ ∧ (disk = v.disk ∨ disk = { v.disk with term := t })

def saved (v : Vital T) (s : Snapshot) : Vital T :=
  { v with disk := { v.disk with snapshot := some s } }

/-- **What an event other than a `RequestVote` can do** to the term, the vote and the disk. -/
inductive Moves (v : Vital T) : Vital T → Prop
  | raised (t : ℕ) : Moves v (v.raised t)
  | torn {t : ℕ} {v' : Vital T} (h : v.Torn t v') : Moves v v'
  | saved (t : ℕ) (s : Snapshot) : Moves v ((v.raised t).saved s)
  | campaigned (self : NodeId) (disk : Disk T)
      (h : disk = v.disk ∨ disk = { v.disk with term := v.term + 1 } ∨
        disk = { v.disk with term := v.term + 1, votedFor := some self }) :
      Moves v ⟨v.term + 1, some self, disk⟩

theorem raised_self (v : Vital T) : v.raised v.term = v := if_neg (lt_irrefl _)

theorem Moves.refl (v : Vital T) : Moves v v := by
  have h := Moves.raised (v := v) v.term
  rwa [v.raised_self] at h

end Vital

section VitalLemmas

variable {node : RaftNode T}

theorem vital_eq_of_core {node' : RaftNode T} (h : node'.core = node.core) :
    node'.vital = node.vital := by
  have hvital : ∀ n : RaftNode T,
      n.vital = ⟨n.core.currentTerm, n.core.votedFor, n.core.storage.disk⟩ := fun _ => rfl
  rw [hvital, hvital, h]

@[simp] theorem vital_clientRequest (node : RaftNode T) (command : T) :
    (node.clientRequest command).2.vital = node.vital := by
  unfold RaftNode.clientRequest
  split_ifs
  · rfl
  · have hsends := (node.appendCommand command).sendAppendEntriesToAll_sends
    have hvital := vital_eq_of_core hsends.core_eq
    exact hvital

@[simp] theorem vital_proposeMembershipChange (node : RaftNode T) (change : MembershipChange)
    (noopCommand : T) : (node.proposeMembershipChange change noopCommand).2.vital = node.vital := by
  unfold RaftNode.proposeMembershipChange
  split
  · rfl
  · have hsends := (node.applyMembershipChange change noopCommand).sendAppendEntriesToAll_sends
    have hvital := vital_eq_of_core hsends.core_eq
    exact hvital

/-- **Seeing a term**: both writes are done, or one of them failed. The log is left alone. -/
theorem handleTermUpdate_wp (t : ℕ) :
    wp (handleTermUpdate t)
      (fun _ node' => node'.vital = node.vital.raised t ∧ node'.log = node.log)
      (fun _ node' => node.vital.Torn t node'.vital) node := by
  unfold handleTermUpdate
  rw [wp_bind, wp_get, wp_ite]
  split_ifs with hlt
  · rw [wp_bind, wp_set, wp_bind]
    -- the term is written first, then the cleared vote
    apply wp_write
    · intro rest
      rw [wp_bind]
      apply wp_write
      · intro rest'
        rw [wp_pure, Vital.raised]
        exact ⟨(if_pos hlt).symm, rfl⟩
      · intro e rest'
        exact ⟨hlt, _, rfl, .inr rfl⟩
    · intro e rest
      exact ⟨hlt, _, rfl, .inl rfl⟩
  · rw [wp_pure, Vital.raised]
    exact ⟨(if_neg hlt).symm, rfl⟩

theorem startElection_wp :
    wp startElection (fun _ node' => node.vital.Moves node'.vital)
      (fun _ node' => node.vital.Moves node'.vital) node := by
  unfold startElection
  rw [wp_bind, wp_modify, wp_bind, wp_get, wp_bind]
  apply wp_write
  · intro rest
    rw [wp_bind]
    apply wp_write
    · intro rest'
      rw [wp_modify, vital_eq_of_core (RaftNode.core_requestVotes _)]
      exact .campaigned node.nodeId _ (.inr (.inr rfl))
    · intro e rest'
      exact .campaigned node.nodeId _ (.inr (.inl rfl))
  · intro e rest
    exact .campaigned node.nodeId _ (.inl rfl)

/-- Once the node has seen the request's term, nothing stands against the vote. -/
structure RaftNode.MayVote (node : RaftNode T) (req : RequestVote) : Prop where
  term_le : node.currentTerm ≤ req.term
  free : (node.vital.raised req.term).votedFor = none ∨
    (node.vital.raised req.term).votedFor = some req.candidateId
  upToDate : isLogUpToDate req.lastLogTerm req.lastLogIndex node.log.lastTerm node.log.lastIndex

/-- **Answering a `RequestVote`**: it is refused, or the vote is granted once it is saved. A failing
write may leave the term half-saved, or the vote in memory only. -/
theorem handleRequestVote_wp (req : RequestVote) :
    wp (handleRequestVote req)
      (fun resp node' =>
        (resp.voteGranted = false ∧ node'.vital = node.vital.raised req.term) ∨
        (resp = ⟨req.term, true⟩ ∧ node.MayVote req ∧
          node'.vital = ⟨req.term, some req.candidateId,
            { (node.vital.raised req.term).disk with votedFor := some req.candidateId }⟩))
      (fun _ node' => node.vital.Torn req.term node'.vital ∨
        (node.MayVote req ∧ node'.vital =
          ⟨req.term, some req.candidateId, (node.vital.raised req.term).disk⟩)) node := by
  unfold handleRequestVote
  rw [wp_bind]
  refine wp_mono ?_ (fun e node' h => .inl h) (handleTermUpdate_wp req.term)
  rintro _ node' ⟨hvital, hlog⟩
  rw [wp_bind, wp_get, wp_ite]
  by_cases hold : req.term < node'.currentTerm
  · rw [if_pos hold]
    exact .inl ⟨rfl, hvital⟩
  rw [if_neg hold, wp_ite]
  by_cases hfree : node'.votedFor = none ∨ node'.votedFor = some req.candidateId
  swap
  · rw [if_pos hfree]
    exact .inl ⟨rfl, hvital⟩
  rw [if_neg (not_not.mpr hfree), wp_ite]
  by_cases hup : isLogUpToDate req.lastLogTerm req.lastLogIndex node'.log.lastTerm
    node'.log.lastIndex
  swap
  · rw [if_pos hup]
    exact .inl ⟨rfl, hvital⟩
  rw [if_neg (not_not.mpr hup)]
  -- nothing stands against the vote: it is recorded in memory and then saved
  have hterm : node'.currentTerm = (node.vital.raised req.term).term := congrArg Vital.term hvital
  have hdisk : node'.storage.disk = (node.vital.raised req.term).disk := congrArg Vital.disk hvital
  have hseen : node.currentTerm ≤ req.term ∧ node'.currentTerm = req.term := by
    rw [hterm] at hold ⊢
    unfold Vital.raised at hold ⊢
    split_ifs at hold ⊢ with hlt
    · exact ⟨hlt.le, rfl⟩
    · have hterm : node.vital.term = node.currentTerm := rfl
      omega
  have hmay : node.MayVote req := by
    refine ⟨hseen.1, ?_, ?_⟩
    · rw [← hvital]
      exact hfree
    · rw [← hlog]
      exact hup
  rw [wp_bind, wp_set, wp_bind]
  apply wp_write
  · intro rest
    rw [wp_pure, hseen.2]
    refine .inr ⟨rfl, hmay, ?_⟩
    rw [← hdisk, ← hseen.2]
    rfl
  · intro e rest
    refine .inr ⟨hmay, ?_⟩
    rw [← hdisk, ← hseen.2]
    rfl

theorem observing_wp {α : Type} (t : ℕ) {k : Bool → NodeM T StorageError α}
    (hk : ∀ b (node' : RaftNode T), wp (k b) (fun _ node'' => node''.vital = node'.vital)
      (fun _ _ => False) node') :
    wp (handleTermUpdate t >>= k) (fun _ node' => node.vital.Moves node'.vital)
      (fun _ node' => node.vital.Moves node'.vital) node := by
  rw [wp_bind]
  refine wp_mono ?_ (fun _ _ h => .torn h) (handleTermUpdate_wp t)
  rintro b node' ⟨hvital, -⟩
  refine wp_mono ?_ ?_ (hk b node')
  · intro _ node'' heq
    rw [heq, hvital]
    exact .raised t
  · intro _ _ hfalse
    exact hfalse.elim

theorem handleAppendEntries_wp (req : AppendEntries T) :
    wp (handleAppendEntries req) (fun _ node' => node.vital.Moves node'.vital)
      (fun _ node' => node.vital.Moves node'.vital) node := by
  apply observing_wp
  intro _ node'
  rw [wp_bind, wp_get, wp_ite]
  split_ifs
  · rfl
  · dsimp only
    split
    · rfl
    · rfl

section Snapshots

variable [StateMachine T M]

theorem wp_asSnapshotError {α : Type} {x : NodeM T StorageError α} {Q : α → RaftNode T → Prop}
    {E : SnapshotError → RaftNode T → Prop} :
    wp (asSnapshotError x) Q E node ↔ wp x Q (fun e => E (.storage e)) node := by
  unfold wp
  rw [run_asSnapshotError]
  cases x.run node <;> rfl

omit [StateMachine T M] in
theorem wp_onNode {ε α : Type} {x : NodeM T ε α} {Q : α → RaftNode T × M → Prop}
    {E : ε → RaftNode T × M → Prop} {sm : M} :
    wp (onNode x) Q E (node, sm) ↔
      wp x (fun a node' => Q a (node', sm)) (fun e node' => E e (node', sm)) node := by
  unfold wp
  rw [run_onNode]
  cases x.run node <;> rfl

theorem createSnapshot_wp (sm : M) :
    wp (createSnapshot sm) (fun _ node' => node.vital.Moves node'.vital)
      (fun _ node' => node.vital.Moves node'.vital) node := by
  unfold createSnapshot
  rw [wp_bind, wp_get]
  dsimp only
  rw [wp_ite]
  split_ifs with hzero hany
  · exact .refl _
  · rw [wp_pure]
    exact .refl _
  · rw [wp_bind, wp_asSnapshotError]
    apply wp_write
    · intro rest
      rw [wp_modify]
      have hsaved := Vital.Moves.saved (v := node.vital) node.vital.term (node.takeSnapshot sm)
      rwa [Vital.raised_self] at hsaved
    · intro e rest
      exact .refl _

omit [StateMachine T M] in
theorem saveInstalled_wp (snapshot : Snapshot) :
    wp (saveInstalled snapshot) (fun _ node' => node'.vital = node.vital.saved snapshot)
      (fun _ node' => node'.vital = node.vital) node := by
  unfold saveInstalled
  rw [wp_bind, wp_asSnapshotError]
  apply wp_write
  · intro rest
    rw [wp_bind, wp_modify, wp_bind, wp_get]
    rfl
  · intro e rest
    rfl

theorem finishInstall_wp (req : InstallSnapshot) (data : List UInt8) (sm : M) :
    wp (finishInstall req data)
      (fun _ s => ∃ snapshot, s.1.vital = node.vital.saved snapshot)
      (fun _ s => s.1.vital = node.vital) (node, sm) := by
  unfold finishInstall wp EStateM.run
  dsimp only
  rcases StateMachine.restore sm data with ⟨_ | _, sm'⟩
  · rfl
  · change wp (onNode _) _ _ _
    rw [wp_onNode]
    refine wp_mono ?_ (fun _ _ h => h) (saveInstalled_wp _)
    intro _ node' heq
    exact ⟨_, heq⟩

theorem handleInstallSnapshot_wp (req : InstallSnapshot) (sm : M) :
    wp (handleInstallSnapshot req) (fun _ s => node.vital.Moves s.1.vital)
      (fun _ s => node.vital.Moves s.1.vital) (node, sm) := by
  unfold handleInstallSnapshot
  rw [wp_bind, wp_onNode, wp_asSnapshotError]
  refine wp_mono ?_ (fun e node' h => .torn h) (handleTermUpdate_wp req.term)
  rintro _ node' ⟨hvital, -⟩
  have hmoves : node.vital.Moves node'.vital := by
    rw [hvital]
    exact .raised req.term
  rw [wp_bind, wp_get]
  dsimp only
  rw [wp_ite]
  by_cases hold : req.term < node'.currentTerm
  · rw [if_pos hold]
    exact hmoves
  rw [if_neg hold]
  split
  · exact hmoves
  · rw [wp_ite]
    by_cases hdone : req.done
    swap
    · rw [if_pos hdone]
      exact hmoves
    rw [if_neg (not_not.mpr hdone), wp_bind, wp_onNode, wp_set]
    refine wp_mono ?_ ?_ (finishInstall_wp req _ sm)
    · intro _ s ⟨snapshot, heq⟩
      have hsaved : s.1.vital = node'.vital.saved snapshot := heq
      rw [hsaved, hvital]
      exact .saved req.term snapshot
    · intro _ s heq
      have hkept : s.1.vital = node'.vital := heq
      rwa [hkept]

end Snapshots

end VitalLemmas

/-! ## Events -/

section Events

variable {d : RaftDriver T M}

theorem RaftDriver.after_moves {ε α : Type} {x : NodeM T ε α}
    (h : wp x (fun _ node => d.node.vital.Moves node.vital)
      (fun _ node => d.node.vital.Moves node.vital) d.node) :
    d.node.vital.Moves (d.after x).node.vital := by
  unfold RaftDriver.after
  cases hrun : x.run d.node with
  | ok a node =>
    have hok := wp_ok h hrun
    exact hok
  | error e node =>
    have herror := wp_error h hrun
    exact herror

theorem RaftDriver.answering_moves {ε α : Type} {x : NodeM T ε α} {sender : NodeId}
    {wrap : α → RaftMessage T}
    (h : wp x (fun _ node => d.node.vital.Moves node.vital)
      (fun _ node => d.node.vital.Moves node.vital) d.node) :
    d.node.vital.Moves (d.answering sender x wrap).node.vital := by
  unfold RaftDriver.answering
  cases hrun : x.run d.node with
  | ok a node =>
    have hok := wp_ok h hrun
    exact hok
  | error e node =>
    have herror := wp_error h hrun
    exact herror

def Event.asksVote : Event T → Option RequestVote
  | .deliver _ _ (.requestVote req) => some req
  | _ => none

variable [StateMachine T M]

/-- **Step lemma**: events other than a `RequestVote` move the vital part as `Moves` says, however
their writes end. -/
theorem Event.act_moves {e : Event T} (h : e.asksVote = none) :
    d.node.vital.Moves (e.act d).node.vital := by
  cases e with
  | startElection i => exact RaftDriver.after_moves startElection_wp
  | deliver src dst msg =>
    cases msg with
    | requestVote req => cases h
    | requestVoteResponse resp =>
      exact RaftDriver.after_moves
        (observing_wp resp.term fun _ node => vital_eq_of_core (node.core_countVote src resp))
    | appendEntries req => exact RaftDriver.answering_moves (handleAppendEntries_wp req)
    | appendEntriesResponse resp =>
      exact RaftDriver.after_moves
        (observing_wp resp.term fun _ node => vital_eq_of_core (node.core_updateProgress _))
    | installSnapshot req =>
      have hwp := @handleInstallSnapshot_wp T M d.node _ req d.stateMachine
      simp only [act, RaftDriver.handleInboundMessage]
      cases hrun : (handleInstallSnapshot req).run (d.node, d.stateMachine) with
      | ok resp s =>
        have hok := wp_ok hwp hrun
        exact hok
      | error e s =>
        have herror := wp_error hwp hrun
        exact herror
    | installSnapshotResponse resp =>
      exact RaftDriver.after_moves
        (observing_wp resp.term fun _ node => vital_eq_of_core (node.core_updateProgress _))
  | clientRequest i command =>
    have heq := vital_clientRequest d.node command
    rw [act, heq]
    exact .refl _
  | replicateToPeer i peer =>
    rw [act, vital_eq_of_core (d.node.replicateToPeer_sends peer).core_eq]
    exact .refl _
  | advanceCommitIndex i =>
    rw [act, vital_eq_of_core d.node.core_advanceCommitIndex]
    exact .refl _
  | applyCommitted i =>
    simp only [act, RaftDriver.applyCommittedEntries]
    split_ifs
    · exact .refl _
    · exact .refl _
  | createSnapshot i => exact RaftDriver.after_moves (createSnapshot_wp d.stateMachine)

end Events

/-! ## Votes -/

/-- **A vote ahead of the disk**: nothing stands against the vote, and the storage does not hold
the term it is for, since saving that term failed before. -/
def RaftNode.votesAhead (node : RaftNode T) (req : RequestVote) : Prop :=
  req.term = node.currentTerm ∧ node.storage.disk.term ≠ node.currentTerm ∧
    (node.votedFor = none ∨ node.votedFor = some req.candidateId) ∧
    isLogUpToDate req.lastLogTerm req.lastLogIndex node.log.lastTerm node.log.lastIndex

instance (node : RaftNode T) (req : RequestVote) : Decidable (node.votesAhead req) :=
  inferInstanceAs (Decidable (_ ∧ _ ∧ _ ∧ _))

/-- No vote is asked of a node that would cast it ahead of its disk, and no election starts in the
last term there is. -/
def NodeEvent.Saved (r : NodeRun T M) : NodeEvent T M → Prop
  | .call (.deliver _ _ (.requestVote req)) _ => ¬ r.driver.node.votesAhead req
  | .call (.startElection _) _ => r.driver.node.currentTerm + 1 < 2 ^ 64
  | _ => True

instance (r : NodeRun T M) : ∀ e : NodeEvent T M, Decidable (e.Saved r)
  | .call (.deliver _ _ (.requestVote req)) _ =>
    inferInstanceAs (Decidable (¬ r.driver.node.votesAhead req))
  | .call (.startElection _) _ => inferInstanceAs (Decidable (r.driver.node.currentTerm + 1 < 2 ^ 64))
  | .call (.deliver _ _ (.requestVoteResponse _)) _
  | .call (.deliver _ _ (.appendEntries _)) _
  | .call (.deliver _ _ (.appendEntriesResponse _)) _
  | .call (.deliver _ _ (.installSnapshot _)) _
  | .call (.deliver _ _ (.installSnapshotResponse _)) _
  | .call (.clientRequest _ _) _ | .call (.replicateToPeer _ _) _
  | .call (.advanceCommitIndex _) _ | .call (.applyCommitted _) _ | .call (.createSnapshot _) _
  | .propose _ _ | .restart _ => .isTrue trivial

/-- **What the granted votes leave behind**: the disk never lags behind a granted vote, and the
vote for the term in memory or on disk is the one that was granted. -/
structure VoteInv (granted : List (ℕ × NodeId)) (v : Vital T) : Prop where
  disk_le : v.disk.term ≤ v.term
  granted_le : ∀ g ∈ granted, g.1 ≤ v.disk.term
  onDisk : ∀ g ∈ granted, g.1 = v.disk.term → v.disk.votedFor = some g.2
  inMemory : ∀ g ∈ granted, g.1 = v.term → v.votedFor = some g.2
  unique : ∀ g ∈ granted, ∀ g' ∈ granted, g.1 = g'.1 → g.2 = g'.2

namespace VoteInv

variable {granted : List (ℕ × NodeId)} {v v' : Vital T}

theorem later (h : VoteInv granted v) (hterm : v.term < v'.term)
    (hdisk : (v'.disk.term = v.disk.term ∧ v'.disk.votedFor = v.disk.votedFor) ∨
      v'.disk.term = v'.term) : VoteInv granted v' := by
  have hle := h.disk_le
  refine ⟨?_, ?_, ?_, ?_, h.unique⟩
  · omega
  · intro g hg
    have hgranted := h.granted_le g hg
    omega
  · intro g hg heq
    have hgranted := h.granted_le g hg
    rcases hdisk with ⟨ht, hv⟩ | ht
    · rw [hv]
      exact h.onDisk g hg (heq.trans ht)
    · omega
  · intro g hg heq
    have hgranted := h.granted_le g hg
    omega

theorem raised (h : VoteInv granted v) (t : ℕ) : VoteInv granted (v.raised t) := by
  unfold Vital.raised
  split_ifs with hlt
  · exact h.later hlt (.inr rfl)
  · exact h

theorem torn {t : ℕ} (h : VoteInv granted v) (htorn : v.Torn t v') : VoteInv granted v' := by
  obtain ⟨hlt, disk, rfl, rfl | rfl⟩ := htorn
  · exact h.later hlt (.inl ⟨rfl, rfl⟩)
  · exact h.later hlt (.inr rfl)

theorem moves (h : VoteInv granted v) (hmoves : v.Moves v') : VoteInv granted v' := by
  cases hmoves with
  | raised t => exact h.raised t
  | torn htorn => exact h.torn htorn
  | saved t s =>
    obtain ⟨hle, hgranted, hdisk, hmem, hunique⟩ := h.raised t
    exact ⟨hle, hgranted, hdisk, hmem, hunique⟩
  | campaigned self disk hdisk =>
    have hlt : v.term < v.term + 1 := Nat.lt_succ_self _
    rcases hdisk with rfl | rfl | rfl
    · exact h.later hlt (.inl ⟨rfl, rfl⟩)
    · exact h.later hlt (.inr rfl)
    · exact h.later hlt (.inr rfl)

theorem restart (h : VoteInv granted v) : VoteInv granted ⟨v.disk.term, v.disk.votedFor, v.disk⟩ :=
  ⟨le_rfl, h.granted_le, h.onDisk, h.onDisk, h.unique⟩

section Vote

variable {candidate : NodeId}

theorem eq_candidate (h : VoteInv granted v)
    (hfree : v.votedFor = none ∨ v.votedFor = some candidate) {g : ℕ × NodeId} (hg : g ∈ granted)
    (hterm : g.1 = v.term) : g.2 = candidate := by
  have hvoted := h.inMemory g hg hterm
  rcases hfree with hnone | hsome
  · rw [hnone] at hvoted
    cases hvoted
  · rw [hsome] at hvoted
    exact (Option.some.inj hvoted).symm

theorem remember (h : VoteInv granted v)
    (hfree : v.votedFor = none ∨ v.votedFor = some candidate) :
    VoteInv granted ⟨v.term, some candidate, v.disk⟩ := by
  refine ⟨h.disk_le, h.granted_le, h.onDisk, ?_, h.unique⟩
  intro g hg hterm
  rw [h.eq_candidate hfree hg hterm]

theorem vote (h : VoteInv granted v) (hsaved : v.disk.term = v.term)
    (hfree : v.votedFor = none ∨ v.votedFor = some candidate) :
    VoteInv (granted ++ [(v.term, candidate)])
      ⟨v.term, some candidate, { v.disk with votedFor := some candidate }⟩ := by
  -- a vote of this term, old or new, is for the candidate
  have hsame : ∀ g ∈ granted ++ [(v.term, candidate)], g.1 = v.term → g.2 = candidate := by
    intro g hg hterm
    rcases List.mem_append.mp hg with hold | hnew
    · exact h.eq_candidate hfree hold hterm
    · rw [List.mem_singleton.mp hnew]
  refine ⟨hsaved.le, ?_, ?_, ?_, ?_⟩
  · intro g hg
    rcases List.mem_append.mp hg with hold | hnew
    · exact h.granted_le g hold
    · rw [List.mem_singleton.mp hnew]
      exact hsaved.ge
  · intro g hg hterm
    rw [hsame g hg (hterm.trans hsaved)]
  · intro g hg hterm
    rw [hsame g hg hterm]
  · intro g hg g' hg' heq
    rcases List.mem_append.mp hg with hold | hnew
    · rcases List.mem_append.mp hg' with hold' | hnew'
      · exact h.unique g hold g' hold' heq
      · rw [List.mem_singleton.mp hnew'] at heq ⊢
        exact h.eq_candidate hfree hold heq
    · rw [List.mem_singleton.mp hnew] at heq ⊢
      exact (hsame g' hg' heq.symm).symm

end Vote

section Step

variable [StateMachine T M] {d : RaftDriver T M}

theorem requestVote (h : VoteInv granted d.node.vital) {src dst : NodeId} {req : RequestVote}
    (hok : ¬ d.node.votesAhead req) :
    VoteInv (granted ++ d.grants (.deliver src dst (.requestVote req)))
      ((Event.deliver src dst (.requestVote req)).act d).node.vital := by
  have hwp := @handleRequestVote_wp T d.node req
  -- where nothing stands against the vote, its term is in memory and on disk once it is seen
  have hseen : d.node.MayVote req → (d.node.vital.raised req.term).term = req.term ∧
      (d.node.vital.raised req.term).disk.term = req.term := by
    intro hmay
    have hle := hmay.term_le
    have hfree := hmay.free
    unfold Vital.raised at hfree ⊢
    split_ifs at hfree ⊢ with hlt
    · exact ⟨rfl, rfl⟩
    · have heq : req.term = d.node.currentTerm := by
        have hnlt : ¬ d.node.currentTerm < req.term := hlt
        omega
      have hdisk : d.node.storage.disk.term = d.node.currentTerm := by
        by_contra hne
        exact hok ⟨heq, hne, hfree, hmay.upToDate⟩
      exact ⟨heq.symm, hdisk.trans heq.symm⟩
  have hraised := h.raised req.term
  simp only [Event.act, RaftDriver.handleInboundMessage, RaftDriver.grants, RaftDriver.answering]
  cases hrun : (handleRequestVote req).run d.node with
  | ok resp node' =>
    rcases wp_ok hwp hrun with ⟨hrefused, hvital⟩ | ⟨rfl, hmay, hvital⟩
    · have hsent : (node'.send src (.requestVoteResponse resp)).vital = node'.vital := rfl
      simp only [hrefused, hsent, hvital]
      rw [if_neg Bool.false_ne_true, List.append_nil]
      exact hraised
    · obtain ⟨hterm, hdisk⟩ := hseen hmay
      have hvote := hraised.vote (hdisk.trans hterm.symm) hmay.free
      rw [hterm] at hvote
      have hsent : (node'.send src (.requestVoteResponse ⟨req.term, true⟩)).vital = node'.vital :=
        rfl
      simp only [hsent, hvital]
      exact hvote
  | error e node' =>
    rw [List.append_nil]
    rcases wp_error hwp hrun with htorn | ⟨hmay, hvital⟩
    · exact h.torn htorn
    · have hremember := hraised.remember hmay.free
      rw [(hseen hmay).1] at hremember
      rw [hvital]
      exact hremember

/-- **Step lemma**: a step that does not vote ahead of the disk keeps the invariant. -/
theorem step {r : NodeRun T M} {e : NodeEvent T M} (h : VoteInv r.granted r.driver.node.vital)
    (hok : e.Saved r) :
    VoteInv ((NodeRun.system T M).step r e).granted
      ((NodeRun.system T M).step r e).driver.node.vital := by
  cases e with
  | call e outcomes =>
    have hexpecting : VoteInv r.granted (r.driver.expecting outcomes).node.vital := h
    cases hask : e.asksVote with
    | none =>
      have hgrants : (r.driver.expecting outcomes).grants e = [] := by
        unfold RaftDriver.grants
        split
        · cases hask
        · rfl
      simp only [NodeRun.system, hgrants, List.append_nil]
      exact hexpecting.moves (Event.act_moves hask)
    | some req =>
      obtain ⟨src, dst, rfl⟩ : ∃ src dst, e = .deliver src dst (.requestVote req) := by
        unfold Event.asksVote at hask
        split at hask
        · cases hask
          exact ⟨_, _, rfl⟩
        · cases hask
      exact hexpecting.requestVote hok
  | propose change noopCommand =>
    simp only [NodeRun.system, vital_proposeMembershipChange]
    exact h
  | restart stateMachine => exact h.restart

end Step

end VoteInv

/-- **A node votes once in a term**, whatever writes fail and wherever it crashes, as long as it
never votes ahead of its disk and never starts an election in term `u64::MAX`. -/
theorem vote_unique [StateMachine T M] {config : RaftConfig} {disk : Disk T} {sm : M}
    {r : NodeRun T M}
    (hrun : (NodeRun.system T M).Steps (fun r e => e.Saved r) (.initial config disk sm) r)
    {t : ℕ} {a b : NodeId} (ha : (t, a) ∈ r.granted) (hb : (t, b) ∈ r.granted) : a = b := by
  have hinv : VoteInv r.granted r.driver.node.vital := by
    apply hrun.invariant (fun r e _ hok h => VoteInv.step h hok)
    constructor
    · exact le_rfl
    · intro g hg
      cases hg
    · intro g hg
      cases hg
    · intro g hg
      cases hg
    · intro g hg
      cases hg
  exact hinv.unique _ ha _ hb rfl

section OneVoter

def oneVoter : NodeRun ℕ Unit := .initial { nodeId := 1, peers := [2, 3] } {} ()

instance (r : NodeRun ℕ Unit) (e : NodeEvent ℕ Unit) :
    Decidable ((NodeRun.system ℕ Unit).enabled r e) := .isTrue trivial

/-- A vote for node 2 in term 5 whose second save fails, a restart, and the vote once more. -/
def failedVote : List (NodeEvent ℕ Unit) :=
  [.call (.deliver 2 1 (.requestVote ⟨5, 2, 0, 0⟩)) [none, some (.io "disk full")],
    .restart (),
    .call (.deliver 2 1 (.requestVote ⟨5, 2, 0, 0⟩)) [],
    .call (.deliver 3 1 (.requestVote ⟨5, 3, 0, 0⟩)) []]

theorem vote_unique_failedVote :
    let r := (NodeRun.system ℕ Unit).exec oneVoter failedVote
    (5, 2) ∈ r.granted ∧ ∀ b, (5, b) ∈ r.granted → 2 = b := by
  intro r
  have hlegal : System.Legal (NodeRun.system ℕ Unit) (fun r e => e.Saved r) oneVoter failedVote := by
    decide +kernel
  have hvote : (5, 2) ∈ r.granted := by decide +kernel
  refine ⟨hvote, ?_⟩
  intro b hb
  exact vote_unique hlegal.steps hvote hb

/-- Saving term 5 fails, so the vote for node 2 is saved without its term and lost with the
restart. -/
def voteAhead : List (NodeEvent ℕ Unit) :=
  [.call (.deliver 2 1 (.requestVote ⟨5, 2, 0, 0⟩)) [some (.io "disk full")],
    .call (.deliver 2 1 (.requestVote ⟨5, 2, 0, 0⟩)) [],
    .restart (),
    .call (.deliver 3 1 (.requestVote ⟨5, 3, 0, 0⟩)) []]

/-- Without the side condition a node can vote twice in a term. -/
theorem vote_ahead_twice :
    ¬ ∀ (r : NodeRun ℕ Unit) (t a b : ℕ), (NodeRun.system ℕ Unit).Steps System.Free oneVoter r →
      (t, a) ∈ r.granted → (t, b) ∈ r.granted → a = b := by
  intro h
  have hlegal : System.Legal (NodeRun.system ℕ Unit) System.Free oneVoter voteAhead := by
    decide +kernel
  have heq := h _ 5 2 3 hlegal.steps (by decide +kernel) (by decide +kernel)
  cases heq

end OneVoter

/-! ## The log -/

section Log

theorem Vital.raised_log (v : Vital T) (t : ℕ) : (v.raised t).disk.log = v.disk.log := by
  unfold Vital.raised
  split_ifs
  · rfl
  · rfl

theorem Vital.Torn.log_eq {v v' : Vital T} {t : ℕ} (h : v.Torn t v') :
    v'.disk.log = v.disk.log := by
  obtain ⟨-, disk, rfl, rfl | rfl⟩ := h
  · rfl
  · rfl

theorem Vital.Moves.log_eq {v v' : Vital T} (h : v.Moves v') : v'.disk.log = v.disk.log := by
  cases h with
  | raised t => exact v.raised_log t
  | torn htorn => exact htorn.log_eq
  | saved t s => exact v.raised_log t
  | campaigned self disk hdisk =>
    rcases hdisk with rfl | rfl | rfl
    · rfl
    · rfl
    · rfl

theorem handleRequestVote_log (node : RaftNode T) (req : RequestVote) :
    wp (handleRequestVote req) (fun _ node' => node'.vital.disk.log = node.vital.disk.log)
      (fun _ node' => node'.vital.disk.log = node.vital.disk.log) node := by
  refine wp_mono ?_ ?_ (handleRequestVote_wp req)
  · rintro _ node' (⟨-, hvital⟩ | ⟨-, -, hvital⟩)
    · rw [hvital]
      exact Vital.raised_log _ _
    · rw [hvital]
      exact Vital.raised_log _ _
  · rintro _ node' (htorn | ⟨-, hvital⟩)
    · exact htorn.log_eq
    · rw [hvital]
      exact Vital.raised_log _ _

variable [StateMachine T M]

/-- **No event writes log entries to storage.** -/
theorem Event.act_log (e : Event T) (d : RaftDriver T M) :
    (e.act d).node.vital.disk.log = d.node.vital.disk.log := by
  cases hask : e.asksVote with
  | none => exact (Event.act_moves hask).log_eq
  | some req =>
    unfold Event.asksVote at hask
    split at hask
    · cases hask
      have hwp := handleRequestVote_log d.node req
      simp only [act, RaftDriver.handleInboundMessage, RaftDriver.answering]
      cases hrun : (handleRequestVote req).run d.node with
      | ok resp node' =>
        have hok := wp_ok hwp hrun
        exact hok
      | error e node' =>
        have herror := wp_error hwp hrun
        exact herror
    · cases hask

/-- **Run lemma**: over a whole run on empty storage, the stored log stays empty. -/
theorem NodeRun.disk_log_eq_nil {config : RaftConfig} {sm : M} {r : NodeRun T M}
    (hrun : (NodeRun.system T M).Steps System.Free (.initial config {} sm) r) :
    r.driver.node.vital.disk.log = [] := by
  apply hrun.invariant (I := fun r => r.driver.node.vital.disk.log = [])
  · intro r e _ _ h
    cases e with
    | call e outcomes => exact (e.act_log (r.driver.expecting outcomes)).trans h
    | propose change noopCommand =>
      simp only [NodeRun.system, vital_proposeMembershipChange]
      exact h
    | restart stateMachine => exact h
  · rfl

omit [StateMachine T M] in
theorem RaftNode.new_log_entries {config : RaftConfig} {storage : Storage T}
    (h : storage.disk.log = []) : (RaftNode.new config storage).log.entries = [] := by
  simp only [RaftNode.new, h]
  cases storage.disk.snapshot with
  | none => rfl
  | some s =>
    dsimp only
    split_ifs
    · rfl
    · unfold RaftLog.compactTo
      split_ifs
      · rfl
      · rfl
      · exact List.drop_nil

omit [StateMachine T M] in
theorem RaftLog.get_of_entries_nil {log : RaftLog T} (h : log.entries = []) (i : ℕ) :
    log.get i = none := by
  simp [RaftLog.get, h]

def RaftNode.Keeps (node : RaftNode T) (e : LogEntry T) : Prop :=
  node.log.get e.index = some e ∨
    ∃ s, node.lastSnapshot = some s ∧ e.index ≤ s.lastIncludedIndex

/-- The entries the node acknowledged are covered by the snapshot in its storage. -/
def NodeRun.Covered (r : NodeRun T M) : Prop :=
  ∀ e ∈ r.acked, ∃ s, r.driver.node.storage.disk.snapshot = some s ∧ e.index ≤ s.lastIncludedIndex

/-- **What survives a restart**: the node keeps what it acknowledged exactly when the snapshot in
storage covers it, since acknowledging an entry does not write it anywhere. -/
theorem restart_keeps_iff {config : RaftConfig} {sm sm' : M} {r : NodeRun T M}
    (hrun : (NodeRun.system T M).Steps System.Free (.initial config {} sm) r) :
    (∀ e ∈ r.acked, ((NodeRun.system T M).step r (.restart sm')).driver.node.Keeps e) ↔
      r.Covered := by
  have hentries : ((NodeRun.system T M).step r (.restart sm')).driver.node.log.entries = [] :=
    RaftNode.new_log_entries (NodeRun.disk_log_eq_nil hrun)
  constructor
  · intro h e he
    rcases h e he with hget | hcovered
    · rw [RaftLog.get_of_entries_nil hentries] at hget
      cases hget
    · exact hcovered
  · intro h e he
    exact .inr (h e he)

end Log

section OneEntry

/-- Node 1 takes an entry from the leader, applies it and saves a snapshot. -/
def snapshotted : List (NodeEvent ℕ Unit) :=
  [.call (.deliver 2 1 (.appendEntries ⟨1, 2, 0, 0, [⟨1, 1, 10⟩], 1⟩)) [],
    .call (.applyCommitted 1) [], .call (.createSnapshot 1) []]

theorem restart_keeps_iff_snapshotted :
    let r := (NodeRun.system ℕ Unit).exec oneVoter snapshotted
    r.acked = [⟨1, 1, 10⟩] ∧
      ((NodeRun.system ℕ Unit).step r (.restart ())).driver.node.Keeps ⟨1, 1, 10⟩ := by
  intro r
  have hlegal : System.Legal (NodeRun.system ℕ Unit) System.Free oneVoter snapshotted := by
    decide +kernel
  have hacked : r.acked = [⟨1, 1, 10⟩] := by decide +kernel
  have hcovered : r.Covered := by
    intro e he
    rw [hacked, List.mem_singleton] at he
    subst he
    exact ⟨⟨1, 1, []⟩, by decide +kernel, le_rfl⟩
  refine ⟨hacked, ?_⟩
  apply (restart_keeps_iff hlegal.steps).mpr hcovered
  rw [hacked]
  exact List.mem_singleton_self _

/-- An entry is acknowledged and lost: node 1 accepts it and restarts. -/
theorem restart_loses_entry :
    ¬ ∀ r : NodeRun ℕ Unit, (NodeRun.system ℕ Unit).Steps System.Free oneVoter r →
      ∀ e ∈ r.acked, ((NodeRun.system ℕ Unit).step r (.restart ())).driver.node.Keeps e := by
  intro h
  have hlegal : System.Legal (NodeRun.system ℕ Unit) System.Free oneVoter
      (snapshotted.take 1) := by
    decide +kernel
  have hacked : (⟨1, 1, 10⟩ : LogEntry ℕ) ∈
      ((NodeRun.system ℕ Unit).exec oneVoter (snapshotted.take 1)).acked := by
    decide +kernel
  rcases h _ hlegal.steps _ hacked with hget | ⟨s, hsnapshot, -⟩
  · have hnone : ((NodeRun.system ℕ Unit).step ((NodeRun.system ℕ Unit).exec oneVoter
        (snapshotted.take 1)) (.restart ())).driver.node.log.get 1 = none := by
      decide +kernel
    rw [hnone] at hget
    cases hget
  · have hnone : ((NodeRun.system ℕ Unit).step ((NodeRun.system ℕ Unit).exec oneVoter
        (snapshotted.take 1)) (.restart ())).driver.node.lastSnapshot = none := by
      decide +kernel
    rw [hnone] at hsnapshot
    cases hsnapshot

end OneEntry

end Pirc.Raft
