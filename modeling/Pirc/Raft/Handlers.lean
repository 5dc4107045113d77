import Pirc.Raft.Cluster

/-!
# Raft: what the handlers do

Equations of the handlers over storage whose writes succeed, and the shape of what they send.

## Main results

* `handleTermUpdate_eq`, `startElection_eq`, `handleRequestVote_cases`, …: one equation or case
  list for each handler
* `sendAppendEntriesToAll_sends`: replication to all peers only sends, to peers
* `advanceCommitIndex_cases`: committing changes the commit index and nothing else
-/

namespace Pirc.Raft

variable {T M : Type}

/-! ## Sending -/

namespace RaftNode

/-- `node'` is `node` with more messages sent, which all satisfy `P`. -/
def Sends (node : RaftNode T) (P : NodeId → RaftMessage T → Prop) (node' : RaftNode T) : Prop :=
  ∃ out, node' = { node with outbound := node.outbound ++ out } ∧ ∀ x ∈ out, P x.1 x.2

namespace Sends

variable {node node₁ node₂ : RaftNode T} {P Q : NodeId → RaftMessage T → Prop}

theorem refl (node : RaftNode T) (P : NodeId → RaftMessage T → Prop) : node.Sends P node :=
  ⟨[], by simp, by simp⟩

theorem trans (h₁ : node.Sends P node₁) (h₂ : node₁.Sends P node₂) : node.Sends P node₂ := by
  obtain ⟨out₁, rfl, hP₁⟩ := h₁
  obtain ⟨out₂, rfl, hP₂⟩ := h₂
  refine ⟨out₁ ++ out₂, by simp, fun x hx => ?_⟩
  rcases List.mem_append.mp hx with hx | hx
  · exact hP₁ x hx
  · exact hP₂ x hx

theorem mono (h : node.Sends P node₁) (hPQ : ∀ p m, P p m → Q p m) : node.Sends Q node₁ := by
  obtain ⟨out, rfl, hP⟩ := h
  exact ⟨out, rfl, fun x hx => hPQ _ _ (hP x hx)⟩

theorem send {p : NodeId} {m : RaftMessage T} (h : P p m) : node.Sends P (node.send p m) :=
  ⟨[(p, m)], rfl, by simpa using h⟩

theorem foldl {α : Type} {f : RaftNode T → α → RaftNode T} : ∀ {l : List α},
    (∀ a ∈ l, ∀ node', node.Sends P node' → node.Sends P (f node' a)) →
    ∀ {node' : RaftNode T}, node.Sends P node' → node.Sends P (l.foldl f node')
  | [], _, _, h => h
  | a :: _, hf, _, h =>
    foldl (fun b hb => hf b (List.mem_cons_of_mem a hb)) (hf a List.mem_cons_self _ h)

theorem mem_outbound (h : node.Sends P node₁) {x : NodeId × RaftMessage T}
    (hx : x ∈ node₁.outbound) : x ∈ node.outbound ∨ P x.1 x.2 := by
  obtain ⟨out, rfl, hP⟩ := h
  exact (List.mem_append.mp hx).imp_right (hP x)

end Sends

/-- The messages replication sends: the entries from some position past the compaction point on,
or a chunk of the latest snapshot. -/
inductive Replicates (node : RaftNode T) : RaftMessage T → Prop
  | entries (nextIdx : ℕ) (h : node.log.offset < nextIdx ∨ node.log.offset = 0) :
      Replicates node (.appendEntries (node.appendEntriesFor nextIdx))
  | chunk (s : Snapshot) (req : InstallSnapshot) (hs : node.lastSnapshot = some s)
      (hterm : req.term = node.currentTerm) (hindex : req.lastIncludedIndex = s.lastIncludedIndex)
      (hsterm : req.lastIncludedTerm = s.lastIncludedTerm) :
      Replicates node (.installSnapshot req)

theorem mem_snapshotChunks {node : RaftNode T} {s : Snapshot} :
    ∀ {fuel offset : ℕ} {req : InstallSnapshot}, req ∈ node.snapshotChunks s fuel offset →
      req.term = node.currentTerm ∧ req.lastIncludedIndex = s.lastIncludedIndex ∧
        req.lastIncludedTerm = s.lastIncludedTerm
  | 0, _, _, h => by simp [snapshotChunks] at h
  | fuel + 1, offset, req, h => by
    rw [snapshotChunks] at h
    dsimp only at h
    split_ifs at h with hlt
    · rcases List.mem_cons.mp h with rfl | h
      · exact ⟨rfl, rfl, rfl⟩
      · exact mem_snapshotChunks h
    · simp at h

theorem sendSnapshotToPeer_sends (node : RaftNode T) (peer : NodeId) :
    node.Sends (fun p m => p = peer ∧ node.Replicates m) (node.sendSnapshotToPeer peer) := by
  unfold sendSnapshotToPeer
  cases hs : node.lastSnapshot with
  | none => exact .refl _ _
  | some s =>
    dsimp only
    split_ifs
    · exact .send ⟨rfl, .chunk s _ hs rfl rfl rfl⟩
    · refine Sends.foldl (fun req hreq node' h => h.trans (.send ⟨rfl, ?_⟩)) (.refl _ _)
      obtain ⟨hterm, hindex, hsterm⟩ := mem_snapshotChunks hreq
      exact .chunk s req hs hterm hindex hsterm

theorem replicateToPeer_sends (node : RaftNode T) (peer : NodeId) :
    node.Sends (fun p m => p = peer ∧ node.state = .leader ∧ node.Replicates m)
      (node.replicateToPeer peer) := by
  unfold replicateToPeer
  split_ifs with hstate
  · exact .refl _ _
  · rw [not_not] at hstate
    cases node.leaderState with
    | none => exact .refl _ _
    | some leader =>
      dsimp only
      split_ifs with hoff
      · exact (node.sendSnapshotToPeer_sends peer).mono fun p m h => ⟨h.1, hstate, h.2⟩
      · exact .send ⟨rfl, hstate, .entries _ (by omega)⟩

theorem replicates_outbound {node : RaftNode T} {out : List (NodeId × RaftMessage T)}
    {m : RaftMessage T} (h : Replicates { node with outbound := out } m) : node.Replicates m := by
  cases h with
  | entries nextIdx h => exact .entries nextIdx h
  | chunk s req hs hterm hindex hsterm => exact .chunk s req hs hterm hindex hsterm

theorem sendAppendEntriesToAll_sends (node : RaftNode T) :
    node.Sends (fun p m => p ∈ node.membership.peers node.nodeId ∧ node.Replicates m)
      node.sendAppendEntriesToAll := by
  unfold sendAppendEntriesToAll
  split_ifs
  · exact .refl _ _
  · refine Sends.foldl (fun peer hpeer node' h => h.trans ?_) (.refl _ _)
    obtain ⟨out, rfl, -⟩ := h
    exact (replicateToPeer_sends _ peer).mono fun p m hpm =>
      ⟨hpm.1 ▸ hpeer, replicates_outbound hpm.2.2⟩

theorem voteRequests_sends (node : RaftNode T) :
    node.Sends (fun _ m => m = .requestVote node.voteRequest)
      (node.config.peers.foldl
        (fun node' peer => node'.send peer (.requestVote node.voteRequest)) node) :=
  Sends.foldl (fun _ _ _ hsent => hsent.trans (.send rfl)) (.refl _ _)

/-! ## Committing -/

theorem advanceCommitIndex_cases {node : RaftNode T} (h : node.membership.pendingChange = none) :
    node.advanceCommitIndex = node ∨
    ∃ leader commit, node.state = .leader ∧ node.leaderState = some leader ∧
      commit = scanCommit node.log node.currentTerm node.quorumSize node.volatile.commitIndex
        (leader.matchIndex.entries.map Sigma.snd) node.log.lastIndex ∧
      node.volatile.commitIndex < commit ∧
      node.advanceCommitIndex =
        { node with volatile := { node.volatile with commitIndex := commit } } := by
  unfold advanceCommitIndex
  split_ifs with hstate
  · exact .inl rfl
  · cases hleader : node.leaderState with
    | none => exact .inl rfl
    | some leader =>
      dsimp only
      split_ifs with hlt
      · refine .inr ⟨leader, _, not_not.mp hstate, rfl, rfl, hlt, ?_⟩
        simp [commitMembershipChangeIfPending, h]
      · exact .inl rfl

theorem commitMembershipChangeIfPending_eq (node : RaftNode T) (k : ℕ) :
    ∃ state leaderState currentLeader membership, node.commitMembershipChangeIfPending k =
      { node with
        state := state
        leaderState := leaderState
        currentLeader := currentLeader
        membership := membership } := by
  unfold commitMembershipChangeIfPending
  cases node.membership.pendingChange with
  | none => exact ⟨_, _, _, _, rfl⟩
  | some pending =>
    dsimp only
    split_ifs
    · exact ⟨_, _, _, _, rfl⟩
    · exact ⟨_, _, _, _, rfl⟩
    · exact ⟨_, _, _, _, rfl⟩

theorem advanceCommitIndex_eq (node : RaftNode T) :
    ∃ state leaderState currentLeader membership commit, node.advanceCommitIndex =
      { node with
        state := state
        leaderState := leaderState
        currentLeader := currentLeader
        membership := membership
        volatile := { node.volatile with commitIndex := commit } } := by
  unfold advanceCommitIndex
  split_ifs
  · exact ⟨_, _, _, _, _, rfl⟩
  · split
    · exact ⟨_, _, _, _, _, rfl⟩
    · dsimp only
      split_ifs
      · obtain ⟨_, _, _, _, heq⟩ := commitMembershipChangeIfPending_eq (T := T) _ _
        exact ⟨_, _, _, _, _, heq⟩
      · exact ⟨_, _, _, _, _, rfl⟩

@[simp] theorem advanceCommitIndex_outbound (node : RaftNode T) :
    node.advanceCommitIndex.outbound = node.outbound := by
  obtain ⟨_, _, _, _, _, heq⟩ := node.advanceCommitIndex_eq
  rw [heq]

@[simp] theorem updateProgress_outbound (node : RaftNode T) (f : LeaderState → LeaderState) :
    (node.updateProgress f).outbound = node.outbound := by
  unfold updateProgress
  split_ifs
  · rfl
  · simp

/-! ## What elections and progress leave alone -/

/-- What only terms, votes, log entries and snapshots change. -/
structure Core (T : Type) where
  currentTerm : ℕ
  votedFor : Option NodeId
  log : RaftLog T
  storage : Storage T

def core (node : RaftNode T) : Core T :=
  ⟨node.currentTerm, node.votedFor, node.log, node.storage⟩

theorem Sends.core_eq {node node' : RaftNode T} {P : NodeId → RaftMessage T → Prop}
    (h : node.Sends P node') : node'.core = node.core := by
  obtain ⟨out, rfl, -⟩ := h
  rfl

@[simp] theorem core_becomeLeader (node : RaftNode T) : node.becomeLeader.core = node.core :=
  node.lead.sendAppendEntriesToAll_sends.core_eq

@[simp] theorem core_requestVotes (node : RaftNode T) : node.requestVotes.core = node.core := by
  unfold requestVotes
  split_ifs
  · exact core_becomeLeader node
  · exact node.voteRequests_sends.core_eq

@[simp] theorem core_countVote (node : RaftNode T) (sender : NodeId) (resp : RequestVoteResponse) :
    (node.countVote sender resp).core = node.core := by
  unfold countVote
  split_ifs
  · rfl
  · dsimp only
    split_ifs
    · exact core_becomeLeader _
    · rfl
  · rfl

@[simp] theorem core_advanceCommitIndex (node : RaftNode T) :
    node.advanceCommitIndex.core = node.core := by
  obtain ⟨_, _, _, _, _, heq⟩ := node.advanceCommitIndex_eq
  rw [heq]
  rfl

@[simp] theorem core_updateProgress (node : RaftNode T) (f : LeaderState → LeaderState) :
    (node.updateProgress f).core = node.core := by
  unfold updateProgress
  split_ifs
  · rfl
  · exact core_advanceCommitIndex _

/-! ## Elections -/

/-- The node once it has seen a term, with the writes done. -/
def observe (node : RaftNode T) (t : ℕ) : RaftNode T :=
  if node.currentTerm < t then
    { node.stepDown t with
      storage := { node.storage with
        disk := { node.storage.disk with term := t, votedFor := none } } }
  else node

@[simp] theorem observe_log (node : RaftNode T) (t : ℕ) : (node.observe t).log = node.log := by
  unfold observe; split_ifs <;> rfl

@[simp] theorem observe_currentTerm (node : RaftNode T) (t : ℕ) :
    (node.observe t).currentTerm = max node.currentTerm t := by
  unfold observe stepDown; split_ifs with h <;> simp <;> omega

@[simp] theorem observe_config (node : RaftNode T) (t : ℕ) :
    (node.observe t).config = node.config := by
  unfold observe; split_ifs <;> rfl

@[simp] theorem observe_volatile (node : RaftNode T) (t : ℕ) :
    (node.observe t).volatile = node.volatile := by
  unfold observe; split_ifs <;> rfl

@[simp] theorem observe_outbound (node : RaftNode T) (t : ℕ) :
    (node.observe t).outbound = node.outbound := by
  unfold observe; split_ifs <;> rfl

@[simp] theorem observe_lastSnapshot (node : RaftNode T) (t : ℕ) :
    (node.observe t).lastSnapshot = node.lastSnapshot := by
  unfold observe; split_ifs <;> rfl

theorem observe_of_le {node : RaftNode T} {t : ℕ} (h : t ≤ node.currentTerm) :
    node.observe t = node := if_neg (by omega)

theorem observe_reliable {node : RaftNode T} (h : node.storage.Reliable) (t : ℕ) :
    (node.observe t).storage.Reliable := by
  unfold observe; split_ifs <;> exact h

end RaftNode

open RaftNode

section Equations

variable {node : RaftNode T}

@[simp] theorem run_writing (w : Storage T → Except StorageError Unit × Storage T)
    (node : RaftNode T) :
    (writing w).run node =
      match w node.storage with
      | (.ok (), s) => .ok () { node with storage := s }
      | (.error e, s) => .error e { node with storage := s } := rfl

@[simp] theorem run_map_eStateM {ε σ α β : Type} (f : α → β) (x : EStateM ε σ α) (s : σ) :
    EStateM.run (f <$> x) s =
      match x.run s with
      | .ok a s => .ok (f a) s
      | .error e s => .error e s := by
  change EStateM.map f x s = _
  unfold EStateM.map EStateM.run
  cases x s <;> rfl

theorem handleTermUpdate_eq (h : node.storage.Reliable) (t : ℕ) :
    (handleTermUpdate t).run node = .ok (decide (node.currentTerm < t)) (node.observe t) := by
  have ho : node.storage.outcomes = [] := h
  by_cases ht : node.currentTerm < t
  · simp [handleTermUpdate, observe, stepDown, Storage.saveTerm, Storage.saveVotedFor,
      Storage.write, ht, ho]
  · simp [handleTermUpdate, observe, ht]

def RaftNode.savedCampaign (node : RaftNode T) : RaftNode T :=
  { node.campaign with
    storage := { node.storage with
      disk := { node.storage.disk with
        term := node.currentTerm + 1, votedFor := some node.nodeId } } }

theorem startElection_eq (h : node.storage.Reliable) :
    startElection.run node = .ok () node.savedCampaign.requestVotes := by
  have ho : node.storage.outcomes = [] := h
  simp [startElection, Storage.saveTerm, Storage.saveVotedFor, Storage.write, savedCampaign,
    campaign, ho]

theorem handleRequestVoteResponse_eq (h : node.storage.Reliable) (sender : NodeId)
    (resp : RequestVoteResponse) :
    (handleRequestVoteResponse sender resp).run node =
      .ok () ((node.observe resp.term).countVote sender resp) := by
  simp [handleRequestVoteResponse, handleTermUpdate_eq h]

theorem handleAppendEntriesResponse_eq (h : node.storage.Reliable) (sender : NodeId)
    (resp : AppendEntriesResponse) :
    (handleAppendEntriesResponse sender resp).run node =
      .ok () ((node.observe resp.term).updateProgress (recordAppendResponse · sender resp)) := by
  simp [handleAppendEntriesResponse, handleTermUpdate_eq h]

theorem handleInstallSnapshotResponse_eq (h : node.storage.Reliable) (sender : NodeId)
    (resp : InstallSnapshotResponse) :
    (handleInstallSnapshotResponse sender resp).run node =
      .ok () ((node.observe resp.term).updateProgress
        (recordSnapshotResponse node.lastSnapshot · sender)) := by
  simp [handleInstallSnapshotResponse, handleTermUpdate_eq h]

/-- **What `handleRequestVote` can do**: refuse, or record and grant a vote it may give. -/
theorem handleRequestVote_cases (h : node.storage.Reliable) (req : RequestVote) :
    (handleRequestVote req).run node =
        .ok ⟨(node.observe req.term).currentTerm, false⟩ (node.observe req.term) ∨
    (node.currentTerm ≤ req.term ∧
      ((node.observe req.term).votedFor = none ∨
        (node.observe req.term).votedFor = some req.candidateId) ∧
      isLogUpToDate req.lastLogTerm req.lastLogIndex node.log.lastTerm node.log.lastIndex = true ∧
      (handleRequestVote req).run node = .ok ⟨req.term, true⟩
        { node.observe req.term with
          votedFor := some req.candidateId
          storage := { node.storage with
            disk := { (node.observe req.term).storage.disk with
              votedFor := some req.candidateId } } }) := by
  have ho : (node.observe req.term).storage.outcomes = [] := node.observe_reliable h req.term
  have ho' : node.storage.outcomes = [] := h
  by_cases hterm : req.term < max node.currentTerm req.term
  · exact .inl (by simp [handleRequestVote, handleTermUpdate_eq h, hterm])
  by_cases hvote : (node.observe req.term).votedFor = none ∨
      (node.observe req.term).votedFor = some req.candidateId
  · have hvote' : ¬ (¬ (node.observe req.term).votedFor = none ∧
        ¬ (node.observe req.term).votedFor = some req.candidateId) := by tauto
    cases hlog : isLogUpToDate req.lastLogTerm req.lastLogIndex node.log.lastTerm
      node.log.lastIndex with
    | false => exact .inl (by simp [handleRequestVote, handleTermUpdate_eq h, hterm, hlog])
    | true =>
      have hmax : max node.currentTerm req.term = req.term := by omega
      refine .inr ⟨by omega, hvote, rfl, ?_⟩
      simp [handleRequestVote, handleTermUpdate_eq h, hmax, hvote', hlog, Storage.saveVotedFor,
        Storage.write, ho, ho']
  · have hvote' : ¬ (node.observe req.term).votedFor = none ∧
        ¬ (node.observe req.term).votedFor = some req.candidateId := by tauto
    exact .inl (by simp [handleRequestVote, handleTermUpdate_eq h, hterm, hvote'])

/-- **What `handleAppendEntries` can do**: refuse a stale leader, follow a valid one whose check
fails, or append. -/
theorem handleAppendEntries_cases (h : node.storage.Reliable) (req : AppendEntries T) :
    (req.term < node.currentTerm ∧
      (handleAppendEntries req).run node = .ok ⟨node.currentTerm, false, 0⟩ node) ∨
    (node.currentTerm ≤ req.term ∧
      node.log.appendEntries req.prevLogIndex req.prevLogTerm req.entries = none ∧
      (handleAppendEntries req).run node =
        .ok ⟨req.term, false, 0⟩ ((node.observe req.term).follow req.leaderId)) ∨
    ∃ log, node.currentTerm ≤ req.term ∧
      node.log.appendEntries req.prevLogIndex req.prevLogTerm req.entries = some log ∧
      (handleAppendEntries req).run node =
        .ok ⟨req.term, true, log.lastIndex⟩
          { (node.observe req.term).follow req.leaderId with
            log := log
            volatile := { node.volatile with
              commitIndex := node.followerCommit req.leaderCommit log } } := by
  rcases Nat.lt_or_ge req.term node.currentTerm with hterm | hterm
  · refine .inl ⟨hterm, ?_⟩
    simp [handleAppendEntries, handleTermUpdate_eq h, hterm, observe_of_le hterm.le]
  · have hmax : max node.currentTerm req.term = req.term := by omega
    cases hlog : node.log.appendEntries req.prevLogIndex req.prevLogTerm req.entries with
    | none =>
      exact .inr (.inl ⟨hterm, rfl, by
        simp [handleAppendEntries, handleTermUpdate_eq h, hmax, follow, hlog]⟩)
    | some log =>
      exact .inr (.inr ⟨log, hterm, rfl, by
        simp [handleAppendEntries, handleTermUpdate_eq h, hmax, follow, followerCommit, hlog]⟩)

end Equations

/-! ## Snapshots -/

section Snapshots

variable [StateMachine T M] {node : RaftNode T}

@[simp] theorem run_asSnapshotError {α : Type} (x : NodeM T StorageError α) (node : RaftNode T) :
    (asSnapshotError x).run node =
      match x.run node with
      | .ok a node => .ok a node
      | .error e node => .error (.storage e) node := by
  change EStateM.adaptExcept SnapshotError.storage x node = _
  unfold EStateM.adaptExcept EStateM.run
  cases x node <;> rfl

omit [StateMachine T M] in
@[simp] theorem run_onNode {ε α : Type} (x : NodeM T ε α) (node : RaftNode T) (sm : M) :
    (onNode x).run (node, sm) =
      match x.run node with
      | .ok a node => .ok a (node, sm)
      | .error e node => .error e (node, sm) := rfl

def RaftNode.takeSnapshot (node : RaftNode T) (sm : M) : Snapshot where
  lastIncludedIndex := node.volatile.lastApplied
  lastIncludedTerm := (node.log.termAt node.volatile.lastApplied).getD node.log.snapshotTerm
  data := StateMachine.snapshot sm

def RaftNode.saved (node : RaftNode T) (s : Snapshot) : RaftNode T :=
  { node with
    storage := { node.storage with disk := { node.storage.disk with snapshot := some s } }
    lastSnapshot := some s }

/-- **What `createSnapshot` can do**: nothing, or save a snapshot and compact the log. -/
theorem createSnapshot_cases (h : node.storage.Reliable) (sm : M) :
    (createSnapshot sm).run node = .ok () node ∨
    (node.volatile.lastApplied ≠ 0 ∧ (createSnapshot sm).run node = .ok ()
      { node.saved (node.takeSnapshot sm) with
        log := node.log.compactTo node.volatile.lastApplied }) := by
  have ho : node.storage.outcomes = [] := h
  by_cases hzero : node.volatile.lastApplied = 0
  · exact .inl (by simp [createSnapshot, hzero])
  cases hany : node.lastSnapshot.any (node.volatile.lastApplied ≤ ·.lastIncludedIndex) with
  | true => exact .inl (by simp [createSnapshot, hzero, hany])
  | false =>
    refine .inr ⟨hzero, ?_⟩
    simp [createSnapshot, hzero, hany, Storage.saveSnapshot, Storage.write, saved, takeSnapshot, ho]

/-- The node once it follows the leader that sends it a snapshot, with the chunks it has. -/
def RaftNode.receiving (node : RaftNode T) (req : InstallSnapshot) (chunks : Option (List UInt8)) :
    RaftNode T :=
  { (node.observe req.term).follow req.leaderId with pendingSnapshot := chunks }

def RaftNode.installed (node : RaftNode T) (s : Snapshot) : RaftNode T :=
  { node.saved s with
    volatile :=
      { commitIndex := max node.volatile.commitIndex s.lastIncludedIndex
        lastApplied := max node.volatile.lastApplied s.lastIncludedIndex } }

theorem finishInstall_eq (h : node.storage.Reliable) (req : InstallSnapshot) (data : List UInt8)
    (sm : M) :
    (finishInstall req data).run (node, sm) =
      let node' := { node with log := node.cutLog req.lastIncludedIndex req.lastIncludedTerm }
      match StateMachine.restore sm data with
      | (.error e, sm') => .error e (node', sm')
      | (.ok (), sm') => .ok ⟨node.currentTerm⟩
          (node'.installed ⟨req.lastIncludedIndex, req.lastIncludedTerm, data⟩, sm') := by
  have ho : node.storage.outcomes = [] := h
  unfold finishInstall EStateM.run
  dsimp only
  rcases StateMachine.restore sm data with ⟨e | _, sm'⟩
  · rfl
  · change EStateM.run (onNode _) _ = _
    simp [saveInstalled, Storage.saveSnapshot, Storage.write, ho, installed, saved]

theorem handleInstallSnapshot_eq (h : node.storage.Reliable) {req : InstallSnapshot}
    (hterm : node.currentTerm ≤ req.term) (sm : M) :
    (handleInstallSnapshot req).run (node, sm) =
      match (if req.offset = 0 then some req.data
          else (node.observe req.term).pendingSnapshot.map (· ++ req.data)) with
      | none => .ok ⟨(node.observe req.term).currentTerm⟩
          (node.receiving req (node.observe req.term).pendingSnapshot, sm)
      | some data =>
        if ¬ req.done then
          .ok ⟨(node.observe req.term).currentTerm⟩ (node.receiving req (some data), sm)
        else (finishInstall req data).run (node.receiving req none, sm) := by
  have hlt : ¬ req.term < (node.observe req.term).currentTerm := by
    simp only [observe_currentTerm]
    omega
  have hpending : ((node.observe req.term).follow req.leaderId).pendingSnapshot =
      (node.observe req.term).pendingSnapshot := rfl
  simp only [handleInstallSnapshot, EStateM.run_bind, run_onNode, run_asSnapshotError,
    handleTermUpdate_eq h, EStateM.run_get, hlt, if_false, hpending]
  generalize (if req.offset = 0 then some req.data
    else (node.observe req.term).pendingSnapshot.map (· ++ req.data)) = buffer
  cases buffer with
  | none => simp [receiving, follow]
  | some data =>
    by_cases hd : req.done = true
    · simp [receiving, follow, hd]
    · simp [receiving, follow, hd]

theorem handleInstallSnapshot_stale (h : node.storage.Reliable) {req : InstallSnapshot}
    (hterm : req.term < node.currentTerm) (sm : M) :
    (handleInstallSnapshot req).run (node, sm) = .ok ⟨node.currentTerm⟩ (node, sm) := by
  simp [handleInstallSnapshot, handleTermUpdate_eq h, hterm, observe_of_le hterm.le]

omit [StateMachine T M] in
@[simp] theorem RaftNode.cutLog_receiving (req : InstallSnapshot) (chunks : Option (List UInt8))
    (k t : ℕ) : (node.receiving req chunks).cutLog k t = node.cutLog k t := by
  simp [cutLog, receiving, follow]

/-- **What `handleInstallSnapshot` can do**: refuse a stale leader, collect a chunk, or cut the log
and install the snapshot, which fails when the state machine does not take it. -/
theorem handleInstallSnapshot_cases (h : node.storage.Reliable) (req : InstallSnapshot) (sm : M) :
    (req.term < node.currentTerm ∧
      (handleInstallSnapshot req).run (node, sm) = .ok ⟨node.currentTerm⟩ (node, sm)) ∨
    (node.currentTerm ≤ req.term ∧ ∃ chunks, (handleInstallSnapshot req).run (node, sm) =
      .ok ⟨(node.observe req.term).currentTerm⟩ (node.receiving req chunks, sm)) ∨
    (node.currentTerm ≤ req.term ∧
      let node' :=
        { node.receiving req none with
          log := node.cutLog req.lastIncludedIndex req.lastIncludedTerm }
      (∃ e sm', (handleInstallSnapshot req).run (node, sm) = .error e (node', sm')) ∨
      ∃ data sm', (handleInstallSnapshot req).run (node, sm) =
        .ok ⟨(node.observe req.term).currentTerm⟩
            (node'.installed ⟨req.lastIncludedIndex, req.lastIncludedTerm, data⟩, sm')) := by
  rcases Nat.lt_or_ge req.term node.currentTerm with hterm | hterm
  · exact .inl ⟨hterm, handleInstallSnapshot_stale h hterm sm⟩
  · refine .inr ?_
    rw [handleInstallSnapshot_eq h hterm]
    split
    · exact .inl ⟨hterm, _, rfl⟩
    · next data _ =>
      split_ifs with hd
      · refine .inr ⟨hterm, ?_⟩
        have hreliable : (node.receiving req none).storage.Reliable :=
          node.observe_reliable h req.term
        rw [finishInstall_eq hreliable, cutLog_receiving]
        rcases StateMachine.restore sm data with ⟨e | _, sm'⟩
        · exact .inl ⟨e, sm', rfl⟩
        · exact .inr ⟨data, sm', rfl⟩
      · exact .inl ⟨hterm, _, rfl⟩

end Snapshots

end Pirc.Raft
