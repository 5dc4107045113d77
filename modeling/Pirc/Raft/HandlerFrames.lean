import Pirc.Raft.Durability

/-!
# Raft: frames of the handlers

What all handlers have in common that neither start an election nor count a vote: they change
nothing that elections look at, or make the node a follower, or commit as a leader. Those that do
not commit either change nothing that a leader keeps account of.
-/

namespace Pirc.Raft

variable {T M : Type}

/-- **A quiet frame**: a relation between a node before and after that allows for changes in what
neither elections nor commits look at, and for becoming a follower. -/
class QuietFrame (R : RaftNode T → RaftNode T → Prop) : Prop where
  refl : ∀ node, R node node
  trans : ∀ {node₁ node₂ node₃}, R node₁ node₂ → R node₂ node₃ → R node₁ node₃
  of_quiet : ∀ {node node' : RaftNode T}, node'.config = node.config →
    node'.electionTracker = node.electionTracker → node'.state = node.state →
    node'.membership = node.membership → node'.currentTerm = node.currentTerm →
    node'.leaderState = node.leaderState →
    node'.volatile.commitIndex = node.volatile.commitIndex → R node node'
  of_follower : ∀ {node node' : RaftNode T}, node'.config = node.config →
    node'.electionTracker.clusterSize = node.electionTracker.clusterSize →
    node'.electionTracker.votes = node.electionTracker.votes ∨ node'.electionTracker.votes = [] →
    node'.state = .follower → R node node'

/-- **A frame**: a relation between a node before and after that allows for changes elsewhere, for
becoming a follower, and for committing a membership change as a leader. -/
class HandlerFrame (R : RaftNode T → RaftNode T → Prop) : Prop where
  refl : ∀ node, R node node
  trans : ∀ {node₁ node₂ node₃}, R node₁ node₂ → R node₂ node₃ → R node₁ node₃
  of_eq : ∀ {node node' : RaftNode T}, node'.config = node.config →
    node'.electionTracker = node.electionTracker → node'.state = node.state →
    node'.membership = node.membership → node'.currentTerm = node.currentTerm → R node node'
  of_follower : ∀ {node node' : RaftNode T}, node'.config = node.config →
    node'.electionTracker.clusterSize = node.electionTracker.clusterSize →
    node'.electionTracker.votes = node.electionTracker.votes ∨ node'.electionTracker.votes = [] →
    node'.state = .follower → R node node'
  of_commit : ∀ {node : RaftNode T} (k : ℕ), node.state = .leader →
    R node (node.commitMembershipChangeIfPending k)

instance {R : RaftNode T → RaftNode T → Prop} [HandlerFrame R] : QuietFrame R where
  refl := HandlerFrame.refl
  trans := HandlerFrame.trans
  of_quiet hconfig htracker hstate hmembership hterm _ _ :=
    HandlerFrame.of_eq hconfig htracker hstate hmembership hterm
  of_follower := HandlerFrame.of_follower

variable {R : RaftNode T → RaftNode T → Prop}

instance [QuietFrame R] : IsTrans (RaftNode T) R := ⟨fun _ _ _ => QuietFrame.trans⟩

open QuietFrame (of_quiet of_follower)
open HandlerFrame (of_eq of_commit)
open RaftNode

/-! ## Quiet operations -/

section Quiet

variable [QuietFrame R]

theorem RaftNode.Sends.frame {node node' : RaftNode T} {P : NodeId → RaftMessage T → Prop}
    (h : node.Sends P node') : R node node' := by
  obtain ⟨out, rfl, -⟩ := h
  exact of_quiet rfl rfl rfl rfl rfl rfl rfl

theorem frame_clientRequest (node : RaftNode T) (command : T) :
    R node (node.clientRequest command).2 := by
  unfold clientRequest
  split_ifs
  · exact QuietFrame.refl node
  · refine QuietFrame.trans ?_ (node.appendCommand command).sendAppendEntriesToAll_sends.frame
    exact of_quiet rfl rfl rfl rfl rfl rfl rfl

variable {node : RaftNode T}

theorem wp_handleTermUpdate_of_le {t : ℕ} {Q : Bool → RaftNode T → Prop}
    {E : StorageError → RaftNode T → Prop} (h : t ≤ node.currentTerm) :
    wp (handleTermUpdate t) Q E node ↔ Q false node := by
  unfold handleTermUpdate
  rw [wp_bind, wp_get, wp_ite, if_neg (by omega), wp_pure]

theorem handleTermUpdate_follower {t : ℕ} (h : node.currentTerm < t) :
    wp (handleTermUpdate t) (fun _ node' => R node node' ∧ node'.state = .follower)
      (fun _ node' => R node node' ∧ node'.state = .follower) node := by
  unfold handleTermUpdate
  have hdown : ∀ storage : Storage T, R node { node.stepDown t with storage := storage } :=
    fun _ => of_follower rfl rfl (.inr rfl) rfl
  rw [wp_bind, wp_get, wp_ite, if_pos h, wp_bind, wp_set, wp_bind]
  apply wp_write
  · intro rest
    rw [wp_bind]
    apply wp_write
    · intro rest'
      exact ⟨hdown _, rfl⟩
    · intro e rest'
      exact ⟨hdown _, rfl⟩
  · intro e rest
    exact ⟨hdown _, rfl⟩

theorem frame_handleTermUpdate (t : ℕ) :
    Within R (handleTermUpdate t : NodeM T StorageError Bool) := by
  intro node
  rcases Nat.lt_or_ge node.currentTerm t with hlt | hle
  · exact wp_mono (fun _ _ h => h.1) (fun _ _ h => h.1) (handleTermUpdate_follower hlt)
  · rw [wp_handleTermUpdate_of_le hle]
    exact QuietFrame.refl node

theorem frame_handleRequestVote (req : RequestVote) :
    Within R (handleRequestVote req : NodeM T StorageError RequestVoteResponse) := by
  unfold handleRequestVote
  apply (frame_handleTermUpdate req.term).bind
  intro _
  apply within_get
  intro node
  simp only [wp_ite]
  split_ifs
  · exact QuietFrame.refl node
  · -- the vote is granted: it is recorded in memory and saved
    have hvote : R node { node with votedFor := some req.candidateId } :=
      of_quiet rfl rfl rfl rfl rfl rfl rfl
    rw [wp_bind, wp_set, wp_bind]
    apply wp_write
    · intro rest
      exact QuietFrame.trans hvote (of_quiet rfl rfl rfl rfl rfl rfl rfl)
    · intro e rest
      exact QuietFrame.trans hvote (of_quiet rfl rfl rfl rfl rfl rfl rfl)
  · exact QuietFrame.refl node
  · exact QuietFrame.refl node

theorem frame_handleAppendEntries (req : AppendEntries T) :
    Within R (handleAppendEntries req) := by
  unfold handleAppendEntries
  apply (frame_handleTermUpdate req.term).bind
  intro _
  apply within_get
  intro node
  rw [wp_ite]
  split_ifs
  · exact QuietFrame.refl node
  · dsimp only
    split
    · exact of_follower rfl rfl (.inr rfl) rfl
    · exact of_follower rfl rfl (.inr rfl) rfl

variable [StateMachine T M]

theorem frame_createSnapshot (sm : M) : Within R (createSnapshot sm) := by
  unfold createSnapshot
  apply within_get
  intro node
  dsimp only
  rw [wp_ite]
  split_ifs
  · exact QuietFrame.refl node
  · exact QuietFrame.refl node
  · rw [wp_bind, wp_asSnapshotError]
    apply wp_write
    · intro rest
      exact of_quiet rfl rfl rfl rfl rfl rfl rfl
    · intro e rest
      exact of_quiet rfl rfl rfl rfl rfl rfl rfl

theorem frame_finishInstall (hstate : node.state = .follower) (req : InstallSnapshot)
    (data : List UInt8) (sm : M) :
    wp (finishInstall req data) (fun _ x => R node x.1) (fun _ x => R node x.1)
      (node, sm) := by
  unfold finishInstall wp EStateM.run
  dsimp only
  rcases StateMachine.restore sm data with ⟨_ | _, sm'⟩
  · exact of_follower rfl rfl (.inl rfl) hstate
  · change wp (onNode _) _ _ _
    rw [wp_onNode]
    unfold saveInstalled
    rw [wp_bind, wp_asSnapshotError]
    apply wp_write
    · intro rest
      exact of_follower rfl rfl (.inl rfl) hstate
    · intro e rest
      exact of_follower rfl rfl (.inl rfl) hstate

theorem frame_handleInstallSnapshot (node : RaftNode T) (req : InstallSnapshot) (sm : M) :
    wp (handleInstallSnapshot req) (fun _ x => R node x.1) (fun _ x => R node x.1)
      (node, sm) := by
  unfold handleInstallSnapshot
  rw [wp_bind, wp_onNode, wp_asSnapshotError]
  refine wp_mono ?_ (fun _ _ h => h) (frame_handleTermUpdate (R := R) req.term node)
  intro _ node' hseen
  have hfollow : ∀ chunks, R node
      { node'.follow req.leaderId with pendingSnapshot := chunks } := fun _ =>
    QuietFrame.trans hseen (of_follower rfl rfl (.inr rfl) rfl)
  rw [wp_bind, wp_get]
  dsimp only
  rw [wp_ite]
  by_cases hold : req.term < node'.currentTerm
  · rw [if_pos hold]
    exact hseen
  rw [if_neg hold]
  generalize (if req.offset = 0 then some req.data
    else (node'.follow req.leaderId).pendingSnapshot.map (· ++ req.data)) = buffer
  cases buffer with
  | none => exact hfollow node'.pendingSnapshot
  | some data =>
    dsimp only
    rw [wp_ite]
    by_cases hdone : req.done = true
    · -- the last chunk: the node follows its leader before it installs the snapshot
      rw [if_neg (not_not.mpr hdone), wp_bind, wp_onNode, wp_set]
      refine wp_mono ?_ ?_ (frame_finishInstall (R := R) rfl req data sm)
      · intro _ x hinstall
        exact QuietFrame.trans (hfollow none) hinstall
      · intro _ x hinstall
        exact QuietFrame.trans (hfollow none) hinstall
    · rw [if_pos hdone]
      exact hfollow (some data)

end Quiet

/-! ## Commits -/

section Commits

variable [HandlerFrame R]

theorem frame_advanceCommitIndex (node : RaftNode T) : R node node.advanceCommitIndex := by
  unfold advanceCommitIndex
  split_ifs with hstate
  · exact HandlerFrame.refl node
  · split
    · exact HandlerFrame.refl node
    · dsimp only
      split_ifs
      · -- the commit index moves first, then the pending change is looked at
        refine HandlerFrame.trans ?_ (of_commit _ (not_not.mp hstate))
        exact of_eq rfl rfl rfl rfl rfl
      · exact HandlerFrame.refl node

theorem frame_updateProgress (node : RaftNode T) (f : LeaderState → LeaderState) :
    R node (node.updateProgress f) := by
  unfold updateProgress
  split_ifs
  · exact HandlerFrame.refl node
  · refine HandlerFrame.trans ?_ (frame_advanceCommitIndex _)
    exact of_eq rfl rfl rfl rfl rfl

theorem frame_handleAppendEntriesResponse (sender : NodeId) (resp : AppendEntriesResponse) :
    Within R (handleAppendEntriesResponse sender resp : NodeM T StorageError Unit) := by
  unfold handleAppendEntriesResponse
  apply (frame_handleTermUpdate resp.term).bind
  intro _
  exact within_modify fun node => frame_updateProgress node _

theorem frame_handleInstallSnapshotResponse (sender : NodeId) (resp : InstallSnapshotResponse) :
    Within R (handleInstallSnapshotResponse sender resp : NodeM T StorageError Unit) := by
  unfold handleInstallSnapshotResponse
  apply (frame_handleTermUpdate resp.term).bind
  intro _
  exact within_modify fun node => frame_updateProgress node _

end Commits

/-! ## Events -/

section Events

variable [StateMachine T M] {d : RaftDriver T M}

omit [StateMachine T M] in
theorem RaftDriver.after_wp {ε α : Type} {x : NodeM T ε α} {P : RaftNode T → Prop}
    (h : wp x (fun _ node => P node) (fun _ node => P node) d.node) : P (d.after x).node := by
  unfold RaftDriver.after
  cases hrun : x.run d.node with
  | ok a node =>
    have hok := wp_ok h hrun
    exact hok
  | error e node =>
    have herror := wp_error h hrun
    exact herror

omit [StateMachine T M] in
theorem RaftDriver.frame_after {ε α : Type} {x : NodeM T ε α} (h : Within R x) :
    R d.node (d.after x).node := after_wp (P := R d.node) (h d.node)

omit [StateMachine T M] in
theorem RaftDriver.frame_answering [QuietFrame R] {ε α : Type} {x : NodeM T ε α} {sender : NodeId}
    {wrap : α → RaftMessage T} (h : Within R x) :
    R d.node (d.answering sender x wrap).node := by
  unfold RaftDriver.answering
  cases hrun : x.run d.node with
  | ok a node => exact QuietFrame.trans (h.ok hrun) (of_quiet rfl rfl rfl rfl rfl rfl rfl)
  | error e node => exact h.error hrun

/-- The event starts an election, or answers to one. -/
def Event.isElection : Event T → Bool
  | .startElection _ => true
  | .deliver _ _ (.requestVoteResponse _) => true
  | _ => false

omit [StateMachine T M] in
theorem Event.isElection_cases {e : Event T} (h : e.isElection = true) :
    (∃ i, e = .startElection i) ∨
      ∃ src dst resp, e = .deliver src dst (.requestVoteResponse resp) := by
  unfold isElection at h
  split at h
  · exact .inl ⟨_, rfl⟩
  · exact .inr ⟨_, _, _, rfl⟩
  · cases h

/-- A leader looks after the event for what to commit. -/
def Event.isProgress : Event T → Bool
  | .deliver _ _ (.appendEntriesResponse _) | .deliver _ _ (.installSnapshotResponse _)
  | .advanceCommitIndex _ => true
  | _ => false

omit [StateMachine T M] in
theorem Event.isProgress_cases {e : Event T} (h : e.isProgress = true) :
    (∃ src dst resp, e = .deliver src dst (.appendEntriesResponse resp)) ∨
      (∃ src dst resp, e = .deliver src dst (.installSnapshotResponse resp)) ∨
      ∃ i, e = .advanceCommitIndex i := by
  unfold isProgress at h
  split at h
  · exact .inl ⟨_, _, _, rfl⟩
  · exact .inr (.inl ⟨_, _, _, rfl⟩)
  · exact .inr (.inr ⟨_, rfl⟩)
  · cases h

/-- **The quiet frame rule**: what neither elects nor commits keeps to every quiet frame, whatever
writes fail. -/
theorem Event.quiet_act [QuietFrame R] {e : Event T} (helection : e.isElection = false)
    (hprogress : e.isProgress = false) : R d.node (e.act d).node := by
  cases e with
  | startElection i => cases helection
  | deliver src dst msg =>
    cases msg with
    | requestVote req => exact RaftDriver.frame_answering (frame_handleRequestVote req)
    | requestVoteResponse resp => cases helection
    | appendEntries req => exact RaftDriver.frame_answering (frame_handleAppendEntries req)
    | appendEntriesResponse resp => cases hprogress
    | installSnapshot req =>
      have hwp := frame_handleInstallSnapshot (R := R) d.node req d.stateMachine
      simp only [act, RaftDriver.handleInboundMessage]
      cases hrun : (handleInstallSnapshot req).run (d.node, d.stateMachine) with
      | ok resp s =>
        have hok := wp_ok hwp hrun
        exact QuietFrame.trans hok (of_quiet rfl rfl rfl rfl rfl rfl rfl)
      | error e s =>
        have herror := wp_error hwp hrun
        exact herror
    | installSnapshotResponse resp => cases hprogress
  | clientRequest i command => exact frame_clientRequest d.node command
  | replicateToPeer i peer => exact (d.node.replicateToPeer_sends peer).frame
  | advanceCommitIndex i => cases hprogress
  | applyCommitted i =>
    simp only [act, RaftDriver.applyCommittedEntries]
    split_ifs
    · exact QuietFrame.refl d.node
    · exact of_quiet rfl rfl rfl rfl rfl rfl rfl
  | createSnapshot i => exact RaftDriver.frame_after (frame_createSnapshot d.stateMachine)

/-- **The frame rule**: what stays clear of elections keeps to every frame, whatever writes fail. -/
theorem Event.frame_act [HandlerFrame R] {e : Event T} (h : e.isElection = false) :
    R d.node (e.act d).node := by
  cases hprogress : e.isProgress with
  | false => exact Event.quiet_act h hprogress
  | true =>
    rcases Event.isProgress_cases hprogress with ⟨src, dst, resp, rfl⟩ | ⟨src, dst, resp, rfl⟩ | ⟨i, rfl⟩
    · exact RaftDriver.frame_after (frame_handleAppendEntriesResponse src resp)
    · exact RaftDriver.frame_after (frame_handleInstallSnapshotResponse src resp)
    · exact frame_advanceCommitIndex d.node

end Events

end Pirc.Raft
