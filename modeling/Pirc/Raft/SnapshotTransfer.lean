import Pirc.Raft.HandlerFrames

/-!
# Raft: snapshots in chunks

A leader cuts its snapshot into chunks (`send_snapshot_to_peer`), and a follower collects them in
one buffer (`handle_install_snapshot`). The buffer does not know which snapshot it is for, and a
chunk's offset is compared with nothing but zero. Here a follower lives through any run of its own,
in which the chunks of any calls reach it in any order, any number of times or never.
-/

namespace Pirc.Raft

variable {T M : Type}

/-! ## Sending -/

/-- A call of `send_snapshot_to_peer`: the leader as it was then, and its latest snapshot. -/
structure Transfer (T : Type) where
  leader : RaftNode T
  snapshot : Snapshot
  latest : leader.lastSnapshot = some snapshot

def Transfer.messages (x : Transfer T) : List InstallSnapshot :=
  if x.snapshot.data.length = 0 then
    [{ term := x.leader.currentTerm
       leaderId := x.leader.nodeId
       lastIncludedIndex := x.snapshot.lastIncludedIndex
       lastIncludedTerm := x.snapshot.lastIncludedTerm
       offset := 0
       data := []
       done := true }]
  else x.leader.snapshotChunks x.snapshot x.snapshot.data.length 0

/-- A chunk of a snapshot: it names the snapshot, carries the bytes from its offset on, and is the
last one only where the data ends. -/
structure Snapshot.HasChunk (s : Snapshot) (req : InstallSnapshot) : Prop where
  index : req.lastIncludedIndex = s.lastIncludedIndex
  term : req.lastIncludedTerm = s.lastIncludedTerm
  data : s.data.take req.offset ++ req.data = s.data.take (req.offset + req.data.length)
  ends : req.done = true → s.data.length ≤ req.offset + req.data.length

theorem hasChunk_of_mem_snapshotChunks {node : RaftNode T} {s : Snapshot} {req : InstallSnapshot}
    {fuel : ℕ} : ∀ {offset : ℕ}, req ∈ node.snapshotChunks s fuel offset → s.HasChunk req := by
  induction fuel with
  | zero =>
    intro offset h
    cases h
  | succ fuel ih =>
    intro offset h
    rw [RaftNode.snapshotChunks] at h
    dsimp only at h
    split_ifs at h with hlt
    · rcases List.mem_cons.mp h with rfl | h
      · have hlen : ((s.data.drop offset).take
            (min (offset + node.config.snapshotChunkSize) s.data.length - offset)).length =
            min (offset + node.config.snapshotChunkSize) s.data.length - offset := by
          rw [List.length_take, List.length_drop]
          omega
        refine ⟨rfl, rfl, ?_, ?_⟩
        · show s.data.take offset ++ _ = s.data.take (offset + _)
          rw [hlen, List.take_add]
        · intro hdone
          show s.data.length ≤ offset + _
          have hfull := of_decide_eq_true hdone
          rw [hlen]
          omega
      · exact ih h
    · cases h

theorem Transfer.hasChunk {x : Transfer T} {req : InstallSnapshot} (h : req ∈ x.messages) :
    x.snapshot.HasChunk req := by
  unfold Transfer.messages at h
  split_ifs at h with hempty
  · rw [List.mem_singleton] at h
    subst h
    refine ⟨rfl, rfl, ?_, ?_⟩
    · simp
    · intro _
      exact hempty.le
  · exact hasChunk_of_mem_snapshotChunks h

/-! ## Receiving -/

namespace RaftNode

/-- The buffer once the chunk is taken in; `none` when it is refused or dropped. -/
def collects (node : RaftNode T) (req : InstallSnapshot) : Option (List UInt8) :=
  match (handleTermUpdate req.term).run node with
  | .ok _ node =>
    if req.term < node.currentTerm then none
    else if req.offset = 0 then some req.data
    else node.pendingSnapshot.map (· ++ req.data)
  | .error _ _ => none

def installs (node : RaftNode T) (req : InstallSnapshot) : Option Snapshot :=
  if req.done then
    (node.collects req).map fun data =>
      { lastIncludedIndex := req.lastIncludedIndex
        lastIncludedTerm := req.lastIncludedTerm
        data := data }
  else none

def pendingAfter (node : RaftNode T) (req : InstallSnapshot) : Option (List UInt8) :=
  match node.collects req with
  | none => node.pendingSnapshot
  | some data => if req.done then none else some data

end RaftNode

section Receiving

variable {node : RaftNode T}

/-- What the buffer and the latest snapshot are, wherever a handler stops. -/
def RaftNode.Holds (node : RaftNode T) (pending : Option (List UInt8)) (latest : Option Snapshot) :
    Prop :=
  node.pendingSnapshot = pending ∧ node.lastSnapshot = latest

theorem handleTermUpdate_holds (node : RaftNode T) (t : ℕ) :
    wp (handleTermUpdate t) (fun _ node' => node'.Holds node.pendingSnapshot node.lastSnapshot)
      (fun _ node' => node'.Holds node.pendingSnapshot node.lastSnapshot) node := by
  unfold handleTermUpdate
  rw [wp_bind, wp_get, wp_ite]
  split_ifs
  · rw [wp_bind, wp_set, wp_bind]
    apply wp_write
    · intro rest
      rw [wp_bind]
      apply wp_write
      · intro rest'
        exact ⟨rfl, rfl⟩
      · intro e rest'
        exact ⟨rfl, rfl⟩
    · intro e rest
      exact ⟨rfl, rfl⟩
  · exact ⟨rfl, rfl⟩

theorem saveInstalled_holds (s : Snapshot) :
    wp (saveInstalled s) (fun _ node' => node'.Holds node.pendingSnapshot (some s))
      (fun _ node' => node'.Holds node.pendingSnapshot node.lastSnapshot) node := by
  unfold saveInstalled
  rw [wp_bind, wp_asSnapshotError]
  apply wp_write
  · intro rest
    exact ⟨rfl, rfl⟩
  · intro e rest
    exact ⟨rfl, rfl⟩

variable [StateMachine T M]

theorem finishInstall_holds (req : InstallSnapshot) (data : List UInt8) (sm : M) :
    wp (finishInstall req data)
      (fun _ x => x.2 = (StateMachine.restore sm data).2 ∧ x.1.Holds node.pendingSnapshot
        (some ⟨req.lastIncludedIndex, req.lastIncludedTerm, data⟩))
      (fun _ x => x.2 = (StateMachine.restore sm data).2 ∧
        x.1.Holds node.pendingSnapshot node.lastSnapshot) (node, sm) := by
  unfold finishInstall wp EStateM.run
  dsimp only
  rcases StateMachine.restore sm data with ⟨_ | _, sm'⟩
  · exact ⟨rfl, rfl, rfl⟩
  · change wp (onNode _) _ _ _
    rw [wp_onNode]
    refine wp_mono ?_ ?_ (saveInstalled_holds _)
    · intro _ node' hholds
      exact ⟨rfl, hholds⟩
    · intro _ node' hholds
      exact ⟨rfl, hholds⟩

/-- **What a chunk does**: it is taken into the buffer or not, and when it completes a snapshot, the
state machine is restored from exactly that one; it becomes the latest if it could be saved. -/
theorem handleInstallSnapshot_collects (node : RaftNode T) (req : InstallSnapshot) (sm : M) :
    wp (handleInstallSnapshot req)
      (fun _ x => x.1.Holds (node.pendingAfter req) ((node.installs req).or node.lastSnapshot) ∧
        x.2 = ((node.installs req).elim sm fun s => (StateMachine.restore sm s.data).2))
      (fun _ x => x.1.Holds (node.pendingAfter req) node.lastSnapshot ∧
        x.2 = ((node.installs req).elim sm fun s => (StateMachine.restore sm s.data).2))
      (node, sm) := by
  have hterm := handleTermUpdate_holds node req.term
  unfold handleInstallSnapshot
  rw [wp_bind, wp_onNode, wp_asSnapshotError]
  unfold RaftNode.pendingAfter RaftNode.installs RaftNode.collects wp
  cases hrun : (handleTermUpdate req.term).run node with
  | error e node' => exact ⟨by simpa using wp_error hterm hrun, by simp⟩
  | ok b node' =>
    obtain ⟨hpending, hlatest⟩ := wp_ok hterm hrun
    change wp _ _ _ (node', sm)
    rw [wp_bind, wp_get]
    dsimp only
    rw [wp_ite]
    by_cases hold : req.term < node'.currentTerm
    · simp only [hold, if_true]
      exact ⟨by simpa using ⟨hpending, hlatest⟩, by simp⟩
    · simp only [hold, if_false]
      have hfollow : (node'.follow req.leaderId).pendingSnapshot = node'.pendingSnapshot := rfl
      rw [hfollow]
      generalize (if req.offset = 0 then some req.data
        else node'.pendingSnapshot.map (· ++ req.data)) = buffer
      cases buffer with
      | none => exact ⟨by simpa using ⟨hpending, hlatest⟩, by simp⟩
      | some data =>
        dsimp only
        rw [wp_ite]
        by_cases hdone : req.done = true
        · rw [if_neg (not_not.mpr hdone), wp_bind, wp_onNode, wp_set]
          refine wp_mono ?_ ?_ (finishInstall_holds req data sm)
          · rintro _ x ⟨hsm, hholds⟩
            exact ⟨by simpa [hdone] using hholds, by simpa [hdone] using hsm⟩
          · rintro _ x ⟨hsm, hpend, hlast⟩
            exact ⟨⟨by simpa [hdone] using hpend, hlast.trans hlatest⟩, by simpa [hdone] using hsm⟩
        · rw [if_pos hdone]
          exact ⟨by simpa [hdone] using ⟨rfl, hlatest⟩, by simp [hdone]⟩

end Receiving

/-! ## What else happens to a follower -/

section Frames

variable {node : RaftNode T} {ε α : Type}

/-- A handler that leaves the buffer alone, also where it fails. -/
abbrev KeepsPending (x : NodeM T ε α) : Prop := Within (Unchanged RaftNode.pendingSnapshot) x

theorem keepsPending_write (f : Disk T → Disk T) : KeepsPending (writing (·.write f)) := by
  intro node
  apply wp_write
  · intro rest
    rfl
  · intro e rest
    rfl

theorem keepsPending_handleTermUpdate (t : ℕ) :
    KeepsPending (handleTermUpdate t : NodeM T StorageError Bool) := by
  intro node
  exact wp_mono (fun _ _ h => h.1) (fun _ _ h => h.1) (handleTermUpdate_holds node t)

theorem RaftNode.Sends.pending_eq {node' : RaftNode T} {P : NodeId → RaftMessage T → Prop}
    (h : node.Sends P node') : node'.pendingSnapshot = node.pendingSnapshot := by
  obtain ⟨out, rfl, -⟩ := h
  rfl

theorem pending_becomeLeader (node : RaftNode T) :
    node.becomeLeader.pendingSnapshot = node.pendingSnapshot :=
  node.lead.sendAppendEntriesToAll_sends.pending_eq

theorem pending_requestVotes (node : RaftNode T) :
    node.requestVotes.pendingSnapshot = node.pendingSnapshot := by
  unfold RaftNode.requestVotes
  split_ifs
  · exact pending_becomeLeader node
  · exact node.voteRequests_sends.pending_eq

theorem pending_countVote (node : RaftNode T) (sender : NodeId) (resp : RequestVoteResponse) :
    (node.countVote sender resp).pendingSnapshot = node.pendingSnapshot := by
  unfold RaftNode.countVote
  split_ifs
  · rfl
  · dsimp only
    split_ifs
    · exact pending_becomeLeader _
    · rfl
  · rfl

theorem pending_advanceCommitIndex (node : RaftNode T) :
    node.advanceCommitIndex.pendingSnapshot = node.pendingSnapshot := by
  obtain ⟨_, _, _, _, _, heq⟩ := node.advanceCommitIndex_eq
  rw [heq]

theorem pending_updateProgress (node : RaftNode T) (f : LeaderState → LeaderState) :
    (node.updateProgress f).pendingSnapshot = node.pendingSnapshot := by
  unfold RaftNode.updateProgress
  split_ifs
  · rfl
  · exact pending_advanceCommitIndex _

theorem pending_clientRequest (node : RaftNode T) (command : T) :
    (node.clientRequest command).2.pendingSnapshot = node.pendingSnapshot := by
  unfold RaftNode.clientRequest
  split_ifs
  · rfl
  · exact (node.appendCommand command).sendAppendEntriesToAll_sends.pending_eq

theorem pending_proposeMembershipChange (node : RaftNode T) (change : MembershipChange)
    (noopCommand : T) :
    (node.proposeMembershipChange change noopCommand).2.pendingSnapshot = node.pendingSnapshot := by
  unfold RaftNode.proposeMembershipChange
  split
  · rfl
  · exact (node.applyMembershipChange change noopCommand).sendAppendEntriesToAll_sends.pending_eq

theorem keepsPending_startElection : KeepsPending (startElection : NodeM T StorageError Unit) := by
  unfold startElection
  have hcampaign : KeepsPending (modify RaftNode.campaign : NodeM T StorageError PUnit) :=
    within_modify fun _ => rfl
  apply hcampaign.bind
  intro _
  apply within_get
  intro node
  -- nothing below reads the node again, so the two writes and the requests are framed one by one
  have hrest : KeepsPending (T := T) (do
      writing (·.saveTerm node.currentTerm)
      writing (·.saveVotedFor node.votedFor)
      modify RaftNode.requestVotes) :=
    (keepsPending_write _).bind fun _ => (keepsPending_write _).bind fun _ =>
      within_modify pending_requestVotes
  exact hrest node

theorem keepsPending_handleRequestVote (req : RequestVote) :
    KeepsPending (handleRequestVote req : NodeM T StorageError RequestVoteResponse) := by
  unfold handleRequestVote
  apply (keepsPending_handleTermUpdate req.term).bind
  intro _
  apply within_get
  intro node
  simp only [wp_ite]
  split_ifs
  · rfl
  · -- the vote is granted: it is recorded in memory and saved
    rw [wp_bind, wp_set, wp_bind]
    apply wp_write
    · intro rest
      rfl
    · intro e rest
      rfl
  · rfl
  · rfl

theorem keepsPending_handleAppendEntries (req : AppendEntries T) :
    KeepsPending (handleAppendEntries req) := by
  unfold handleAppendEntries
  apply (keepsPending_handleTermUpdate req.term).bind
  intro _
  apply within_get
  intro node
  rw [wp_ite]
  split_ifs with hold
  · rfl
  · dsimp only
    split
    · rfl
    · rfl

theorem keepsPending_createSnapshot [StateMachine T M] (sm : M) :
    KeepsPending (createSnapshot sm) := by
  unfold createSnapshot
  apply within_get
  intro node
  dsimp only
  rw [wp_ite]
  split_ifs with hzero hany
  · rfl
  · rfl
  · rw [wp_bind, wp_asSnapshotError]
    apply wp_write
    · intro rest
      rfl
    · intro e rest
      rfl

variable {d : RaftDriver T M}

theorem KeepsPending.after {x : NodeM T ε α} (h : KeepsPending x) :
    (d.after x).node.pendingSnapshot = d.node.pendingSnapshot := RaftDriver.frame_after h

theorem KeepsPending.answering {x : NodeM T ε α} {sender : NodeId} {wrap : α → RaftMessage T}
    (h : KeepsPending x) :
    (d.answering sender x wrap).node.pendingSnapshot = d.node.pendingSnapshot := by
  unfold RaftDriver.answering
  cases hrun : x.run d.node with
  | ok a node =>
    have hkeep := h.ok hrun
    exact hkeep
  | error e node =>
    have hkeep := h.error hrun
    exact hkeep

def Event.bringsChunk : Event T → Bool
  | .deliver _ _ (.installSnapshot _) => true
  | _ => false

/-- **Frame**: only chunks touch the buffer. -/
theorem Event.pending_act [StateMachine T M] {e : Event T} (h : e.bringsChunk = false) :
    (e.act d).node.pendingSnapshot = d.node.pendingSnapshot := by
  cases e with
  | startElection i => exact KeepsPending.after keepsPending_startElection
  | deliver src dst msg =>
    cases msg with
    | requestVote req => exact (keepsPending_handleRequestVote req).answering
    | requestVoteResponse resp =>
      apply KeepsPending.after
      apply (keepsPending_handleTermUpdate resp.term).bind
      intro _
      exact within_modify fun node => pending_countVote node src resp
    | appendEntries req => exact (keepsPending_handleAppendEntries req).answering
    | appendEntriesResponse resp =>
      apply KeepsPending.after
      apply (keepsPending_handleTermUpdate resp.term).bind
      intro _
      exact within_modify fun node => pending_updateProgress node _
    | installSnapshot req => cases h
    | installSnapshotResponse resp =>
      apply KeepsPending.after
      apply (keepsPending_handleTermUpdate resp.term).bind
      intro _
      exact within_modify fun node => pending_updateProgress node _
  | clientRequest i command => exact pending_clientRequest d.node command
  | replicateToPeer i peer => exact (d.node.replicateToPeer_sends peer).pending_eq
  | advanceCommitIndex i => exact pending_advanceCommitIndex d.node
  | applyCommitted i =>
    simp only [act, RaftDriver.applyCommittedEntries]
    split_ifs
    · rfl
    · rfl
  | createSnapshot i => exact KeepsPending.after (keepsPending_createSnapshot d.stateMachine)

end Frames

/-! ## Runs of a follower -/

/-- A follower, the chunk it took in last (its snapshot, and where the chunk ends) and the snapshots
it installed so far. -/
structure Receiver (T M : Type) where
  run : NodeRun T M
  last : Option (Snapshot × ℕ) := none
  installed : List Snapshot := []

/-- What happens to a follower: a chunk of a transfer reaches it, with the outcomes of its writes,
or anything else. -/
inductive ReceiverEvent (T M : Type)
  | chunk (x : Transfer T) (req : InstallSnapshot) (outcomes : List (Option StorageError))
  | other (e : NodeEvent T M)

def NodeEvent.bringsChunk : NodeEvent T M → Bool
  | .call e _ => e.bringsChunk
  | _ => false

namespace Receiver

def expecting (r : Receiver T M) (outcomes : List (Option StorageError)) : RaftNode T :=
  (r.run.driver.expecting outcomes).node

/-- The runs of a follower that is sent the chunks of the given transfers. -/
def system [StateMachine T M] (calls : Set (Transfer T)) :
    System (Receiver T M) (ReceiverEvent T M) where
  enabled _
    | .chunk x req _ => x ∈ calls ∧ req ∈ x.messages
    | .other e => e.bringsChunk = false
  step r
    | .chunk x req outcomes =>
      { run := (NodeRun.system T M).step r.run
          (.call (.deliver x.leader.nodeId r.run.driver.node.nodeId (.installSnapshot req)) outcomes)
        last :=
          match (r.expecting outcomes).collects req with
          | some _ => some (x.snapshot, req.offset + req.data.length)
          | none => r.last
        installed := r.installed ++ ((r.expecting outcomes).installs req).toList }
    | .other e => { r with run := (NodeRun.system T M).step r.run e }

/-- A follower just started on its storage. -/
def initial (config : RaftConfig) (disk : Disk T) (stateMachine : M) : Receiver T M where
  run := .initial config disk stateMachine

/-- **In sequence**: a chunk that is added to a buffer starts where the chunk taken in last ends, in
the same snapshot. A first chunk starts a new buffer, and a chunk without a buffer is dropped. -/
def inSequence (r : Receiver T M) : ReceiverEvent T M → Prop
  | .chunk x req outcomes =>
    req.offset = 0 ∨ (r.expecting outcomes).collects req = none ∨
      r.last = some (x.snapshot, req.offset)
  | .other _ => True

instance (r : Receiver T M) : ∀ e : ReceiverEvent T M, Decidable (r.inSequence e)
  | .chunk _ _ _ => inferInstanceAs (Decidable (_ ∨ _ ∨ _))
  | .other _ => .isTrue trivial

/-- **Invariant**: the buffer holds the beginning of a sent snapshot up to where the last chunk
ends, and what was installed was sent. -/
structure Inv (calls : Set (Transfer T)) (r : Receiver T M) : Prop where
  pending : ∀ data, r.run.driver.node.pendingSnapshot = some data →
    ∃ x ∈ calls, ∃ n, r.last = some (x.snapshot, n) ∧ data = x.snapshot.data.take n
  sent : ∀ s ∈ r.installed, ∃ x ∈ calls, x.snapshot = s

section Steps

variable [StateMachine T M] {calls : Set (Transfer T)} {r : Receiver T M}

omit [StateMachine T M] in
theorem Inv.collects (h : r.Inv calls) {x : Transfer T} {req : InstallSnapshot}
    {outcomes : List (Option StorageError)} (hreq : req ∈ x.messages)
    (hseq : r.inSequence (.chunk x req outcomes)) {data : List UInt8}
    (hdata : (r.expecting outcomes).collects req = some data) :
    data = x.snapshot.data.take (req.offset + req.data.length) := by
  have hchunk := Transfer.hasChunk hreq
  have hterm := keepsPending_handleTermUpdate req.term (r.expecting outcomes)
  have hcollects := hdata
  unfold RaftNode.collects at hcollects
  cases hrun : (handleTermUpdate req.term).run (r.expecting outcomes) with
  | error e node' =>
    rw [hrun] at hcollects
    cases hcollects
  | ok b node' =>
    have hpending := wp_ok hterm hrun
    rw [hrun] at hcollects
    dsimp only at hcollects
    split_ifs at hcollects with hold hzero
    · -- a first chunk is the beginning of its snapshot
      rw [← Option.some.inj hcollects, ← hchunk.data, hzero]
      simp
    · obtain ⟨buffer, hbuffer, happend⟩ := Option.map_eq_some_iff.mp hcollects
      obtain ⟨y, -, n, hlast, hbegin⟩ := h.pending buffer (hpending.symm.trans hbuffer)
      rcases hseq with hseq | hseq | hseq
      · exact absurd hseq hzero
      · rw [hdata] at hseq
        cases hseq
      · -- the buffer is the beginning of the same snapshot, up to this chunk
        rw [hlast] at hseq
        obtain ⟨hsame, hn⟩ := Prod.mk.inj (Option.some.inj hseq)
        rw [← happend, hbegin, hsame, hn, hchunk.data]

theorem pending_step_chunk (x : Transfer T) (req : InstallSnapshot)
    (outcomes : List (Option StorageError)) :
    ((system calls).step r (.chunk x req outcomes)).run.driver.node.pendingSnapshot =
      (r.expecting outcomes).pendingAfter req := by
  have hwp := handleInstallSnapshot_collects (r.expecting outcomes) req
    r.run.driver.stateMachine
  simp only [system, NodeRun.system, Event.act, RaftDriver.handleInboundMessage]
  split
  · next hrun =>
    obtain ⟨⟨hpending, -⟩, -⟩ := wp_ok hwp hrun
    exact hpending
  · next hrun =>
    obtain ⟨⟨hpending, -⟩, -⟩ := wp_error hwp hrun
    exact hpending

theorem pending_step_other {e : NodeEvent T M} (he : e.bringsChunk = false) {data : List UInt8}
    (h : ((system calls).step r (.other e)).run.driver.node.pendingSnapshot = some data) :
    r.run.driver.node.pendingSnapshot = some data := by
  cases e with
  | call e outcomes =>
    have hframe := Event.pending_act (d := r.run.driver.expecting outcomes) he
    exact hframe.symm.trans h
  | propose change noopCommand =>
    exact (pending_proposeMembershipChange r.run.driver.node change noopCommand).symm.trans h
  | restart stateMachine => cases h

/-- **Step lemma**: a step in sequence keeps the invariant. -/
theorem Inv.step (h : r.Inv calls) {e : ReceiverEvent T M} (henabled : (system calls).enabled r e)
    (hseq : r.inSequence e) : ((system calls).step r e).Inv calls := by
  cases e with
  | other e =>
    refine ⟨?_, h.sent⟩
    intro data hdata
    exact h.pending data (pending_step_other henabled hdata)
  | chunk x req outcomes =>
    obtain ⟨hx, hreq⟩ := henabled
    constructor
    · intro data hdata
      rw [pending_step_chunk] at hdata
      unfold RaftNode.pendingAfter at hdata
      simp only [system]
      cases hcollects : (r.expecting outcomes).collects req with
      | none =>
        rw [hcollects] at hdata
        exact h.pending data hdata
      | some taken =>
        rw [hcollects] at hdata
        dsimp only at hdata
        split_ifs at hdata with hdone
        rw [← Option.some.inj hdata]
        exact ⟨x, hx, _, rfl, h.collects hreq hseq hcollects⟩
    · intro s hs
      rcases List.mem_append.mp hs with hs | hs
      · exact h.sent s hs
      · -- the completed snapshot is the whole of the transferred one
        rw [Option.mem_toList] at hs
        unfold RaftNode.installs at hs
        split_ifs at hs with hdone
        obtain ⟨data, hcollects, rfl⟩ := Option.map_eq_some_iff.mp hs
        have hchunk := Transfer.hasChunk hreq
        refine ⟨x, hx, ?_⟩
        rw [h.collects hreq hseq hcollects, List.take_of_length_le (hchunk.ends hdone),
          hchunk.index, hchunk.term]

end Steps

/-- **Reassembly is exact** in every run whose chunks come in sequence: what the follower installed
under an index and a term is all of a snapshot that was sent under them. -/
theorem installed_sent [StateMachine T M] {calls : Set (Transfer T)} {config : RaftConfig}
    {disk : Disk T} {stateMachine : M} {r : Receiver T M}
    (h : (system calls).Steps inSequence (initial config disk stateMachine) r) :
    ∀ s ∈ r.installed, ∃ x ∈ calls, x.snapshot = s := by
  have hinv : r.Inv calls := by
    refine h.invariant (fun r e henabled hseq hinv => hinv.step henabled hseq) ⟨?_, ?_⟩
    · intro data hdata
      cases hdata
    · intro s hs
      cases hs
  exact hinv.sent

/-- The snapshot of three bytes, up to the third entry, that a leader sends byte by byte. -/
def threeBytes : Transfer ℕ where
  leader :=
    { RaftNode.new { nodeId := 1, peers := [2], snapshotChunkSize := 1 } {} with
      currentTerm := 1
      lastSnapshot := some ⟨3, 1, [10, 20, 30]⟩ }
  snapshot := ⟨3, 1, [10, 20, 30]⟩
  latest := rfl

def oneByte (offset : ℕ) (byte : UInt8) : ReceiverEvent ℕ Unit :=
  .chunk threeBytes
    { term := 1
      leaderId := 1
      lastIncludedIndex := 3
      lastIncludedTerm := 1
      offset := offset
      data := [byte]
      done := offset = 2 } []

theorem oneByte_enabled {r : Receiver ℕ Unit} {offset : ℕ} {byte : UInt8}
    (h : [10, 20, 30][offset]? = some byte) : (system {threeBytes}).enabled r (oneByte offset byte) := by
  refine ⟨rfl, ?_⟩
  rcases offset with _ | _ | _ | offset
  · cases h
    decide
  · cases h
    decide
  · cases h
    decide
  · cases h

/-- Installed from three chunks in sequence. -/
theorem installed_sent_inOrder : ∃ r : Receiver ℕ Unit, r.installed = [⟨3, 1, [10, 20, 30]⟩] ∧
    ∀ s ∈ r.installed, ∃ x ∈ ({threeBytes} : Set (Transfer ℕ)), x.snapshot = s := by
  have hrun : (system {threeBytes}).Legal inSequence (initial { nodeId := 2, peers := [1] } {} ())
      [oneByte 0 10, oneByte 1 20, oneByte 2 30] :=
    ⟨oneByte_enabled rfl, by decide, oneByte_enabled rfl, by decide, oneByte_enabled rfl,
      by decide, trivial⟩
  exact ⟨_, by decide, installed_sent hrun.steps⟩

/-- The second chunk arrives twice: the follower installs four bytes that nobody sent. -/
theorem duplicated_chunk_installed : ¬ ∀ (calls : Set (Transfer ℕ)) (config : RaftConfig)
    (disk : Disk ℕ) (r : Receiver ℕ Unit),
    (system calls).Steps System.Free (initial config disk ()) r →
      ∀ s ∈ r.installed, ∃ x ∈ calls, x.snapshot = s := by
  intro hall
  have hrun : (system {threeBytes}).Legal System.Free (initial { nodeId := 2, peers := [1] } {} ())
      [oneByte 0 10, oneByte 1 20, oneByte 1 20, oneByte 2 30] :=
    ⟨oneByte_enabled rfl, trivial, oneByte_enabled rfl, trivial, oneByte_enabled rfl, trivial,
      oneByte_enabled rfl, trivial, trivial⟩
  obtain ⟨x, rfl, hsent⟩ := hall {threeBytes} _ _ _ hrun.steps ⟨3, 1, [10, 20, 20, 30]⟩ (by decide)
  exact absurd hsent (by decide)

end Receiver

end Pirc.Raft
