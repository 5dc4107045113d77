import Pirc.Raft.State

/-!
# Raft: the node's handlers

`raft/node.rs` and `raft/replication.rs`. Operations that cannot fail are functions of the node;
handlers that write to storage run in `NodeM`, which keeps the changes made to the node before a
failing write, as `&mut self` does. Sending appends to `outbound`; receivers that hung up are
ignored by the source and are not modelled.
-/

namespace Pirc.Raft

variable {T : Type}

/-- A handler: it may fail, and keeps what it did to the node before it failed. -/
abbrev NodeM (T ε : Type) := EStateM ε (RaftNode T)

def writing (w : Storage T → Except StorageError Unit × Storage T) : NodeM T StorageError Unit :=
  fun node =>
    match w node.storage with
    | (.ok (), s) => .ok () { node with storage := s }
    | (.error e, s) => .error e { node with storage := s }

namespace RaftNode

/-- A new node on existing storage. The commit and apply positions start at zero. -/
def new (config : RaftConfig) (storage : Storage T) : RaftNode T :=
  let log := RaftLog.fromEntries storage.disk.log
  let log :=
    match storage.disk.snapshot with
    | some s =>
      let log := log.compactTo s.lastIncludedIndex
      if log.offset < s.lastIncludedIndex then
        log.resetToSnapshot s.lastIncludedIndex s.lastIncludedTerm
      else log
    | none => log
  let membership := ClusterMembership.new config.nodeId config.peers
  { config := config
    currentTerm := storage.disk.term
    votedFor := storage.disk.votedFor
    log := log
    electionTracker := { clusterSize := membership.memberCount }
    storage := storage
    lastSnapshot := storage.disk.snapshot
    membership := membership }

def nodeId (node : RaftNode T) : NodeId := node.config.nodeId

def quorumSize (node : RaftNode T) : ℕ := node.membership.quorumSize

def send (node : RaftNode T) (peer : NodeId) (msg : RaftMessage T) : RaftNode T :=
  { node with outbound := node.outbound ++ [(peer, msg)] }

/-! ## Replication -/

/-- The chunks of a snapshot from a byte offset on. The source loops while `offset < total`, with
at least one byte of progress a turn when the chunk size is positive, so `total` turns are
enough. -/
def snapshotChunks (node : RaftNode T) (s : Snapshot) : ℕ → ℕ → List InstallSnapshot
  | 0, _ => []
  | fuel + 1, offset =>
    let total := s.data.length
    if offset < total then
      let finish := min (offset + node.config.snapshotChunkSize) total
      { term := node.currentTerm
        leaderId := node.nodeId
        lastIncludedIndex := s.lastIncludedIndex
        lastIncludedTerm := s.lastIncludedTerm
        offset := offset
        data := (s.data.drop offset).take (finish - offset)
        done := total ≤ finish } :: snapshotChunks node s fuel finish
    else []

def sendSnapshotToPeer (node : RaftNode T) (peer : NodeId) : RaftNode T :=
  match node.lastSnapshot with
  | none => node
  | some s =>
    if s.data.length = 0 then
      node.send peer (.installSnapshot
        { term := node.currentTerm
          leaderId := node.nodeId
          lastIncludedIndex := s.lastIncludedIndex
          lastIncludedTerm := s.lastIncludedTerm
          offset := 0
          data := []
          done := true })
    else
      (node.snapshotChunks s s.data.length 0).foldl
        (fun node msg => node.send peer (.installSnapshot msg)) node

/-- The request `replicate_to_peer` builds for a peer at `nextIdx`. -/
def appendEntriesFor (node : RaftNode T) (nextIdx : ℕ) : AppendEntries T :=
  let prevLogIndex := if 0 < nextIdx then nextIdx - 1 else 0
  let prevLogTerm := if 0 < prevLogIndex then (node.log.termAt prevLogIndex).getD 0 else 0
  { term := node.currentTerm
    leaderId := node.nodeId
    prevLogIndex := prevLogIndex
    prevLogTerm := prevLogTerm
    entries := node.log.entriesFrom nextIdx
    leaderCommit := node.volatile.commitIndex }

/-- Send a peer the entries it misses, or a snapshot when they are compacted away. -/
def replicateToPeer (node : RaftNode T) (peer : NodeId) : RaftNode T :=
  if node.state ≠ .leader then node
  else
    match node.leaderState with
    | none => node
    | some leader =>
      let nextIdx := (leader.nextIndex.lookup peer).getD 1
      if 0 < node.log.offset ∧ nextIdx ≤ node.log.offset then node.sendSnapshotToPeer peer
      else node.send peer (.appendEntries (node.appendEntriesFor nextIdx))

/-- Replicate to all peers; also the heartbeat. -/
def sendAppendEntriesToAll (node : RaftNode T) : RaftNode T :=
  if node.state ≠ .leader then node
  else (node.membership.peers node.nodeId).foldl replicateToPeer node

def countReplicas (quorum idx : ℕ) : ℕ → List ℕ → ℕ
  | count, [] => count
  | count, m :: ms =>
    if idx ≤ m then
      if quorum ≤ count + 1 then count + 1 else countReplicas quorum idx (count + 1) ms
    else countReplicas quorum idx count ms

/-- The scan of `advance_commit_index` from `n` down to the commit index. -/
def scanCommit (log : RaftLog T) (currentTerm quorum commit : ℕ) (matches_ : List ℕ) : ℕ → ℕ
  | 0 => commit
  | n + 1 =>
    if n + 1 ≤ commit then commit
    else
      match log.termAt (n + 1) with
      | some entryTerm =>
        if entryTerm = currentTerm then
          if quorum ≤ countReplicas quorum (n + 1) 1 matches_ then n + 1
          else scanCommit log currentTerm quorum commit matches_ n
        -- all entries below have the same or a lower term
        else if entryTerm < currentTerm then commit
        else scanCommit log currentTerm quorum commit matches_ n
      | none => scanCommit log currentTerm quorum commit matches_ n

/-- A pending membership change at or below the committed index is final; a leader that removed
itself steps down. -/
def commitMembershipChangeIfPending (node : RaftNode T) (committedIndex : ℕ) : RaftNode T :=
  match node.membership.pendingChange with
  | none => node
  | some pending =>
    if pending.index ≤ committedIndex then
      let membership := node.membership.commitChange
      let keep (m : NodeMap ℕ) : NodeMap ℕ :=
        m.keys.foldl (fun m id => if membership.isMember id then m else m.erase id) m
      let node :=
        { node with
          membership := membership
          leaderState := node.leaderState.map fun l =>
            { nextIndex := keep l.nextIndex, matchIndex := keep l.matchIndex } }
      if pending.change = .removeServer node.nodeId then
        { node with state := .follower, leaderState := none, currentLeader := none }
      else node
    else node

/-- Advance the commit index to the highest current-term entry a majority holds. -/
def advanceCommitIndex (node : RaftNode T) : RaftNode T :=
  if node.state ≠ .leader then node
  else
    match node.leaderState with
    | none => node
    | some leader =>
      let newCommit := scanCommit node.log node.currentTerm node.quorumSize
        node.volatile.commitIndex (leader.matchIndex.entries.map Sigma.snd) node.log.lastIndex
      if node.volatile.commitIndex < newCommit then
        ({ node with
          volatile := { node.volatile with commitIndex := newCommit } }).commitMembershipChangeIfPending
            newCommit
      else node

/-- The committed entries not yet applied, in order; indices whose entry is missing are
skipped. -/
def unapplied (node : RaftNode T) : List (LogEntry T) :=
  (List.range' (node.volatile.lastApplied + 1)
    (node.volatile.commitIndex - node.volatile.lastApplied)).filterMap node.log.get

/-- All that is committed is taken as applied. -/
def applyCommittedWithEntries (node : RaftNode T) : RaftNode T :=
  { node with
    volatile := { node.volatile with
      lastApplied := max node.volatile.lastApplied node.volatile.commitIndex } }

def appendCommand (node : RaftNode T) (command : T) : RaftNode T :=
  { node with
    log := node.log.append
      { term := node.currentTerm, index := node.log.lastIndex + 1, command := command } }

/-- Append a client command to the leader's log and replicate it. -/
def clientRequest (node : RaftNode T) (command : T) : Option ℕ × RaftNode T :=
  if node.state ≠ .leader then (none, node)
  else (some (node.log.lastIndex + 1), (node.appendCommand command).sendAppendEntriesToAll)

/-! ## Membership -/

def scanCurrentTerm (log : RaftLog T) (currentTerm : ℕ) : ℕ → Bool
  | 0 => false
  | idx + 1 =>
    match log.termAt (idx + 1) with
    | some term =>
      if term = currentTerm then true
      else if term < currentTerm then false
      else scanCurrentTerm log currentTerm idx
    | none => scanCurrentTerm log currentTerm idx

def hasCommittedInCurrentTerm (node : RaftNode T) : Bool :=
  scanCurrentTerm node.log node.currentTerm node.volatile.commitIndex

def applyMembershipChange (node : RaftNode T) (change : MembershipChange) (noopCommand : T) :
    RaftNode T :=
  let index := node.log.lastIndex + 1
  let node := node.appendCommand noopCommand
  { node with
    membership := node.membership.beginChange index change
    leaderState :=
      match change with
      | .addServer newNode => node.leaderState.map fun leader =>
          { nextIndex := leader.nextIndex.insert newNode (node.log.lastIndex + 1)
            matchIndex := leader.matchIndex.insert newNode 0 }
      | .removeServer _ => node.leaderState }

def checkMembershipChange (node : RaftNode T) (change : MembershipChange) :
    Option MembershipError :=
  if node.state ≠ .leader then some .notLeader
  else
    match node.membership.pendingChange with
    | some pending => some (.changePending pending.index)
    | none =>
      if ¬ node.hasCommittedInCurrentTerm then some .noCurrentTermCommit
      else
        match change with
        | .addServer peer =>
          if node.membership.isMember peer then some (.alreadyMember peer) else none
        | .removeServer peer =>
          if ¬ node.membership.isMember peer then some (.notMember peer)
          else if node.membership.memberCount ≤ 1 then some .cannotRemoveLastMember
          else none

/-- Propose a membership change: it is appended, takes effect at once and is replicated. -/
def proposeMembershipChange (node : RaftNode T) (change : MembershipChange) (noopCommand : T) :
    Except MembershipError ℕ × RaftNode T :=
  match node.checkMembershipChange change with
  | some e => (.error e, node)
  | none =>
    (.ok (node.log.lastIndex + 1),
      (node.applyMembershipChange change noopCommand).sendAppendEntriesToAll)

/-! ## Elections -/

/-- The node in its new role, with nothing known about its peers yet. -/
def lead (node : RaftNode T) : RaftNode T :=
  { node with
    state := .leader
    currentLeader := some node.nodeId
    leaderState := some
      (LeaderState.new (node.membership.peers node.nodeId) node.log.lastIndex) }

/-- Transition to leader and send the first heartbeats. -/
def becomeLeader (node : RaftNode T) : RaftNode T := node.lead.sendAppendEntriesToAll

/-- In memory, a higher term makes the node a follower in it. -/
def stepDown (node : RaftNode T) (receivedTerm : ℕ) : RaftNode T :=
  { node with
    currentTerm := receivedTerm
    votedFor := none
    state := .follower
    leaderState := none
    electionTracker := node.electionTracker.reset
    membership := node.membership.rollbackChange }

/-- In memory, an election starts with the next term and the own vote. The next term is the
source's `Term::increment` in every term below `u64::MAX`. -/
def campaign (node : RaftNode T) : RaftNode T :=
  { node with
    currentTerm := node.currentTerm + 1
    state := .candidate
    votedFor := some node.nodeId
    currentLeader := none
    leaderState := none
    electionTracker := node.electionTracker.reset.recordVote node.nodeId }

def voteRequest (node : RaftNode T) : RequestVote where
  term := node.currentTerm
  candidateId := node.nodeId
  lastLogIndex := node.log.lastIndex
  lastLogTerm := node.log.lastTerm

/-- A candidate alone in its cluster leads; any other asks its configured peers. -/
def requestVotes (node : RaftNode T) : RaftNode T :=
  if node.electionTracker.hasQuorum then node.becomeLeader
  else
    node.config.peers.foldl (fun node' peer => node'.send peer (.requestVote node.voteRequest)) node

/-- Count a vote. The response's term is not looked at here. -/
def countVote (node : RaftNode T) (sender : NodeId) (resp : RequestVoteResponse) : RaftNode T :=
  if node.state ≠ .candidate then node
  else if resp.voteGranted then
    let node := { node with electionTracker := node.electionTracker.recordVote sender }
    if node.electionTracker.hasQuorum then node.becomeLeader else node
  else node

/-- A valid leader was heard: the election state is reset. -/
def follow (node : RaftNode T) (leaderId : NodeId) : RaftNode T :=
  { node with
    state := .follower
    currentLeader := some leaderId
    leaderState := none
    electionTracker := node.electionTracker.reset }

/-- The follower's commit index after a successful append. -/
def followerCommit (node : RaftNode T) (leaderCommit : ℕ) (log : RaftLog T) : ℕ :=
  if node.volatile.commitIndex < leaderCommit then min leaderCommit log.lastIndex
  else node.volatile.commitIndex

/-- Record a peer's answer to an `AppendEntries`. The response's term is not looked at here. -/
def recordAppendResponse (leader : LeaderState) (sender : NodeId) (resp : AppendEntriesResponse) :
    LeaderState :=
  if resp.success then
    { nextIndex := leader.nextIndex.insert sender (resp.matchIndex + 1)
      matchIndex := leader.matchIndex.insert sender resp.matchIndex }
  else
    let next := (leader.nextIndex.lookup sender).getD 1
    if 1 < next then { leader with nextIndex := leader.nextIndex.insert sender (next - 1) }
    else leader

/-- Record that a peer installed our latest snapshot. -/
def recordSnapshotResponse (snapshot : Option Snapshot) (leader : LeaderState) (sender : NodeId) :
    LeaderState :=
  match snapshot with
  | some s =>
    { nextIndex := leader.nextIndex.insert sender (s.lastIncludedIndex + 1)
      matchIndex := leader.matchIndex.insert sender s.lastIncludedIndex }
  | none => leader

def updateProgress (node : RaftNode T) (f : LeaderState → LeaderState) : RaftNode T :=
  if node.state ≠ .leader then node
  else { node with leaderState := node.leaderState.map f }.advanceCommitIndex

/-- The log once a snapshot point is taken over: the suffix is kept where the point matches. -/
def cutLog (node : RaftNode T) (lastIncludedIndex lastIncludedTerm : ℕ) : RaftLog T :=
  if node.log.termAt lastIncludedIndex = some lastIncludedTerm then
    node.log.compactTo lastIncludedIndex
  else node.log.resetToSnapshot lastIncludedIndex lastIncludedTerm

end RaftNode

/-- A higher term makes the node a follower in it; the term and the cleared vote are saved by two
writes. -/
def handleTermUpdate (receivedTerm : ℕ) : NodeM T StorageError Bool := do
  let node ← get
  if node.currentTerm < receivedTerm then
    set (node.stepDown receivedTerm)
    writing (·.saveTerm receivedTerm)
    writing (·.saveVotedFor none)
    return true
  else return false

/-- Start an election: next term, own vote, `RequestVote` to all configured peers. -/
def startElection : NodeM T StorageError Unit := do
  modify RaftNode.campaign
  let node ← get
  writing (·.saveTerm node.currentTerm)
  writing (·.saveVotedFor node.votedFor)
  modify RaftNode.requestVotes

/-- Grant a vote, if nothing stands against it. -/
def handleRequestVote (req : RequestVote) : NodeM T StorageError RequestVoteResponse := do
  let _ ← handleTermUpdate req.term
  let node ← get
  let refused := { term := node.currentTerm, voteGranted := false }
  if req.term < node.currentTerm then return refused
  else if ¬ (node.votedFor = none ∨ node.votedFor = some req.candidateId) then return refused
  else if ¬ isLogUpToDate req.lastLogTerm req.lastLogIndex node.log.lastTerm node.log.lastIndex then
    return refused
  else
    set { node with votedFor := some req.candidateId }
    writing (·.saveVotedFor (some req.candidateId))
    return { term := node.currentTerm, voteGranted := true }

/-- Count a vote, and lead with a quorum of them. -/
def handleRequestVoteResponse (sender : NodeId) (resp : RequestVoteResponse) :
    NodeM T StorageError Unit := do
  let _ ← handleTermUpdate resp.term
  modify (·.countVote sender resp)

/-- Answer an `AppendEntries`: a success acknowledges the whole log. -/
def handleAppendEntries (req : AppendEntries T) : NodeM T StorageError AppendEntriesResponse := do
  let _ ← handleTermUpdate req.term
  let node ← get
  let failed := { term := node.currentTerm, success := false, matchIndex := 0 }
  if req.term < node.currentTerm then return failed
  else
    let node := node.follow req.leaderId
    match node.log.appendEntries req.prevLogIndex req.prevLogTerm req.entries with
    | none =>
      set node
      return failed
    | some log =>
      let volatile := { node.volatile with commitIndex := node.followerCommit req.leaderCommit log }
      set { node with log := log, volatile := volatile }
      return { term := node.currentTerm, success := true, matchIndex := log.lastIndex }

/-- Record a peer's answer and try to commit. -/
def handleAppendEntriesResponse (sender : NodeId) (resp : AppendEntriesResponse) :
    NodeM T StorageError Unit := do
  let _ ← handleTermUpdate resp.term
  modify fun node => node.updateProgress (RaftNode.recordAppendResponse · sender resp)

/-! ## Snapshots -/

/-- Process the answer to an `InstallSnapshot`: whatever chunk it answers, the peer counts as
having the latest snapshot. -/
def handleInstallSnapshotResponse (sender : NodeId) (resp : InstallSnapshotResponse) :
    NodeM T StorageError Unit := do
  let _ ← handleTermUpdate resp.term
  modify fun node =>
    node.updateProgress (RaftNode.recordSnapshotResponse node.lastSnapshot · sender)

section Snapshots

variable {M : Type} [StateMachine T M]

def asSnapshotError {α : Type} (x : NodeM T StorageError α) : NodeM T SnapshotError α :=
  EStateM.adaptExcept SnapshotError.storage x

/-- Snapshot the state machine, save it, and compact the log up to the applied position. -/
def createSnapshot (stateMachine : M) : NodeM T SnapshotError Unit := do
  let node ← get
  let lastApplied := node.volatile.lastApplied
  if lastApplied = 0 then return
  else if node.lastSnapshot.any (lastApplied ≤ ·.lastIncludedIndex) then return
  else
    let snapshot :=
      { lastIncludedIndex := lastApplied
        lastIncludedTerm := (node.log.termAt lastApplied).getD node.log.snapshotTerm
        data := StateMachine.snapshot stateMachine }
    asSnapshotError (writing (·.saveSnapshot snapshot))
    modify fun node =>
      { node with log := node.log.compactTo lastApplied, lastSnapshot := some snapshot }

/-- The log has grown past the snapshot threshold. -/
def RaftNode.shouldSnapshot (node : RaftNode T) : Bool :=
  node.config.snapshotThreshold ≤ node.log.entries.length

/-- A handler that also changes the state machine. -/
abbrev DriverM (T M ε : Type) := EStateM ε (RaftNode T × M)

/-- Run a handler of the node next to the state machine. -/
def onNode {ε α : Type} (x : NodeM T ε α) : DriverM T M ε α := fun (node, sm) =>
  match x.run node with
  | .ok a node => .ok a (node, sm)
  | .error e node => .error e (node, sm)

/-- Save a snapshot whose data is in the state machine already, and move the commit and apply
positions up to it. -/
def saveInstalled (snapshot : Snapshot) : NodeM T SnapshotError InstallSnapshotResponse := do
  asSnapshotError (writing (·.saveSnapshot snapshot))
  modify fun node =>
    { node with
      volatile :=
        { commitIndex := max node.volatile.commitIndex snapshot.lastIncludedIndex
          lastApplied := max node.volatile.lastApplied snapshot.lastIncludedIndex }
      lastSnapshot := some snapshot }
  return { term := (← get).currentTerm }

/-- Install a completed snapshot: the log is cut before the state machine is restored and the
snapshot saved. -/
def finishInstall (req : InstallSnapshot) (data : List UInt8) :
    DriverM T M SnapshotError InstallSnapshotResponse := fun (node, sm) =>
  let node := { node with log := node.cutLog req.lastIncludedIndex req.lastIncludedTerm }
  match StateMachine.restore sm data with
  | (.error e, sm) => .error e (node, sm)
  | (.ok (), sm) =>
    onNode (saveInstalled
      { lastIncludedIndex := req.lastIncludedIndex
        lastIncludedTerm := req.lastIncludedTerm
        data := data }) (node, sm)

/-- Answer a chunk of a snapshot: collect it, and install the snapshot with the last one. -/
def handleInstallSnapshot (req : InstallSnapshot) :
    DriverM T M SnapshotError InstallSnapshotResponse := do
  let _ ← onNode (asSnapshotError (handleTermUpdate req.term))
  let (node, _) ← get
  let response := { term := node.currentTerm }
  if req.term < node.currentTerm then return response
  else
    let node := node.follow req.leaderId
    -- a first chunk starts a new buffer, a later one without a buffer is dropped
    let buffer := if req.offset = 0 then some req.data else node.pendingSnapshot.map (· ++ req.data)
    match buffer with
    | none =>
      onNode (set node)
      return response
    | some data =>
      if ¬ req.done then
        onNode (set { node with pendingSnapshot := some data })
        return response
      else
        onNode (set { node with pendingSnapshot := none })
        finishInstall req data

end Snapshots

end Pirc.Raft
