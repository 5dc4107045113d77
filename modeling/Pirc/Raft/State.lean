import Pirc.Raft.Log
import Mathlib.Data.List.AList

/-!
# Raft: the state of a node

The data of `raft/rpc.rs`, `raft/snapshot.rs`, `raft/storage.rs`, `raft/election.rs`,
`raft/membership.rs` and `raft/state.rs`, with the small operations on it, and the `RaftNode` of
`raft/node.rs`.

Storage is a disk whose writes succeed or fail one by one: `outcomes` lists what the next writes
return, and a write past its end succeeds. A failed write leaves the disk as it was, so a crash
between two writes of a handler leaves the same disk as a failure of the second one.
-/

namespace Pirc.Raft

variable {T : Type}

/-! ## Messages -/

structure RequestVote where
  term : ℕ
  candidateId : NodeId
  lastLogIndex : ℕ
  lastLogTerm : ℕ
  deriving DecidableEq

structure RequestVoteResponse where
  term : ℕ
  voteGranted : Bool
  deriving DecidableEq

/-- `AppendEntries`, sent by the leader to replicate entries and as heartbeat. -/
structure AppendEntries (T : Type) where
  term : ℕ
  leaderId : NodeId
  prevLogIndex : ℕ
  prevLogTerm : ℕ
  entries : List (LogEntry T)
  leaderCommit : ℕ
  deriving DecidableEq

structure AppendEntriesResponse where
  term : ℕ
  success : Bool
  matchIndex : ℕ
  deriving DecidableEq

/-- A chunk of a snapshot sent to a lagging follower. -/
structure InstallSnapshot where
  term : ℕ
  leaderId : NodeId
  lastIncludedIndex : ℕ
  lastIncludedTerm : ℕ
  offset : ℕ
  data : List UInt8
  done : Bool
  deriving DecidableEq

structure InstallSnapshotResponse where
  term : ℕ
  deriving DecidableEq

/-- The messages that nodes exchange. -/
inductive RaftMessage (T : Type)
  | requestVote (req : RequestVote)
  | requestVoteResponse (resp : RequestVoteResponse)
  | appendEntries (req : AppendEntries T)
  | appendEntriesResponse (resp : AppendEntriesResponse)
  | installSnapshot (req : InstallSnapshot)
  | installSnapshotResponse (resp : InstallSnapshotResponse)
  deriving DecidableEq

/-! ## Snapshots and the state machine -/

/-- A point-in-time snapshot and the log position it covers. -/
structure Snapshot where
  lastIncludedIndex : ℕ
  lastIncludedTerm : ℕ
  data : List UInt8
  deriving DecidableEq

inductive StorageError
  | io (message : String)
  | serialization (message : String)
  | deserialization (message : String)
  | corrupted (message : String)
  deriving DecidableEq

inductive SnapshotError
  | invalidData (message : String)
  | storage (error : StorageError)
  deriving DecidableEq

/-- The application-level state machine Raft replicates. A failing `restore` may still have
changed the state. -/
class StateMachine (T : outParam Type) (M : Type) where
  apply : M → T → M
  snapshot : M → List UInt8
  restore : M → List UInt8 → Except SnapshotError Unit × M

/-! ## Storage -/

structure Disk (T : Type) where
  term : ℕ := 0
  votedFor : Option NodeId := none
  log : List (LogEntry T) := []
  snapshot : Option Snapshot := none
  deriving DecidableEq

/-- A storage: its disk, and what the next writes return. -/
structure Storage (T : Type) where
  disk : Disk T := {}
  outcomes : List (Option StorageError) := []
  deriving DecidableEq

namespace Storage

/-- One write: durable when it succeeds, without effect when it fails. -/
def write (storage : Storage T) (f : Disk T → Disk T) : Except StorageError Unit × Storage T :=
  match storage.outcomes with
  | [] => (.ok (), { storage with disk := f storage.disk })
  | none :: rest => (.ok (), { disk := f storage.disk, outcomes := rest })
  | some e :: rest => (.error e, { storage with outcomes := rest })

def saveTerm (storage : Storage T) (term : ℕ) : Except StorageError Unit × Storage T :=
  storage.write fun d => { d with term := term }

def saveVotedFor (storage : Storage T) (node : Option NodeId) :
    Except StorageError Unit × Storage T :=
  storage.write fun d => { d with votedFor := node }

def saveSnapshot (storage : Storage T) (snapshot : Snapshot) : Except StorageError Unit × Storage T :=
  storage.write fun d => { d with snapshot := some snapshot }

def Reliable (storage : Storage T) : Prop := storage.outcomes = []

end Storage

/-! ## Elections -/

/-- Votes received in the current election; a `HashSet` in the source, a duplicate-free list
here. -/
structure ElectionTracker where
  votes : List NodeId := []
  clusterSize : ℕ
  deriving DecidableEq

namespace ElectionTracker

def quorumSize (tracker : ElectionTracker) : ℕ := tracker.clusterSize / 2 + 1

def recordVote (tracker : ElectionTracker) (node : NodeId) : ElectionTracker :=
  { tracker with votes := tracker.votes.insert node }

def hasQuorum (tracker : ElectionTracker) : Bool := tracker.quorumSize ≤ tracker.votes.length

def reset (tracker : ElectionTracker) : ElectionTracker := { tracker with votes := [] }

end ElectionTracker

/-- The candidate's log is at least as up-to-date as ours: last terms first, then lengths. -/
def isLogUpToDate (candidateLastTerm candidateLastIndex ourLastTerm ourLastIndex : ℕ) : Bool :=
  ourLastTerm < candidateLastTerm ||
    (candidateLastTerm = ourLastTerm && ourLastIndex ≤ candidateLastIndex)

/-! ## Membership -/

inductive MembershipChange
  | addServer (node : NodeId)
  | removeServer (node : NodeId)
  deriving DecidableEq

structure PendingChange where
  index : ℕ
  change : MembershipChange
  deriving DecidableEq

inductive MembershipError
  | notLeader
  | changePending (index : ℕ)
  | noCurrentTermCommit
  | alreadyMember (node : NodeId)
  | notMember (node : NodeId)
  | cannotRemoveLastMember
  deriving DecidableEq

/-- The voting members, a `HashSet` in the source and a duplicate-free list here, and the pending
change. -/
structure ClusterMembership where
  members : List NodeId
  generation : ℕ := 0
  pendingChange : Option PendingChange := none
  deriving DecidableEq

namespace ClusterMembership

def new (selfId : NodeId) (peers : List NodeId) : ClusterMembership where
  members := peers.foldl (fun members peer => members.insert peer) [selfId]

def memberCount (m : ClusterMembership) : ℕ := m.members.length

def quorumSize (m : ClusterMembership) : ℕ := m.members.length / 2 + 1

def isMember (m : ClusterMembership) (node : NodeId) : Bool := node ∈ m.members

/-- A change takes effect when its entry is appended, not when it is committed. -/
def beginChange (m : ClusterMembership) (index : ℕ) (change : MembershipChange) :
    ClusterMembership :=
  { m with
    members :=
      match change with
      | .addServer node => m.members.insert node
      | .removeServer node => m.members.filter (· ≠ node)
    pendingChange := some { index := index, change := change } }

def commitChange (m : ClusterMembership) : ClusterMembership :=
  match m.pendingChange with
  | some _ => { m with generation := m.generation + 1, pendingChange := none }
  | none => m

def rollbackChange (m : ClusterMembership) : ClusterMembership :=
  match m.pendingChange with
  | none => m
  | some { change := .addServer node, .. } =>
    { m with members := m.members.filter (· ≠ node), pendingChange := none }
  | some { change := .removeServer node, .. } =>
    { m with members := m.members.insert node, pendingChange := none }

def peers (m : ClusterMembership) (selfId : NodeId) : List NodeId := m.members.filter (· ≠ selfId)

theorem mem_foldl_insert {j : NodeId} : ∀ {peers members : List NodeId},
    j ∈ peers.foldl (fun members peer => members.insert peer) members ↔ j ∈ members ∨ j ∈ peers
  | [], _ => by simp
  | p :: peers, members => by
    rw [List.foldl_cons, mem_foldl_insert, List.mem_insert_iff, List.mem_cons]
    tauto

theorem nodup_foldl_insert : ∀ {peers members : List NodeId}, members.Nodup →
    (peers.foldl (fun members peer => members.insert peer) members).Nodup
  | [], _, h => h
  | p :: _, members, h => by
    have hinsert : (members.insert p).Nodup := h.insert
    rw [List.foldl_cons]
    exact nodup_foldl_insert hinsert

theorem mem_members_new {selfId j : NodeId} {peers : List NodeId} :
    j ∈ (new selfId peers).members ↔ j = selfId ∨ j ∈ peers := by
  simp [new, mem_foldl_insert]

theorem nodup_members_new (selfId : NodeId) (peers : List NodeId) :
    (new selfId peers).members.Nodup :=
  nodup_foldl_insert (List.nodup_singleton selfId)

end ClusterMembership

/-! ## The node -/

structure VolatileState where
  commitIndex : ℕ := 0
  lastApplied : ℕ := 0
  deriving DecidableEq

abbrev NodeMap (V : Type) := AList fun _ : NodeId => V

/-- Replication progress per peer, kept by the leader. -/
structure LeaderState where
  nextIndex : NodeMap ℕ
  matchIndex : NodeMap ℕ
  deriving DecidableEq

/-- Progress at the start of a leadership: everything is still to be sent. -/
def LeaderState.new (peers : List NodeId) (lastLogIndex : ℕ) : LeaderState where
  nextIndex := peers.foldl (fun m peer => m.insert peer (lastLogIndex + 1)) ∅
  matchIndex := peers.foldl (fun m peer => m.insert peer 0) ∅

/-- A Raft node; `outbound` is everything it ever sent. -/
structure RaftNode (T : Type) where
  config : RaftConfig
  state : RaftState := .follower
  currentTerm : ℕ := 0
  votedFor : Option NodeId := none
  log : RaftLog T := {}
  volatile : VolatileState := {}
  leaderState : Option LeaderState := none
  currentLeader : Option NodeId := none
  electionTracker : ElectionTracker
  storage : Storage T := {}
  outbound : List (NodeId × RaftMessage T) := []
  lastSnapshot : Option Snapshot := none
  pendingSnapshot : Option (List UInt8) := none
  membership : ClusterMembership
  deriving DecidableEq

end Pirc.Raft
