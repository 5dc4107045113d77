import Pirc.Raft.Node
import Pirc.Lib.Run

/-!
# Raft: drivers and clusters

The event handlers of `raft/driver.rs` around a node, and a cluster of drivers over a network. The
network holds everything a node ever sent, so a delivery may come late, out of order, more than
once or never; it cannot be forged.
-/

namespace Pirc.Raft

variable {T M : Type}

/-- The driver: the node, the application state, and the entries sent to the commit channel. The
timers, the health monitor and the watch channels are not modelled. -/
structure RaftDriver (T M : Type) where
  node : RaftNode T
  stateMachine : M
  commitTx : List (LogEntry T) := []

namespace RaftDriver

/-- The node after a handler, whether it failed or not; a failure is logged by the source. -/
def after {ε α : Type} (d : RaftDriver T M) (x : NodeM T ε α) : RaftDriver T M :=
  match x.run d.node with
  | .ok _ node => { d with node := node }
  | .error _ node => { d with node := node }

/-- Run a handler and send its answer back; a failed handler answers nothing. -/
def answering {ε α : Type} (d : RaftDriver T M) (sender : NodeId) (x : NodeM T ε α)
    (wrap : α → RaftMessage T) : RaftDriver T M :=
  match x.run d.node with
  | .ok a node => { d with node := node.send sender (wrap a) }
  | .error _ node => { d with node := node }

/-- A message is handled, and answered. -/
def handleInboundMessage [StateMachine T M] (d : RaftDriver T M) (sender : NodeId) :
    RaftMessage T → RaftDriver T M
  | .requestVote req => d.answering sender (handleRequestVote req) .requestVoteResponse
  | .requestVoteResponse resp => d.after (handleRequestVoteResponse sender resp)
  | .appendEntries req => d.answering sender (handleAppendEntries req) .appendEntriesResponse
  | .appendEntriesResponse resp => d.after (handleAppendEntriesResponse sender resp)
  | .installSnapshot req =>
    match (handleInstallSnapshot req).run (d.node, d.stateMachine) with
    | .ok resp (node, sm) =>
      { d with node := node.send sender (.installSnapshotResponse resp), stateMachine := sm }
    | .error _ (node, sm) => { d with node := node, stateMachine := sm }
  | .installSnapshotResponse resp => d.after (handleInstallSnapshotResponse sender resp)

/-- Propose a membership change; a node alone commits it at once. -/
def handleMembershipProposal (d : RaftDriver T M) (change : MembershipChange) (noopCommand : T) :
    Except MembershipError ℕ × RaftDriver T M :=
  match d.node.proposeMembershipChange change noopCommand with
  | (.ok index, node) => (.ok index, { d with node := node.advanceCommitIndex })
  | (.error e, node) => (.error e, { d with node := node })

def applyCommittedEntries [StateMachine T M] (d : RaftDriver T M) : RaftDriver T M :=
  if d.node.volatile.commitIndex ≤ d.node.volatile.lastApplied then d
  else
    { node := d.node.applyCommittedWithEntries
      stateMachine := d.node.unapplied.foldl (fun sm e => StateMachine.apply sm e.command)
        d.stateMachine
      commitTx := d.commitTx ++ d.node.unapplied }

end RaftDriver

/-! ## Clusters -/

/-- A fixed membership: every member is configured with its own id and all others as peers. -/
structure ClusterConfig where
  members : List NodeId
  nodup : members.Nodup
  config : NodeId → RaftConfig
  nodeId_eq : ∀ i ∈ members, (config i).nodeId = i
  peers_iff : ∀ i ∈ members, ∀ j, (j = i ∨ j ∈ (config i).peers) ↔ j ∈ members

/-- Every member is configured with all others, and everything else by default. -/
def ClusterConfig.ofMembers (members : List NodeId) (nodup : members.Nodup) : ClusterConfig where
  members := members
  nodup := nodup
  config i := { nodeId := i, peers := members.filter (· ≠ i) }
  nodeId_eq _ _ := rfl
  peers_iff i hi j := by
    by_cases hj : j = i
    · simp [hj, hi]
    · simp [hj]

/-- What can happen in a cluster without restarts and membership proposals. -/
inductive Event (T : Type)
  | startElection (i : NodeId)
  | deliver (src dst : NodeId) (msg : RaftMessage T)
  | clientRequest (i : NodeId) (command : T)
  | replicateToPeer (i peer : NodeId)
  | advanceCommitIndex (i : NodeId)
  | applyCommitted (i : NodeId)
  | createSnapshot (i : NodeId)
  deriving DecidableEq

namespace Event

def actor : Event T → NodeId
  | startElection i => i
  | deliver _ dst _ => dst
  | clientRequest i _ => i
  | replicateToPeer i _ => i
  | advanceCommitIndex i => i
  | applyCommitted i => i
  | createSnapshot i => i

def act [StateMachine T M] : Event T → RaftDriver T M → RaftDriver T M
  | startElection _, d => d.after Raft.startElection
  | deliver src _ msg, d => d.handleInboundMessage src msg
  | clientRequest _ command, d => { d with node := (d.node.clientRequest command).2 }
  | replicateToPeer _ peer, d => { d with node := d.node.replicateToPeer peer }
  | advanceCommitIndex _, d => { d with node := d.node.advanceCommitIndex }
  | applyCommitted _, d => d.applyCommittedEntries
  | createSnapshot _, d => d.after (Raft.createSnapshot d.stateMachine)

end Event

abbrev Cluster (T M : Type) := NodeId → RaftDriver T M

/-- The event's message is in the network, and the event happens at a member. -/
def Event.Enabled (cfg : ClusterConfig) (c : Cluster T M) (e : Event T) : Prop :=
  e.actor ∈ cfg.members ∧
    match e with
    | .deliver src dst msg => src ∈ cfg.members ∧ (dst, msg) ∈ (c src).node.outbound
    | .replicateToPeer i peer => peer ∈ (c i).node.membership.peers i
    | _ => True

instance [DecidableEq T] (cfg : ClusterConfig) (c : Cluster T M) :
    ∀ e : Event T, Decidable (e.Enabled cfg c)
  | .startElection _ => inferInstanceAs (Decidable (_ ∧ True))
  | .deliver _ _ _ => inferInstanceAs (Decidable (_ ∧ _ ∧ _))
  | .clientRequest _ _ => inferInstanceAs (Decidable (_ ∧ True))
  | .replicateToPeer _ _ => inferInstanceAs (Decidable (_ ∧ _ ∈ _))
  | .advanceCommitIndex _ => inferInstanceAs (Decidable (_ ∧ True))
  | .applyCommitted _ => inferInstanceAs (Decidable (_ ∧ True))
  | .createSnapshot _ => inferInstanceAs (Decidable (_ ∧ True))

namespace ClusterConfig

/-- The cluster as a system: one node reacts, all others stay as they are. -/
def system [StateMachine T M] (cfg : ClusterConfig) : System (Cluster T M) (Event T) where
  enabled c e := e.Enabled cfg c
  step c e := Function.update c e.actor (e.act (c e.actor))

instance [StateMachine T M] [DecidableEq T] (cfg : ClusterConfig) (c : Cluster T M) (e : Event T) :
    Decidable (cfg.system.enabled c e) :=
  inferInstanceAs (Decidable (e.Enabled cfg c))

/-- Every node fresh on empty storage, with the same initial application state. -/
def initial (cfg : ClusterConfig) (sm : M) : Cluster T M := fun i =>
  { node := RaftNode.new (cfg.config i) {}, stateMachine := sm }

end ClusterConfig

/-! ## Small clusters -/

/-- A state machine that keeps nothing. -/
instance : StateMachine ℕ Unit where
  apply _ _ := ()
  snapshot _ := []
  restore _ _ := (.ok (), ())

def threeNodes : ClusterConfig := .ofMembers [1, 2, 3] (by decide)

end Pirc.Raft
