import Pirc.Raft.Refinement

/-!
# Raft: election safety

A term has at most one leader, as long as no candidate counts a vote that was granted to it in an
earlier term. `handle_request_vote_response` means to see to that itself ("only process if we're
still a Candidate in the same term") but looks at the node's role only, so that a delayed answer
from an earlier candidacy is counted in a later one.
-/

namespace Pirc.Raft

variable {T M : Type}

def RaftNode.Leads (node : RaftNode T) (t : ℕ) : Prop :=
  node.state = .leader ∧ node.currentTerm = t

instance (node : RaftNode T) (t : ℕ) : Decidable (node.Leads t) :=
  inferInstanceAs (Decidable (_ ∧ _))

theorem Refines.winner {cfg : ClusterConfig} {c : Cluster T M} {L : RaftLedger T} {i : NodeId}
    {t : ℕ} (h : Refines cfg c L) (hi : i ∈ cfg.members) (hlead : (c i).node.Leads t) :
    L.winner t = some i := by
  obtain ⟨hs, rfl⟩ := hlead
  exact ((h.node i hi).leader hs).1

theorem Refines.leader_eq [StateMachine T M] {cfg : ClusterConfig} {c c' : Cluster T M}
    {L : RaftLedger T} {i j : NodeId} {t : ℕ} (h : Refines cfg c L)
    (run : cfg.system.Steps (fun c e => e.Timely c) c c') (hi : i ∈ cfg.members)
    (hj : j ∈ cfg.members) (hlead : (c i).node.Leads t) (hlead' : (c' j).node.Leads t) :
    i = j := by
  obtain ⟨L', hle, h'⟩ := h.run run
  exact Option.some_inj.mp ((hle.winner (h.winner hi hlead)).symm.trans (h'.winner hj hlead'))

/-- **Election safety**: whoever leads a term, at whatever points of a timely run, is one node. -/
theorem leader_unique [StateMachine T M] {cfg : ClusterConfig} {sm : M} {c c' : Cluster T M}
    {i j : NodeId} {t : ℕ} (run : cfg.system.Steps (fun c e => e.Timely c) (cfg.initial sm) c)
    (run' : cfg.system.Steps (fun c e => e.Timely c) c c')
    (hi : i ∈ cfg.members) (hj : j ∈ cfg.members)
    (hlead : (c i).node.Leads t) (hlead' : (c' j).node.Leads t) : i = j := by
  obtain ⟨L, -, h⟩ := (refines_initial cfg sm).run run
  exact h.leader_eq run' hi hj hlead hlead'

/-! ## Three nodes -/

section ThreeNodes

/-- Node 1 is elected in term 1 with the vote of node 2, and node 3 in term 2. -/
def twoElections : List (Event ℕ) :=
  [.startElection 1, .deliver 1 2 (.requestVote ⟨1, 1, 0, 0⟩),
    .deliver 2 1 (.requestVoteResponse ⟨1, true⟩), .deliver 1 3 (.requestVote ⟨1, 1, 0, 0⟩),
    .startElection 3, .deliver 3 2 (.requestVote ⟨2, 3, 0, 0⟩),
    .deliver 2 3 (.requestVoteResponse ⟨2, true⟩)]

/-- Node 2 votes for node 1 in term 1 and for node 3 in term 2. Its answer to node 1 arrives when
node 1 stands for election in term 2. -/
def staleVote : List (Event ℕ) :=
  [.startElection 1, .deliver 1 2 (.requestVote ⟨1, 1, 0, 0⟩),
    .startElection 3, .startElection 3, .deliver 3 2 (.requestVote ⟨2, 3, 0, 0⟩),
    .deliver 2 3 (.requestVoteResponse ⟨2, true⟩),
    .startElection 1, .deliver 2 1 (.requestVoteResponse ⟨1, true⟩)]

theorem twoElections_legal :
    System.Legal threeNodes.system (fun c e => e.Timely c) (threeNodes.initial ()) twoElections := by
  decide +kernel

/-- Node 3 leads term 2 when it is elected and after its first heartbeat arrived. -/
theorem leader_unique_twoElections :
    let c := threeNodes.system.exec (threeNodes.initial ()) twoElections
    let c' := threeNodes.system.exec c [.deliver 3 2 (.appendEntries ⟨2, 3, 0, 0, [], 0⟩)]
    (c 3).node.Leads 2 ∧ (c' 3).node.Leads 2 ∧ (3 : NodeId) = 3 := by
  intro c c'
  have hrun : System.Legal threeNodes.system (fun c e => e.Timely c) c
      [.deliver 3 2 (.appendEntries ⟨2, 3, 0, 0, [], 0⟩)] := by
    decide +kernel
  have hlead : (c 3).node.Leads 2 := by decide +kernel
  have hlead' : (c' 3).node.Leads 2 := by decide +kernel
  exact ⟨hlead, hlead',
    leader_unique twoElections_legal.steps hrun.steps (by decide) (by decide) hlead hlead'⟩

def Event.isElectoral : Event T → Bool
  | .startElection _ => true
  | .deliver _ _ _ => true
  | _ => false

/-- Without the side condition the same term can have two leaders. -/
theorem stale_vote_second_leader :
    ¬ ∀ (c : Cluster ℕ Unit) (i j t : ℕ),
      threeNodes.system.Steps (fun _ e => e.isElectoral = true) (threeNodes.initial ()) c →
      i ∈ threeNodes.members → j ∈ threeNodes.members →
      (c i).node.Leads t → (c j).node.Leads t → i = j := by
  intro h
  have hlegal : System.Legal threeNodes.system (fun _ e => e.isElectoral = true)
      (threeNodes.initial ()) staleVote := by
    decide +kernel
  exact absurd (h _ 1 3 2 hlegal.steps (by decide) (by decide) (by decide +kernel)
    (by decide +kernel)) (by decide)

end ThreeNodes

end Pirc.Raft
