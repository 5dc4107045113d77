import Pirc.Raft.HandlerFrames

/-!
# Raft: the quorum of an election

The size of the cluster is kept in three places: the configured peers, the size an election counts
its votes against, and the membership. Only the last one follows membership changes. An election is
decided by a majority of the members as long as the two others happen to agree with it.
-/

namespace Pirc.Raft

variable {T M : Type}

namespace RaftNode

/-- The voters counted so far are a strict majority of the members. -/
def MajorityVoted (node : RaftNode T) : Prop :=
  node.membership.members.toFinset.card <
    2 * (node.electionTracker.votes.toFinset ∩ node.membership.members.toFinset).card

instance (node : RaftNode T) : Decidable node.MajorityVoted := inferInstanceAs (Decidable (_ < _))

def Enters (node node' : RaftNode T) : Prop :=
  node'.state = .leader ∧ (node.state ≠ .leader ∨ node.currentTerm < node'.currentTerm)

instance (node node' : RaftNode T) : Decidable (node.Enters node') :=
  inferInstanceAs (Decidable (_ ∧ _))

/-- The node counts the vote: it is a candidate once it has seen the response's term. -/
def counts (node : RaftNode T) (resp : RequestVoteResponse) : Prop :=
  node.state = .candidate ∧ resp.voteGranted = true ∧ resp.term ≤ node.currentTerm

instance (node : RaftNode T) (resp : RequestVoteResponse) : Decidable (node.counts resp) :=
  inferInstanceAs (Decidable (_ ∧ _ ∧ _))

end RaftNode

/-- **An election that follows the membership**: whoever enters leadership has the votes of a
majority of its members, and an election that starts asks all other members for their vote. -/
structure NodeRun.FollowsMembership [StateMachine T M] (r : NodeRun T M) (e : NodeEvent T M) :
    Prop where
  majority : r.driver.node.Enters ((system T M).step r e).driver.node →
    ((system T M).step r e).driver.node.MajorityVoted
  requests : ∀ i outcomes node', e = .call (.startElection i) outcomes →
    startElection.run (r.driver.expecting outcomes).node = .ok () node' →
    ∀ p ∈ node'.membership.members, p ≠ node'.nodeId →
      (p, .requestVote node'.voteRequest) ∈ node'.outbound.drop r.driver.node.outbound.length

/-- Where an election starts, the node is a member and its configured peers include all other
members; where a vote is counted, the voter is a member. -/
def NodeEvent.Settled (r : NodeRun T M) : NodeEvent T M → Prop
  | .call (.startElection _) _ =>
    let node := r.driver.node
    node.nodeId ∈ node.membership.members ∧
      ∀ p ∈ node.membership.members, p ≠ node.nodeId → p ∈ node.config.peers
  | .call (.deliver src _ (.requestVoteResponse resp)) _ =>
    r.driver.node.counts resp → src ∈ r.driver.node.membership.members
  | _ => True

/-! ## Counting -/

/-- **A quorum of members' votes is a majority**, when the votes are counted against at least the
number of members. -/
theorem majority_of_quorum {votes members : List NodeId} {clusterSize : ℕ} (hnodup : votes.Nodup)
    (hvotes : ∀ v ∈ votes, v ∈ members) (hsize : members.toFinset.card ≤ clusterSize)
    (hquorum : clusterSize / 2 + 1 ≤ votes.length) :
    members.toFinset.card < 2 * (votes.toFinset ∩ members.toFinset).card := by
  have hsub : votes.toFinset ⊆ members.toFinset := by
    intro v hv
    rw [List.mem_toFinset] at hv ⊢
    exact hvotes v hv
  rw [Finset.inter_eq_left.mpr hsub, List.toFinset_card_of_nodup hnodup]
  omega

namespace RaftNode

/-- The votes were given by members, all of whom are configured. -/
structure Elects (node : RaftNode T) : Prop where
  voters : ∀ v ∈ node.electionTracker.votes, v ∈ node.membership.members
  configured : ∀ p ∈ node.membership.members, p = node.nodeId ∨ p ∈ node.config.peers

/-- Votes are counted against the configured cluster, and a candidate counts members' votes only. -/
structure ElectionInv (node : RaftNode T) : Prop where
  clusterSize : node.electionTracker.clusterSize =
    (ClusterMembership.new node.nodeId node.config.peers).memberCount
  nodup : node.electionTracker.votes.Nodup
  elects : node.state = .candidate → node.Elects

theorem Elects.majorityVoted {node : RaftNode T} (h : node.Elects)
    (hsize : node.electionTracker.clusterSize =
      (ClusterMembership.new node.nodeId node.config.peers).memberCount)
    (hnodup : node.electionTracker.votes.Nodup) (hquorum : node.electionTracker.hasQuorum) :
    node.MajorityVoted := by
  apply majority_of_quorum hnodup h.voters _ (of_decide_eq_true hquorum)
  -- every member was configured, so there are no more than the initial members
  have hsub : node.membership.members.toFinset ⊆
      (ClusterMembership.new node.nodeId node.config.peers).members.toFinset := by
    intro p hp
    rw [List.mem_toFinset] at hp ⊢
    exact ClusterMembership.mem_members_new.mpr (h.configured p hp)
  calc node.membership.members.toFinset.card
      ≤ (ClusterMembership.new node.nodeId node.config.peers).members.toFinset.card :=
        Finset.card_le_card hsub
    _ ≤ (ClusterMembership.new node.nodeId node.config.peers).members.length :=
        List.toFinset_card_le _
    _ = node.electionTracker.clusterSize := hsize.symm

/-! ## What other handlers do -/

/-- What an event does that neither starts an election nor counts a vote: votes are kept or thrown
away, and nobody becomes a candidate or a leader. -/
structure Stays (node node' : RaftNode T) : Prop where
  config : node'.config = node.config
  clusterSize : node'.electionTracker.clusterSize = node.electionTracker.clusterSize
  votes : node'.electionTracker.votes = node.electionTracker.votes ∨
    node'.electionTracker.votes = []
  candidate : node'.state = .candidate →
    node.state = .candidate ∧ node'.membership.members = node.membership.members
  leader : node'.state = .leader → node.state = .leader ∧ node'.currentTerm = node.currentTerm

theorem Stays.refl (node : RaftNode T) : node.Stays node :=
  ⟨rfl, rfl, .inl rfl, fun h => ⟨h, rfl⟩, fun h => ⟨h, rfl⟩⟩

theorem Stays.trans {node₁ node₂ node₃ : RaftNode T} (h₁ : node₁.Stays node₂)
    (h₂ : node₂.Stays node₃) : node₁.Stays node₃ where
  config := h₂.config.trans h₁.config
  clusterSize := h₂.clusterSize.trans h₁.clusterSize
  votes := by
    rcases h₂.votes with heq | hnil
    · rw [heq]
      exact h₁.votes
    · exact .inr hnil
  candidate hstate := by
    obtain ⟨hstate₂, hmembers₂⟩ := h₂.candidate hstate
    obtain ⟨hstate₁, hmembers₁⟩ := h₁.candidate hstate₂
    exact ⟨hstate₁, hmembers₂.trans hmembers₁⟩
  leader hstate := by
    obtain ⟨hstate₂, hterm₂⟩ := h₂.leader hstate
    obtain ⟨hstate₁, hterm₁⟩ := h₁.leader hstate₂
    exact ⟨hstate₁, hterm₂.trans hterm₁⟩

theorem Stays.of_follower {node node' : RaftNode T} (hconfig : node'.config = node.config)
    (hsize : node'.electionTracker.clusterSize = node.electionTracker.clusterSize)
    (hvotes : node'.electionTracker.votes = node.electionTracker.votes ∨
      node'.electionTracker.votes = [])
    (hstate : node'.state = .follower) : node.Stays node' := by
  refine ⟨hconfig, hsize, hvotes, ?_, ?_⟩
  · intro hcandidate
    rw [hstate] at hcandidate
    cases hcandidate
  · intro hleader
    rw [hstate] at hleader
    cases hleader

theorem Stays.of_leader {node node' : RaftNode T} (hconfig : node'.config = node.config)
    (htracker : node'.electionTracker = node.electionTracker)
    (hterm : node'.currentTerm = node.currentTerm) (hstate' : node'.state ≠ .candidate)
    (hstate : node.state = .leader) : node.Stays node' := by
  refine ⟨hconfig, ?_, ?_, ?_, ?_⟩
  · rw [htracker]
  · rw [htracker]
    exact .inl rfl
  · intro hcandidate
    exact absurd hcandidate hstate'
  · intro _
    exact ⟨hstate, hterm⟩

theorem Stays.of_eq {node node' : RaftNode T} (hconfig : node'.config = node.config)
    (htracker : node'.electionTracker = node.electionTracker) (hstate : node'.state = node.state)
    (hmembership : node'.membership = node.membership)
    (hterm : node'.currentTerm = node.currentTerm) : node.Stays node' := by
  refine ⟨hconfig, ?_, ?_, ?_, ?_⟩
  · rw [htracker]
  · rw [htracker]
    exact .inl rfl
  · intro hcandidate
    rw [hmembership]
    exact ⟨hstate.symm.trans hcandidate, rfl⟩
  · intro hleader
    exact ⟨hstate.symm.trans hleader, hterm⟩

theorem stays_commitMembershipChangeIfPending {node : RaftNode T} (k : ℕ)
    (h : node.state = .leader) : node.Stays (node.commitMembershipChangeIfPending k) := by
  have hne : node.state ≠ .candidate := by
    rw [h]
    decide
  unfold commitMembershipChangeIfPending
  cases node.membership.pendingChange with
  | none => exact .refl node
  | some pending =>
    dsimp only
    split_ifs
    · exact .of_follower rfl rfl (.inl rfl) rfl
    · exact .of_leader rfl rfl rfl hne h
    · exact .refl node

instance : HandlerFrame (Stays (T := T)) where
  refl := Stays.refl
  trans := Stays.trans
  of_eq := Stays.of_eq
  of_follower := Stays.of_follower
  of_commit := stays_commitMembershipChangeIfPending

theorem state_of_checkMembershipChange {node : RaftNode T} {change : MembershipChange}
    (h : node.checkMembershipChange change = none) : node.state = .leader := by
  by_contra hstate
  unfold checkMembershipChange at h
  rw [if_pos hstate] at h
  cases h

theorem stays_proposeMembershipChange (node : RaftNode T) (change : MembershipChange)
    (noopCommand : T) : node.Stays (node.proposeMembershipChange change noopCommand).2 := by
  unfold proposeMembershipChange
  split
  · exact .refl node
  · next hcheck =>
    have hstate := state_of_checkMembershipChange hcheck
    have hne : (node.applyMembershipChange change noopCommand).state ≠ .candidate := by
      have hkeep : (node.applyMembershipChange change noopCommand).state = node.state := rfl
      rw [hkeep, hstate]
      decide
    refine Stays.trans ?_
      (node.applyMembershipChange change noopCommand).sendAppendEntriesToAll_sends.frame
    exact .of_leader rfl rfl rfl hne hstate

end RaftNode

open RaftNode
/-! ## Elections -/

section Elections

variable {node : RaftNode T}

namespace RaftNode

theorem ElectionInv.stays {node' : RaftNode T} (h : node.ElectionInv) (hstays : node.Stays node') :
    node'.ElectionInv := by
  have hid : node'.nodeId = node.nodeId := congrArg RaftConfig.nodeId hstays.config
  refine ⟨?_, ?_, ?_⟩
  · rw [hstays.clusterSize, hid, hstays.config]
    exact h.clusterSize
  · rcases hstays.votes with heq | hnil
    · rw [heq]
      exact h.nodup
    · rw [hnil]
      exact .nil
  · intro hstate
    obtain ⟨hcandidate, hmembers⟩ := hstays.candidate hstate
    obtain ⟨hvoters, hconfigured⟩ := h.elects hcandidate
    constructor
    · rw [hmembers]
      rcases hstays.votes with heq | hnil
      · rw [heq]
        exact hvoters
      · rw [hnil]
        intro v hv
        cases hv
    · rw [hmembers, hid, hstays.config]
      exact hconfigured

theorem Stays.not_enters {node' : RaftNode T} (h : node.Stays node') : ¬ node.Enters node' := by
  rintro ⟨hleader, hnew⟩
  obtain ⟨hstate, hterm⟩ := h.leader hleader
  rcases hnew with hne | hlt
  · exact hne hstate
  · omega

theorem becomeLeader_sends (node : RaftNode T) :
    node.lead.Sends (fun _ _ => True) node.becomeLeader :=
  node.lead.sendAppendEntriesToAll_sends.mono fun _ _ _ => trivial

/-- **Deciding an election**: a candidate whose votes reach the quorum has the majority. -/
theorem ElectionInv.becomeLeader (h : node.ElectionInv) (hstate : node.state = .candidate)
    (hquorum : node.electionTracker.hasQuorum) :
    node.becomeLeader.ElectionInv ∧ node.becomeLeader.MajorityVoted := by
  have hmajority := (h.elects hstate).majorityVoted h.clusterSize h.nodup hquorum
  obtain ⟨out, heq, -⟩ := node.becomeLeader_sends
  rw [heq]
  refine ⟨⟨h.clusterSize, h.nodup, ?_⟩, hmajority⟩
  intro hcandidate
  cases hcandidate

theorem foldl_send (msg : RaftMessage T) (peers : List NodeId) (node : RaftNode T) :
    peers.foldl (fun node' peer => node'.send peer msg) node =
      { node with outbound := node.outbound ++ peers.map fun peer => (peer, msg) } := by
  induction peers generalizing node with
  | nil => simp
  | cons peer peers ih =>
    rw [List.foldl_cons, ih]
    simp [send]

/-- **Starting an election**: the candidate has only its own vote. Where that decides the election
there is nobody else to ask, and otherwise everybody else is asked. -/
theorem ElectionInv.requestVotes (h : node.ElectionInv) (hstate : node.state = .candidate)
    (hvotes : node.electionTracker.votes = [node.nodeId]) :
    node.requestVotes.ElectionInv ∧
    (node.requestVotes.state = .leader → node.requestVotes.MajorityVoted) ∧
    ∀ p ∈ node.requestVotes.membership.members, p ≠ node.requestVotes.nodeId →
      (p, .requestVote node.requestVotes.voteRequest) ∈
        node.requestVotes.outbound.drop node.outbound.length := by
  have helects := h.elects hstate
  unfold RaftNode.requestVotes
  split_ifs with hquorum
  · obtain ⟨hinv, hmajority⟩ := h.becomeLeader hstate hquorum
    refine ⟨hinv, fun _ => hmajority, ?_⟩
    obtain ⟨out, heq, -⟩ := node.becomeLeader_sends
    rw [heq] at hmajority ⊢
    -- one vote is a majority of at most one member
    have hself : node.nodeId ∈ node.membership.members := by
      apply helects.voters
      rw [hvotes]
      exact List.mem_singleton_self node.nodeId
    have hone : node.membership.members.toFinset.card < 2 * 1 := by
      refine lt_of_lt_of_le hmajority (Nat.mul_le_mul_left 2 ?_)
      refine (Finset.card_le_card Finset.inter_subset_left).trans ?_
      have hlead : node.lead.electionTracker.votes = [node.nodeId] := hvotes
      rw [hlead]
      exact List.toFinset_card_le _
    intro p hp hne
    have hp' : p ∈ node.membership.members.toFinset := List.mem_toFinset.mpr hp
    have hself' : node.nodeId ∈ node.membership.members.toFinset := List.mem_toFinset.mpr hself
    exact absurd (Finset.card_le_one.mp (by omega) p hp' node.nodeId hself') hne
  · rw [foldl_send]
    refine ⟨⟨h.clusterSize, h.nodup, fun _ => ⟨helects.voters, helects.configured⟩⟩, ?_, ?_⟩
    · intro hleader
      exact absurd (hstate.symm.trans hleader) (by decide)
    · intro p hp hne
      have hpeer : p ∈ node.config.peers := (helects.configured p hp).resolve_left hne
      simp only [List.drop_left]
      exact List.mem_map_of_mem hpeer

/-- **Counting a vote**: of a member, if it is counted at all. -/
theorem ElectionInv.countVote {sender : NodeId} {resp : RequestVoteResponse} (h : node.ElectionInv)
    (hsender : node.state = .candidate → resp.voteGranted = true →
      sender ∈ node.membership.members) :
    (node.countVote sender resp).ElectionInv ∧
    (node.Enters (node.countVote sender resp) → (node.countVote sender resp).MajorityVoted) := by
  have hunchanged : ¬ node.Enters node := (Stays.refl node).not_enters
  unfold RaftNode.countVote
  by_cases hstate : node.state = .candidate
  swap
  · rw [if_pos hstate]
    exact ⟨h, fun henters => absurd henters hunchanged⟩
  rw [if_neg (not_not.mpr hstate)]
  by_cases hgranted : resp.voteGranted = true
  swap
  · rw [if_neg hgranted]
    exact ⟨h, fun henters => absurd henters hunchanged⟩
  rw [if_pos hgranted]
  dsimp only
  -- the vote is one of a member, whether it decides the election or not
  have hinv : ElectionInv
      { node with electionTracker := node.electionTracker.recordVote sender } := by
    refine ⟨h.clusterSize, h.nodup.insert, fun _ => ⟨?_, (h.elects hstate).configured⟩⟩
    intro v hv
    rcases List.mem_insert_iff.mp hv with rfl | hv
    · exact hsender hstate hgranted
    · exact (h.elects hstate).voters v hv
  split_ifs with hquorum
  · obtain ⟨hlead, hmajority⟩ := hinv.becomeLeader hstate hquorum
    exact ⟨hlead, fun _ => hmajority⟩
  · refine ⟨hinv, ?_⟩
    rintro ⟨hleader, -⟩
    exact absurd (hstate.symm.trans hleader) (by decide)

theorem ElectionInv.campaign (h : node.ElectionInv)
    (hself : node.nodeId ∈ node.membership.members)
    (hpeers : ∀ p ∈ node.membership.members, p ≠ node.nodeId → p ∈ node.config.peers) :
    node.campaign.ElectionInv := by
  refine ⟨h.clusterSize, List.nodup_singleton node.nodeId, fun _ => ⟨?_, ?_⟩⟩
  · intro v hv
    rw [List.mem_singleton.mp hv]
    exact hself
  · intro p hp
    by_cases hp' : p = node.nodeId
    · exact .inl hp'
    · exact .inr (hpeers p hp hp')

end RaftNode

theorem startElection_elects (h : node.campaign.ElectionInv) :
    wp startElection
      (fun _ node' => node'.ElectionInv ∧ (node'.state = .leader → node'.MajorityVoted) ∧
        ∀ p ∈ node'.membership.members, p ≠ node'.nodeId →
          (p, .requestVote node'.voteRequest) ∈ node'.outbound.drop node.outbound.length)
      (fun _ node' => node'.ElectionInv ∧ node'.state ≠ .leader) node := by
  unfold startElection
  rw [wp_bind, wp_modify, wp_bind, wp_get, wp_bind]
  -- a failing write leaves a candidate that asks nobody
  have hstored : ∀ storage : Storage T,
      ElectionInv { node.campaign with storage := storage } := fun storage =>
    h.stays (.of_eq rfl rfl rfl rfl rfl)
  have hcandidate : RaftState.candidate ≠ .leader := by decide
  apply wp_write
  · intro rest
    rw [wp_bind]
    apply wp_write
    · intro rest'
      rw [wp_modify]
      exact ElectionInv.requestVotes (hstored _) rfl rfl
    · intro e rest'
      exact ⟨hstored _, hcandidate⟩
  · intro e rest
    exact ⟨hstored _, hcandidate⟩

theorem handleRequestVoteResponse_elects (sender : NodeId) (resp : RequestVoteResponse)
    (h : node.ElectionInv) (hsender : node.counts resp → sender ∈ node.membership.members) :
    wp (handleRequestVoteResponse sender resp)
      (fun _ node' => node'.ElectionInv ∧ (node.Enters node' → node'.MajorityVoted))
      (fun _ node' => node'.ElectionInv ∧ (node.Enters node' → node'.MajorityVoted)) node := by
  unfold handleRequestVoteResponse
  rw [wp_bind]
  have hstays : ∀ {node' : RaftNode T}, node.Stays node' →
      node'.ElectionInv ∧ (node.Enters node' → node'.MajorityVoted) := fun hstays =>
    ⟨h.stays hstays, fun henters => absurd henters hstays.not_enters⟩
  rcases Nat.lt_or_ge node.currentTerm resp.term with hterm | hterm
  · refine wp_mono ?_ (fun _ _ hdown => hstays hdown.1) (handleTermUpdate_follower (R := Stays) hterm)
    rintro _ node' ⟨hdown, hfollower⟩
    have hne : node'.state ≠ .candidate := by
      rw [hfollower]
      decide
    have hkeep : node'.countVote sender resp = node' := if_pos hne
    rw [wp_modify, hkeep]
    exact hstays hdown
  · rw [wp_handleTermUpdate_of_le hterm, wp_modify]
    exact h.countVote fun hstate hgranted => hsender ⟨hstate, hgranted, hterm⟩

end Elections

/-! ## Runs -/

namespace RaftNode

theorem electionInv_new (config : RaftConfig) (storage : Storage T) :
    (RaftNode.new config storage).ElectionInv where
  clusterSize := rfl
  nodup := .nil
  elects hstate := by cases hstate

end RaftNode

section Runs

variable [StateMachine T M]

namespace NodeRun

theorem FollowsMembership.of_majority {r : NodeRun T M} {e : NodeEvent T M}
    (he : ∀ i outcomes, e ≠ .call (.startElection i) outcomes)
    (h : r.driver.node.Enters ((system T M).step r e).driver.node →
      ((system T M).step r e).driver.node.MajorityVoted) : r.FollowsMembership e where
  majority := h
  requests i outcomes _ heq := absurd heq (he i outcomes)

theorem FollowsMembership.of_stays {r : NodeRun T M} {e : NodeEvent T M}
    (he : ∀ i outcomes, e ≠ .call (.startElection i) outcomes)
    (h : r.driver.node.Stays ((system T M).step r e).driver.node) : r.FollowsMembership e :=
  .of_majority he fun henters => absurd henters h.not_enters

theorem settled_startElection {r : NodeRun T M} {i : NodeId}
    {outcomes : List (Option StorageError)} (h : r.driver.node.ElectionInv)
    (hok : (NodeEvent.call (.startElection i) outcomes).Settled r) :
    ((system T M).step r (.call (.startElection i) outcomes)).driver.node.ElectionInv ∧
      r.FollowsMembership (.call (.startElection i) outcomes) := by
  have hexpecting : (r.driver.expecting outcomes).node.ElectionInv :=
    h.stays (.of_eq rfl rfl rfl rfl rfl)
  have hwp := startElection_elects (hexpecting.campaign hok.1 hok.2)
  have hstep : ((system T M).step r (.call (.startElection i) outcomes)).driver =
      (r.driver.expecting outcomes).after startElection := rfl
  rw [hstep]
  unfold RaftDriver.after
  cases hrun : startElection.run (r.driver.expecting outcomes).node with
  | ok a node' =>
    obtain ⟨hinv, hmajority, hasked⟩ := wp_ok hwp hrun
    refine ⟨hinv, ⟨?_, ?_⟩⟩
    · rw [hstep]
      unfold RaftDriver.after
      rw [hrun]
      exact fun henters => hmajority henters.1
    · rintro _ _ node'' ⟨rfl, rfl⟩ hrun'
      rw [hrun] at hrun'
      cases hrun'
      exact hasked
  | error e node' =>
    obtain ⟨hinv, hne⟩ := wp_error hwp hrun
    refine ⟨hinv, ⟨?_, ?_⟩⟩
    · rw [hstep]
      unfold RaftDriver.after
      rw [hrun]
      exact fun henters => absurd henters.1 hne
    · rintro _ _ node'' ⟨rfl, rfl⟩ hrun'
      rw [hrun] at hrun'
      cases hrun'

theorem settled_requestVoteResponse {r : NodeRun T M} {src dst : NodeId}
    {resp : RequestVoteResponse} {outcomes : List (Option StorageError)}
    (h : r.driver.node.ElectionInv)
    (hok : (NodeEvent.call (.deliver src dst (.requestVoteResponse resp)) outcomes).Settled r) :
    let r' := (system T M).step r (.call (.deliver src dst (.requestVoteResponse resp)) outcomes)
    r'.driver.node.ElectionInv ∧
      (r.driver.node.Enters r'.driver.node → r'.driver.node.MajorityVoted) := by
  have hexpecting : (r.driver.expecting outcomes).node.ElectionInv :=
    h.stays (.of_eq rfl rfl rfl rfl rfl)
  have hwp := handleRequestVoteResponse_elects src resp hexpecting hok
  exact RaftDriver.after_wp (P := fun node' =>
    node'.ElectionInv ∧ (r.driver.node.Enters node' → node'.MajorityVoted)) hwp

/-- **Step lemma**: a settled step keeps the invariant and follows the membership. -/
theorem settled_step {r : NodeRun T M} {e : NodeEvent T M} (h : r.driver.node.ElectionInv)
    (hok : e.Settled r) :
    ((system T M).step r e).driver.node.ElectionInv ∧ r.FollowsMembership e := by
  cases e with
  | propose change noopCommand =>
    have hstays := stays_proposeMembershipChange r.driver.node change noopCommand
    refine ⟨h.stays hstays, .of_stays ?_ hstays⟩
    intro i outcomes he
    cases he
  | restart stateMachine =>
    refine ⟨electionInv_new _ _, .of_majority ?_ ?_⟩
    · intro i outcomes he
      cases he
    · rintro ⟨hleader, -⟩
      cases hleader
  | call e outcomes =>
    cases helection : e.isElection with
    | false =>
      have hsame : r.driver.node.Stays (r.driver.expecting outcomes).node :=
        .of_eq rfl rfl rfl rfl rfl
      have hstays : r.driver.node.Stays (e.act (r.driver.expecting outcomes)).node :=
        hsame.trans (Event.frame_act helection)
      refine ⟨h.stays hstays, .of_stays ?_ hstays⟩
      intro i outcomes' he
      cases he
      cases helection
    | true =>
      rcases Event.isElection_cases helection with ⟨i, rfl⟩ | ⟨src, dst, resp, rfl⟩
      · exact settled_startElection h hok
      · obtain ⟨hinv, hmajority⟩ := settled_requestVoteResponse h hok
        refine ⟨hinv, .of_majority ?_ hmajority⟩
        intro i outcomes' he
        cases he

end NodeRun

/-- **The quorum follows the membership** in every run whose elections start among configured
members and count their votes only: whatever is proposed, committed, rolled back, lost or
restarted. -/
theorem election_follows_membership {config : RaftConfig} {disk : Disk T} {sm : M}
    {r : NodeRun T M} {e : NodeEvent T M}
    (hrun : (NodeRun.system T M).Steps (fun r e => e.Settled r) (.initial config disk sm) r)
    (hok : e.Settled r) : r.FollowsMembership e := by
  have hinv : r.driver.node.ElectionInv :=
    hrun.invariant (fun _ _ _ hok h => (NodeRun.settled_step h hok).1) (electionInv_new _ _)
  exact (NodeRun.settled_step hinv hok).2

end Runs

/-! ## One node of three, and one alone -/

section Examples

instance (r : NodeRun ℕ Unit) : ∀ e : NodeEvent ℕ Unit, Decidable (e.Settled r)
  | .call (.startElection _) _ => inferInstanceAs (Decidable (_ ∧ _))
  | .call (.deliver _ _ (.requestVoteResponse _)) _ => inferInstanceAs (Decidable (_ → _))
  | .call (.deliver _ _ (.requestVote _)) _ | .call (.deliver _ _ (.appendEntries _)) _
  | .call (.deliver _ _ (.appendEntriesResponse _)) _
  | .call (.deliver _ _ (.installSnapshot _)) _
  | .call (.deliver _ _ (.installSnapshotResponse _)) _
  | .call (.clientRequest _ _) _ | .call (.replicateToPeer _ _) _
  | .call (.advanceCommitIndex _) _ | .call (.applyCommitted _) _ | .call (.createSnapshot _) _
  | .propose _ _ | .restart _ => .isTrue trivial

/-- Node 1 of three is elected with the vote of node 2, commits a command and removes node 3. When
the change is committed it learns of a later term, and stands for election again. -/
def removedServer : List (NodeEvent ℕ Unit) :=
  [.call (.startElection 1) [], .call (.deliver 2 1 (.requestVoteResponse ⟨1, true⟩)) [],
    .call (.clientRequest 1 10) [], .call (.deliver 2 1 (.appendEntriesResponse ⟨1, true, 1⟩)) [],
    .propose (.removeServer 3) 0, .call (.deliver 2 1 (.appendEntriesResponse ⟨1, true, 2⟩)) [],
    .call (.deliver 3 1 (.requestVoteResponse ⟨2, false⟩)) [], .call (.startElection 1) []]

/-- The vote of node 2 elects it again, which makes two of the two members. -/
theorem election_follows_membership_three :
    let r := (NodeRun.system ℕ Unit).exec oneVoter removedServer
    let vote := NodeEvent.call (.deliver 2 1 (.requestVoteResponse ⟨3, true⟩)) []
    let r' := (NodeRun.system ℕ Unit).step r vote
    r.driver.node.membership.members = [2, 1] ∧ r.FollowsMembership vote ∧
      r.driver.node.Enters r'.driver.node ∧ r'.driver.node.MajorityVoted := by
  intro r vote r'
  have hlegal : System.Legal (NodeRun.system ℕ Unit) (fun r e => e.Settled r) oneVoter removedServer := by
    decide
  have hfollows := election_follows_membership (e := vote) hlegal.steps (by decide)
  have henters : r.driver.node.Enters r'.driver.node := by decide
  exact ⟨by decide, hfollows, henters, hfollows.majority henters⟩

/-- A node alone is elected, commits a command and adds server 2. When the change is committed it
loses its leadership to a higher term. -/
def addedServer : List (NodeEvent ℕ Unit) :=
  [.call (.startElection 1) [], .call (.clientRequest 1 10) [], .call (.advanceCommitIndex 1) [],
    .propose (.addServer 2) 0,
    .call (.deliver 2 1 (.appendEntriesResponse ⟨1, true, 2⟩)) [],
    .call (.deliver 2 1 (.requestVoteResponse ⟨2, false⟩)) []]

/-- Its next election still counts votes against a cluster of one: it elects itself without the vote
of the other member, and does not ask for it. -/
theorem added_server_outvoted :
    ¬ ∀ (config : RaftConfig) (r : NodeRun ℕ Unit) (e : NodeEvent ℕ Unit),
      (NodeRun.system ℕ Unit).Steps System.Free (.initial config {} ()) r →
      r.FollowsMembership e := by
  intro h
  let alone : NodeRun ℕ Unit := .initial { nodeId := 1, peers := [] } {} ()
  have hlegal : System.Legal (NodeRun.system ℕ Unit) System.Free alone addedServer := by decide
  have hfollows := h _ _ (.call (.startElection 1) []) hlegal.steps
  exact absurd (hfollows.majority (by decide)) (by decide)

end Examples

end Pirc.Raft
