import Pirc.Raft.ElectionQuorum
import Pirc.Raft.Health

/-!
# Raft: who monitors the members

`raft/driver.rs`, the event loop around a node: a leader is to have a health monitor for all other
members, and nobody else is to have one. The loop starts and stops the monitor where a message from
another node made or unmade a leader, and nowhere else. The channels between the loop and its handle
are not modelled, nor are the election timer and the shutdown.
-/

namespace Pirc.Raft

variable {T M : Type}

/-! ## The event loop -/

/-- A driver with its health monitor; `peerStatus` is what was last published of it. -/
structure MonitoredDriver (T M : Type) where
  driver : RaftDriver T M
  healthMonitor : Option NodeHealthMonitor := none
  peerStatus : List (NodeId × PeerStatus) := []
  healthConfig : HealthConfig

/-- What the loop waits for. The time is read where the monitor looks at it. -/
inductive DriverEvent (T : Type)
  | electionTimeout
  | heartbeatTick (now : ℕ)
  | inbound (sender : NodeId) (msg : RaftMessage T) (now : ℕ)
  | proposal (command : T)
  | membershipProposal (change : MembershipChange) (noopCommand : T)
  deriving DecidableEq

namespace MonitoredDriver

variable [StateMachine T M]

def node (d : MonitoredDriver T M) : RaftNode T := d.driver.node

def peers (d : MonitoredDriver T M) : List NodeId := d.node.membership.peers d.node.nodeId

def handleElectionTimeout (d : MonitoredDriver T M) : MonitoredDriver T M :=
  { d with driver := d.driver.after startElection }

def handleHeartbeatTick (d : MonitoredDriver T M) (now : ℕ) : MonitoredDriver T M :=
  let d := { d with driver := { d.driver with node := d.driver.node.sendAppendEntriesToAll } }
  match d.healthMonitor with
  | none => d
  | some monitor =>
    let monitor := monitor.evaluate now
    if monitor.dirty then
      { d with
        healthMonitor := some monitor.clearDirty
        peerStatus := monitor.peers.entries.map fun peer => (peer.1, peer.2.status) }
    else { d with healthMonitor := some monitor }

/-- Any answer to an `AppendEntries` or a snapshot proves that the peer is alive. -/
def handleInboundMessage (d : MonitoredDriver T M) (sender : NodeId) (msg : RaftMessage T)
    (now : ℕ) : MonitoredDriver T M :=
  let d := { d with driver := d.driver.handleInboundMessage sender msg }
  match msg with
  | .appendEntriesResponse _ | .installSnapshotResponse _ =>
    { d with healthMonitor := d.healthMonitor.map (·.recordResponse sender now) }
  | _ => d

def startHealthMonitor (d : MonitoredDriver T M) (now : ℕ) : MonitoredDriver T M :=
  { d with healthMonitor := some (.new d.peers d.healthConfig now) }

def stopHealthMonitor (d : MonitoredDriver T M) : MonitoredDriver T M :=
  if d.healthMonitor.isSome then { d with healthMonitor := none, peerStatus := [] } else d

def handleProposal (d : MonitoredDriver T M) (command : T) : MonitoredDriver T M :=
  match d.node.clientRequest command with
  | (some _, node) => { d with driver := { d.driver with node := node.advanceCommitIndex } }
  | (none, _) => d

def handleMembershipProposal (d : MonitoredDriver T M) (change : MembershipChange)
    (noopCommand : T) : MonitoredDriver T M :=
  { d with driver := (d.driver.handleMembershipProposal change noopCommand).2 }

/-- The branch of the loop for an event; the monitor is started and stopped in one of them. -/
def react (d : MonitoredDriver T M) : DriverEvent T → MonitoredDriver T M
  | .electionTimeout => d.handleElectionTimeout
  | .heartbeatTick now => d.handleHeartbeatTick now
  | .inbound sender msg now =>
    let d' := d.handleInboundMessage sender msg now
    if d.node.state ≠ .leader ∧ d'.node.state = .leader then d'.startHealthMonitor now
    else if d.node.state = .leader ∧ d'.node.state ≠ .leader then d'.stopHealthMonitor
    else d'
  | .proposal command => d.handleProposal command
  | .membershipProposal change noopCommand => d.handleMembershipProposal change noopCommand

/-- What every turn ends with: committed entries are applied, and a long log is compacted. -/
def finishTurn (d : MonitoredDriver T M) : MonitoredDriver T M :=
  let driver := d.driver.applyCommittedEntries
  let driver :=
    if driver.node.shouldSnapshot then driver.after (createSnapshot driver.stateMachine) else driver
  { d with driver := driver }

def handle (d : MonitoredDriver T M) (e : DriverEvent T) : MonitoredDriver T M :=
  (d.react e).finishTurn

/-- A driver just built on existing storage. -/
def build (config : RaftConfig) (disk : Disk T) (stateMachine : M) (heartbeatInterval : ℕ) :
    MonitoredDriver T M where
  driver := .build config disk stateMachine
  healthConfig := .fromHeartbeatInterval heartbeatInterval

/-- The runs of a driver: an event with the outcomes of its writes. Timeouts are for others than
leaders and heartbeats for leaders; any message may arrive at any time. -/
def system (T M : Type) [StateMachine T M] :
    System (MonitoredDriver T M) (DriverEvent T × List (Option StorageError)) where
  enabled d e :=
    match e.1 with
    | .electionTimeout => d.node.state ≠ .leader
    | .heartbeatTick _ => d.node.state = .leader
    | _ => True
  step d e := { d with driver := d.driver.expecting e.2 }.handle e.1

instance (d : MonitoredDriver T M) : ∀ e, Decidable ((system T M).enabled d e)
  | (.electionTimeout, _) => inferInstanceAs (Decidable (_ ≠ _))
  | (.heartbeatTick _, _) => inferInstanceAs (Decidable (_ = _))
  | (.inbound _ _ _, _) | (.proposal _, _) | (.membershipProposal _ _, _) => .isTrue trivial

end MonitoredDriver

/-! ## Monitored drivers -/

def MonitorsExactly (monitor : Option NodeHealthMonitor) (p : NodeId → Prop) : Prop :=
  ∃ m, monitor = some m ∧ ∀ peer, m.Tracks peer ↔ p peer

/-- **The leader monitors exactly the other members**, if there are any; nobody else monitors. -/
structure Monitored [StateMachine T M] (d : MonitoredDriver T M) : Prop where
  leader : d.node.state = .leader → d.peers ≠ [] →
    MonitorsExactly d.healthMonitor (· ∈ d.peers)
  other : d.node.state ≠ .leader → d.healthMonitor = none

/-- A leader for whose commit scan the removal of itself is due: a quorum of the others has it. -/
def RaftNode.CommitsOwnRemoval (node : RaftNode T) : Prop :=
  ∃ pending ∈ node.membership.pendingChange, pending.change = .removeServer node.nodeId ∧
    ∃ leader ∈ node.leaderState,
      let newCommit := scanCommit node.log node.currentTerm node.quorumSize
        node.volatile.commitIndex (leader.matchIndex.entries.map Sigma.snd) node.log.lastIndex
      node.volatile.commitIndex < newCommit ∧ pending.index ≤ newCommit

instance (node : RaftNode T) : Decidable node.CommitsOwnRemoval :=
  inferInstanceAs (Decidable (∃ _ ∈ _, _ ∧ ∃ _ ∈ _, _))

namespace MonitoredDriver

variable [StateMachine T M]

/-- **What the loop can cope with.** A timeout does not make a leader of a node that has other
members; a leader adds or removes other servers only where its monitor happens to fit afterwards;
and it does not commit the removal of itself while it has a monitor, unless an answer does it. -/
def KeepsTrack (d : MonitoredDriver T M) (e : DriverEvent T × List (Option StorageError)) : Prop :=
  match e.1 with
  | .electionTimeout =>
    -- a node configured without peers elects itself, if its two writes succeed
    d.node.electionTracker.clusterSize < 2 → (∀ outcome ∈ e.2.take 2, outcome = none) → d.peers = []
  | .heartbeatTick _ | .inbound _ _ _ => True
  | .proposal command =>
    d.node.state = .leader → (d.node.appendCommand command).CommitsOwnRemoval →
      d.healthMonitor = none
  | .membershipProposal change noopCommand =>
    d.node.checkMembershipChange change = none →
      match change with
      | .addServer peer =>
        peer ≠ d.node.nodeId → MonitorsExactly d.healthMonitor fun p => p = peer ∨ p ∈ d.peers
      | .removeServer peer =>
        if peer = d.node.nodeId then
          (d.node.applyMembershipChange change noopCommand).CommitsOwnRemoval →
            d.healthMonitor = none
        else ∀ p ∈ d.peers, p = peer

end MonitoredDriver

/-! ## The frame of a leader -/

namespace RaftNode

def standing (node : RaftNode T) : RaftConfig × RaftState × ClusterMembership :=
  (node.config, node.state, node.membership)

/-- What a node that leads can count on: as long as it leads, its members are the same; and it does
not become a candidate. -/
structure Reigns (node node' : RaftNode T) : Prop where
  config : node'.config = node.config
  leader : node'.state = .leader →
    node.state = .leader ∧ node'.membership.members = node.membership.members
  candidate : node'.state = .candidate → node.state = .candidate

theorem members_commitChange (m : ClusterMembership) : m.commitChange.members = m.members := by
  unfold ClusterMembership.commitChange
  cases m.pendingChange with
  | none => rfl
  | some pending => rfl

theorem Reigns.of_follower {node node' : RaftNode T} (hconfig : node'.config = node.config)
    (hstate : node'.state = .follower) : node.Reigns node' := by
  refine ⟨hconfig, ?_, ?_⟩
  · intro hleader
    rw [hstate] at hleader
    cases hleader
  · intro hcandidate
    rw [hstate] at hcandidate
    cases hcandidate

theorem reigns_commitMembershipChangeIfPending {node : RaftNode T} (k : ℕ)
    (h : node.state = .leader) : node.Reigns (node.commitMembershipChangeIfPending k) := by
  have hkeep : ∀ node' : RaftNode T, node'.config = node.config → node'.state = node.state →
      node'.membership.members = node.membership.members → node.Reigns node' := by
    intro node' hconfig hstate hmembers
    exact ⟨hconfig, fun _ => ⟨h, hmembers⟩, fun hcandidate => hstate.symm.trans hcandidate⟩
  unfold commitMembershipChangeIfPending
  cases node.membership.pendingChange with
  | none => exact hkeep node rfl rfl rfl
  | some pending =>
    dsimp only
    split_ifs
    · exact .of_follower rfl rfl
    · exact hkeep _ rfl rfl (members_commitChange node.membership)
    · exact hkeep node rfl rfl rfl

instance : HandlerFrame (Reigns (T := T)) where
  refl _ := ⟨rfl, fun h => ⟨h, rfl⟩, fun h => h⟩
  trans h₁ h₂ :=
    { config := h₂.config.trans h₁.config
      leader := fun hstate =>
        have h₂' := h₂.leader hstate
        have h₁' := h₁.leader h₂'.1
        ⟨h₁'.1, h₂'.2.trans h₁'.2⟩
      candidate := fun hstate => h₁.candidate (h₂.candidate hstate) }
  of_eq hconfig _ hstate hmembership _ :=
    { config := hconfig
      leader := fun hleader => ⟨hstate.symm.trans hleader, congrArg _ hmembership⟩
      candidate := fun hcandidate => hstate.symm.trans hcandidate }
  of_follower hconfig _ _ hstate := .of_follower hconfig hstate
  of_commit := reigns_commitMembershipChangeIfPending

theorem reigns_handleRequestVoteResponse {node : RaftNode T} (h : node.state = .leader)
    (sender : NodeId) (resp : RequestVoteResponse) :
    wp (handleRequestVoteResponse sender resp) (fun _ node' => node.Reigns node')
      (fun _ node' => node.Reigns node') node := by
  unfold handleRequestVoteResponse
  rw [wp_bind]
  refine wp_mono ?_ (fun _ _ hseen => hseen) (frame_handleTermUpdate resp.term node)
  intro _ node' hseen
  have hstate : node'.state ≠ .candidate := by
    intro hcandidate
    rw [hseen.candidate hcandidate] at h
    cases h
  have hkeep : node'.countVote sender resp = node' := if_pos hstate
  rw [wp_modify, hkeep]
  exact hseen

end RaftNode

section Frames

variable [StateMachine T M]

/-- **A leader that stays one keeps its members**, whatever message arrives. -/
theorem RaftDriver.reigns_handleInboundMessage {d : RaftDriver T M} (h : d.node.state = .leader)
    (sender : NodeId) (msg : RaftMessage T) :
    d.node.Reigns (d.handleInboundMessage sender msg).node := by
  cases helection : (Event.deliver sender d.node.nodeId msg).isElection with
  | false => exact Event.frame_act helection
  | true =>
    rcases Event.isElection_cases helection with ⟨i, heq⟩ | ⟨src, dst, resp, heq⟩
    · cases heq
    · cases heq
      have hwp := RaftNode.reigns_handleRequestVoteResponse h sender resp
      exact RaftDriver.after_wp (P := RaftNode.Reigns d.node) hwp

theorem unchanged_createSnapshot (sm : M) :
    Within (Unchanged (RaftNode.standing (T := T))) (createSnapshot sm) := by
  unfold createSnapshot
  apply within_get
  intro node
  dsimp only
  rw [wp_ite]
  split_ifs
  · exact rfl
  · exact rfl
  · rw [wp_bind, wp_asSnapshotError]
    apply wp_write
    · intro rest
      exact rfl
    · intro e rest
      exact rfl

end Frames

/-! ## Elections and commits -/

namespace RaftNode

theorem startElection_outcomes (node : RaftNode T) :
    ∃ storage : Storage T,
      if ∀ outcome ∈ node.storage.outcomes.take 2, outcome = none then
        startElection.run node = .ok () { node.campaign with storage := storage }.requestVotes
      else ∃ e, startElection.run node = .error e { node.campaign with storage := storage } := by
  rcases houtcomes : node.storage.outcomes with - | ⟨- | e, - | ⟨- | e', rest⟩⟩
  all_goals simp [startElection, Storage.saveTerm, Storage.saveVotedFor, Storage.write, campaign,
    houtcomes]
  -- the three lists whose first two writes succeed
  all_goals exact ⟨_, rfl⟩

theorem requestVotes_leads (node : RaftNode T) (h : node.state = .candidate) :
    node.requestVotes.config = node.config ∧ node.requestVotes.membership = node.membership ∧
      (node.requestVotes.state = .leader ↔ node.electionTracker.hasQuorum) := by
  unfold requestVotes
  split_ifs with hquorum
  · obtain ⟨out, heq, -⟩ := node.becomeLeader_sends
    rw [heq]
    exact ⟨rfl, rfl, iff_of_true rfl hquorum⟩
  · rw [foldl_send]
    refine ⟨rfl, rfl, iff_of_false ?_ hquorum⟩
    intro hleader
    exact absurd (h.symm.trans hleader) (by decide)

theorem hasQuorum_campaign (node : RaftNode T) :
    node.campaign.electionTracker.hasQuorum ↔ node.electionTracker.clusterSize < 2 := by
  have hvotes : node.campaign.electionTracker.votes.length = 1 := rfl
  have hsize : node.campaign.electionTracker.clusterSize = node.electionTracker.clusterSize := rfl
  unfold ElectionTracker.hasQuorum ElectionTracker.quorumSize
  rw [hvotes, hsize, decide_eq_true_eq]
  omega

theorem commitMembershipChangeIfPending_leads {node : RaftNode T} (h : node.state = .leader)
    (k : ℕ) : (node.commitMembershipChangeIfPending k).state = .leader ↔
      ∀ pending ∈ node.membership.pendingChange, pending.change = .removeServer node.nodeId →
        ¬ pending.index ≤ k := by
  unfold commitMembershipChangeIfPending
  cases hpending : node.membership.pendingChange with
  | none => simp [h]
  | some pending =>
    dsimp only
    split_ifs with hindex hown
    · -- `hown` is about the node with its membership committed already
      have hown' : pending.change = .removeServer node.nodeId := hown
      simp [hown', hindex]
    · have hother : pending.change ≠ .removeServer node.nodeId := hown
      simp [h, hother]
    · have hlater : k < pending.index := Nat.lt_of_not_le hindex
      simp [h, hlater]

/-- **A commit unmakes a leader** exactly if it is due to commit the leader's own removal. -/
theorem advanceCommitIndex_leads {node : RaftNode T} (h : node.state = .leader) :
    node.advanceCommitIndex.state = .leader ↔ ¬ node.CommitsOwnRemoval := by
  unfold advanceCommitIndex CommitsOwnRemoval
  rw [if_neg (not_not.mpr h)]
  cases node.leaderState with
  | none => simp [h]
  | some leader =>
    dsimp only
    split_ifs with hcommit
    · refine (commitMembershipChangeIfPending_leads ?_ _).trans ?_
      · exact h
      · simp [hcommit, nodeId]
    · simp [h, hcommit]

theorem not_commitsOwnRemoval_add (node : RaftNode T) {peer : NodeId} {noopCommand : T} :
    ¬ (node.applyMembershipChange (.addServer peer) noopCommand).CommitsOwnRemoval := by
  rintro ⟨pending, hpending, hchange, -⟩
  cases hpending
  cases hchange

theorem not_commitsOwnRemoval_remove (node : RaftNode T) {peer : NodeId} {noopCommand : T}
    (h : peer ≠ node.nodeId) :
    ¬ (node.applyMembershipChange (.removeServer peer) noopCommand).CommitsOwnRemoval := by
  rintro ⟨pending, hpending, hchange, -⟩
  cases hpending
  exact h (MembershipChange.removeServer.inj hchange)

theorem isMember_of_checkMembershipChange {node : RaftNode T} {peer : NodeId}
    (h : node.checkMembershipChange (.removeServer peer) = none) :
    peer ∈ node.membership.members := by
  by_contra hmember
  have hno : node.membership.isMember peer = false := decide_eq_false hmember
  simp only [checkMembershipChange, hno, Bool.false_eq_true, not_false_eq_true, if_true] at h
  cases hpending : node.membership.pendingChange with
  | some pending =>
    rw [hpending] at h
    split_ifs at h
  | none =>
    rw [hpending] at h
    split_ifs at h

theorem Sends.commitsOwnRemoval {node node' : RaftNode T} {P : NodeId → RaftMessage T → Prop}
    (h : node.Sends P node') : node'.CommitsOwnRemoval ↔ node.CommitsOwnRemoval := by
  obtain ⟨out, rfl, -⟩ := h
  rfl

end RaftNode

/-! ## One turn -/

def trackedPeers (monitor : Option NodeHealthMonitor) : Option (Set NodeId) :=
  monitor.map fun m => {p | m.Tracks p}

theorem monitorsExactly_iff {monitor : Option NodeHealthMonitor} {p : NodeId → Prop} :
    MonitorsExactly monitor p ↔ trackedPeers monitor = some {peer | p peer} := by
  unfold MonitorsExactly trackedPeers
  rw [Option.map_eq_some_iff]
  constructor
  · rintro ⟨m, hm, htracks⟩
    exact ⟨m, hm, Set.ext htracks⟩
  · rintro ⟨m, hm, htracks⟩
    exact ⟨m, hm, fun peer => Set.ext_iff.mp htracks peer⟩

section Turns

variable [StateMachine T M] {d d' : MonitoredDriver T M}

theorem Monitored.of_eq (h : Monitored d) (hstate : d'.node.state = d.node.state)
    (hpeers : ∀ p, p ∈ d'.peers ↔ p ∈ d.peers)
    (htracked : trackedPeers d'.healthMonitor = trackedPeers d.healthMonitor) : Monitored d' := by
  constructor
  · intro hleader hne
    obtain ⟨p, hp⟩ := List.exists_mem_of_ne_nil _ hne
    have hne' : d.peers ≠ [] := List.ne_nil_of_mem ((hpeers p).mp hp)
    have htracks := h.leader (hstate.symm.trans hleader) hne'
    rw [monitorsExactly_iff] at htracks ⊢
    rw [htracked, htracks]
    simp only [hpeers]
  · intro hother
    rw [hstate] at hother
    have hnone := h.other hother
    rw [hnone] at htracked
    exact Option.map_eq_none_iff.mp htracked

theorem monitored_of_leader (h : d.node.state = .leader) :
    Monitored d ↔ (d.peers ≠ [] → MonitorsExactly d.healthMonitor (· ∈ d.peers)) :=
  ⟨fun hd => hd.leader h, fun hd => ⟨fun _ => hd, fun hother => absurd h hother⟩⟩

theorem monitored_of_ne_leader (h : d.node.state ≠ .leader) :
    Monitored d ↔ d.healthMonitor = none :=
  ⟨fun hd => hd.other h, fun hd => ⟨fun hleader => absurd hleader h, fun _ => hd⟩⟩

namespace MonitoredDriver

omit [StateMachine T M] in
theorem mem_peers {p : NodeId} :
    p ∈ d.peers ↔ p ∈ d.node.membership.members ∧ p ≠ d.node.nodeId := by
  simp [peers, ClusterMembership.peers]

omit [StateMachine T M] in
theorem peers_congr (hconfig : d'.node.config = d.node.config)
    (hmembers : d'.node.membership.members = d.node.membership.members) : d'.peers = d.peers := by
  unfold peers ClusterMembership.peers RaftNode.nodeId
  rw [hconfig, hmembers]

theorem standing_finishTurn : d.finishTurn.node.standing = d.node.standing := by
  have happly : d.driver.applyCommittedEntries.node.standing = d.node.standing := by
    unfold RaftDriver.applyCommittedEntries
    split_ifs
    · rfl
    · rfl
  have hsnapshot := RaftDriver.frame_after (d := d.driver.applyCommittedEntries)
    (unchanged_createSnapshot d.driver.applyCommittedEntries.stateMachine)
  unfold finishTurn
  dsimp only [node]
  split_ifs
  · exact hsnapshot.trans happly
  · exact happly

theorem monitored_finishTurn : Monitored d.finishTurn ↔ Monitored d := by
  obtain ⟨hconfig, hstate, hmembership⟩ :
      d.finishTurn.node.config = d.node.config ∧ d.finishTurn.node.state = d.node.state ∧
        d.finishTurn.node.membership = d.node.membership := by
    simpa [RaftNode.standing] using standing_finishTurn (d := d)
  have hpeers := peers_congr hconfig (congrArg _ hmembership)
  constructor
  · intro h
    exact h.of_eq hstate.symm (fun p => by rw [hpeers]) rfl
  · intro h
    exact h.of_eq hstate (fun p => by rw [hpeers]) rfl

/-- **A timeout** leaves the node unmonitored, and it must not lead others then. -/
theorem monitored_handleElectionTimeout (h : Monitored d) (hstate : d.node.state ≠ .leader) :
    Monitored d.handleElectionTimeout ↔ (d.node.electionTracker.clusterSize < 2 →
      (∀ outcome ∈ d.node.storage.outcomes.take 2, outcome = none) → d.peers = []) := by
  have hnone : d.handleElectionTimeout.healthMonitor = none := h.other hstate
  have hnode : d.handleElectionTimeout.node = (d.driver.after startElection).node := rfl
  have hdriver : d.driver.node = d.node := rfl
  unfold RaftDriver.after at hnode
  rw [hdriver] at hnode
  obtain ⟨storage, hrun⟩ := d.node.startElection_outcomes
  by_cases houtcomes : ∀ outcome ∈ d.node.storage.outcomes.take 2, outcome = none
  · rw [if_pos houtcomes] at hrun
    rw [hrun] at hnode
    dsimp only at hnode
    obtain ⟨hconfig, hmembership, hleads⟩ :=
      RaftNode.requestVotes_leads { d.node.campaign with storage := storage } rfl
    rw [← hnode] at hconfig hmembership hleads
    have hsize := hleads.trans d.node.hasQuorum_campaign
    have hpeers : d.handleElectionTimeout.peers = d.peers :=
      peers_congr hconfig (congrArg _ hmembership)
    by_cases hquorum : d.node.electionTracker.clusterSize < 2
    · rw [monitored_of_leader (hsize.mpr hquorum), hnone, hpeers]
      simp only [MonitorsExactly]
      constructor
      · intro hmonitors _ _
        by_contra hne
        obtain ⟨m, hm, -⟩ := hmonitors hne
        cases hm
      · intro hnil hne
        exact absurd (hnil hquorum houtcomes) hne
    · rw [monitored_of_ne_leader fun hleader => hquorum (hsize.mp hleader)]
      exact iff_of_true hnone fun hlt => absurd hlt hquorum
  · rw [if_neg houtcomes] at hrun
    obtain ⟨e, hrun⟩ := hrun
    rw [hrun] at hnode
    have hother : d.handleElectionTimeout.node.state ≠ .leader := by
      rw [hnode]
      simp [RaftNode.campaign]
    rw [monitored_of_ne_leader hother]
    exact iff_of_true hnone fun _ hall => absurd hall houtcomes

/-- A heartbeat looks at the peers and sends; it changes nothing that matters here. -/
theorem monitored_handleHeartbeatTick (h : Monitored d) (now : ℕ) :
    Monitored (d.handleHeartbeatTick now) := by
  obtain ⟨out, hsend, -⟩ := d.node.sendAppendEntriesToAll_sends
  have hnode : (d.handleHeartbeatTick now).node = d.node.sendAppendEntriesToAll := by
    unfold handleHeartbeatTick
    cases d.healthMonitor with
    | none => rfl
    | some monitor =>
      dsimp only
      split_ifs
      · rfl
      · rfl
  have htracked : trackedPeers (d.handleHeartbeatTick now).healthMonitor =
      trackedPeers d.healthMonitor := by
    unfold handleHeartbeatTick trackedPeers
    cases d.healthMonitor with
    | none => rfl
    | some monitor =>
      dsimp only
      split_ifs
      · simp
      · simp
  rw [hsend] at hnode
  refine h.of_eq ?_ ?_ htracked
  · rw [hnode]
  · intro p
    rw [mem_peers, mem_peers, hnode]
    rfl

theorem trackedPeers_handleInboundMessage (sender : NodeId) (msg : RaftMessage T) (now : ℕ) :
    trackedPeers (d.handleInboundMessage sender msg now).healthMonitor =
      trackedPeers d.healthMonitor := by
  have hrecord : trackedPeers (d.healthMonitor.map (·.recordResponse sender now)) =
      trackedPeers d.healthMonitor := by
    unfold trackedPeers
    cases d.healthMonitor with
    | none => rfl
    | some monitor => simp
  unfold handleInboundMessage
  cases msg with
  | appendEntriesResponse resp => exact hrecord
  | installSnapshotResponse resp => exact hrecord
  | requestVote req => rfl
  | requestVoteResponse resp => rfl
  | appendEntries req => rfl
  | installSnapshot req => rfl

theorem node_handleInboundMessage (sender : NodeId) (msg : RaftMessage T) (now : ℕ) :
    (d.handleInboundMessage sender msg now).node =
      (d.driver.handleInboundMessage sender msg).node := by
  unfold handleInboundMessage
  cases msg <;> rfl

/-- **A message** is the event for which the loop starts and stops the monitor. -/
theorem monitored_react_inbound (h : Monitored d) (sender : NodeId) (msg : RaftMessage T)
    (now : ℕ) : Monitored (d.react (.inbound sender msg now)) := by
  have htracked := trackedPeers_handleInboundMessage (d := d) sender msg now
  unfold react
  dsimp only
  generalize hafter : d.handleInboundMessage sender msg now = d' at htracked ⊢
  split_ifs with hstart hstop
  · -- a new leader: the monitor is made for its peers
    have hleader : (d'.startHealthMonitor now).node.state = .leader := hstart.2
    rw [monitored_of_leader hleader]
    intro _
    exact ⟨_, rfl, fun p => NodeHealthMonitor.tracks_new _ _ _⟩
  · rw [monitored_of_ne_leader]
    · unfold stopHealthMonitor
      split_ifs with hsome
      · rfl
      · simpa using hsome
    · unfold stopHealthMonitor
      split_ifs
      · exact hstop.2
      · exact hstop.2
  · by_cases hstate : d.node.state = .leader
    · have hstate' : d'.node.state = .leader := by
        by_contra hother
        exact hstop ⟨hstate, hother⟩
      have hreigns := RaftDriver.reigns_handleInboundMessage (d := d.driver) hstate sender msg
      rw [← node_handleInboundMessage _ _ now, hafter] at hreigns
      have hpeers : d'.peers = d.peers :=
        peers_congr hreigns.config (hreigns.leader hstate').2
      exact h.of_eq (hstate'.trans hstate.symm) (fun p => by rw [hpeers]) htracked
    · have hstate' : d'.node.state ≠ .leader := fun hleader => hstart ⟨hstate, hleader⟩
      rw [monitored_of_ne_leader hstate']
      rw [h.other hstate] at htracked
      exact Option.map_eq_none_iff.mp htracked

/-- **A commit** by a leader: of its own removal, after which nobody may be monitored, or of
anything else, after which the same members are there. -/
theorem monitored_of_commit {node : RaftNode T} (h : node.state = .leader)
    (hnode : d.node = node.advanceCommitIndex) :
    Monitored d ↔ (node.CommitsOwnRemoval → d.healthMonitor = none) ∧
      (¬ node.CommitsOwnRemoval → node.membership.peers node.nodeId ≠ [] →
        MonitorsExactly d.healthMonitor (· ∈ node.membership.peers node.nodeId)) := by
  have hleads := RaftNode.advanceCommitIndex_leads h
  have hreigns : node.Reigns node.advanceCommitIndex := frame_advanceCommitIndex node
  rw [← hnode] at hleads hreigns
  by_cases hown : node.CommitsOwnRemoval
  · rw [monitored_of_ne_leader fun hleader => hleads.mp hleader hown]
    simp [hown]
  · have hleader := hleads.mpr hown
    have hpeers : d.peers = node.membership.peers node.nodeId := by
      unfold peers ClusterMembership.peers RaftNode.nodeId
      rw [hreigns.config, (hreigns.leader hleader).2]
    rw [monitored_of_leader hleader, hpeers]
    simp [hown]

/-- **A proposal** may commit something older. -/
theorem monitored_handleProposal (h : Monitored d) (command : T) :
    Monitored (d.handleProposal command) ↔ (d.node.state = .leader →
      (d.node.appendCommand command).CommitsOwnRemoval → d.healthMonitor = none) := by
  unfold handleProposal RaftNode.clientRequest
  by_cases hstate : d.node.state = .leader
  · rw [if_neg (not_not.mpr hstate)]
    have hsends := (d.node.appendCommand command).sendAppendEntriesToAll_sends
    have hown := hsends.commitsOwnRemoval
    obtain ⟨out, heq, -⟩ := hsends
    have hstate' : (d.node.appendCommand command).sendAppendEntriesToAll.state = .leader := by
      rw [heq]
      exact hstate
    have hpeers : (d.node.appendCommand command).sendAppendEntriesToAll.membership.peers
        (d.node.appendCommand command).sendAppendEntriesToAll.nodeId = d.peers := by
      rw [heq]
      rfl
    rw [monitored_of_commit hstate' rfl, hown, hpeers]
    have hkeep := h.leader hstate
    tauto
  · rw [if_pos hstate]
    simp [h, hstate]

theorem mem_peers_beginChange {m : ClusterMembership} {index : ℕ} {change : MembershipChange}
    {self p : NodeId} : p ∈ (m.beginChange index change).peers self ↔
      match change with
      | .addServer node => p ≠ self ∧ (p = node ∨ p ∈ m.members)
      | .removeServer node => p ≠ self ∧ p ≠ node ∧ p ∈ m.members := by
  cases change with
  | addServer node =>
    simp [ClusterMembership.peers, ClusterMembership.beginChange, and_comm]
  | removeServer node =>
    simp [ClusterMembership.peers, ClusterMembership.beginChange]
    tauto

theorem monitorsExactly_congr {monitor : Option NodeHealthMonitor} {p q : NodeId → Prop}
    (h : ∀ peer, p peer ↔ q peer) : MonitorsExactly monitor p ↔ MonitorsExactly monitor q := by
  simp only [MonitorsExactly, h]

theorem monitored_of_change {change : MembershipChange} (noopCommand : T) {peers : List NodeId}
    (hcheck : d.node.checkMembershipChange change = none)
    (hpeers : peers =
      (d.node.membership.beginChange (d.node.log.lastIndex + 1) change).peers d.node.nodeId) :
    Monitored (d.handleMembershipProposal change noopCommand) ↔
      ((d.node.applyMembershipChange change noopCommand).CommitsOwnRemoval →
        d.healthMonitor = none) ∧
      (¬ (d.node.applyMembershipChange change noopCommand).CommitsOwnRemoval → peers ≠ [] →
        MonitorsExactly d.healthMonitor (· ∈ peers)) := by
  have hnode : (d.handleMembershipProposal change noopCommand).node =
      ((d.node.applyMembershipChange change
        noopCommand).sendAppendEntriesToAll).advanceCommitIndex := by
    have hdriver : d.driver.node.checkMembershipChange change = none := hcheck
    simp only [handleMembershipProposal, MonitoredDriver.node, RaftDriver.handleMembershipProposal,
      RaftNode.proposeMembershipChange, hdriver]
  have hstate := RaftNode.state_of_checkMembershipChange hcheck
  have hleader : (d.node.applyMembershipChange change noopCommand).state = .leader := hstate
  have hsame : (d.node.applyMembershipChange change noopCommand).membership.peers
      (d.node.applyMembershipChange change noopCommand).nodeId = peers := hpeers.symm
  have hmonitor :
      (d.handleMembershipProposal change noopCommand).healthMonitor = d.healthMonitor := rfl
  have hsends := (d.node.applyMembershipChange change noopCommand).sendAppendEntriesToAll_sends
  have hown := hsends.commitsOwnRemoval
  obtain ⟨out, heq, -⟩ := hsends
  rw [monitored_of_commit (by rw [heq]; exact hleader) hnode, hown, hmonitor, heq]
  rw [← hsame]
  rfl

/-- **An added server** has to be tracked already. -/
theorem monitored_addServer (h : Monitored d) {peer : NodeId} {noopCommand : T}
    (hcheck : d.node.checkMembershipChange (.addServer peer) = none) :
    Monitored (d.handleMembershipProposal (.addServer peer) noopCommand) ↔
      (peer ≠ d.node.nodeId → MonitorsExactly d.healthMonitor fun p => p = peer ∨ p ∈ d.peers) := by
  have hstate := RaftNode.state_of_checkMembershipChange hcheck
  have hown := @RaftNode.not_commitsOwnRemoval_add _ d.node peer noopCommand
  obtain ⟨peers, hpeers⟩ : ∃ peers, peers = (d.node.membership.beginChange
      (d.node.log.lastIndex + 1) (.addServer peer)).peers d.node.nodeId := ⟨_, rfl⟩
  have hmem : ∀ p, p ∈ peers ↔
      p ≠ d.node.nodeId ∧ (p = peer ∨ p ∈ d.node.membership.members) := by
    intro p
    rw [hpeers]
    exact mem_peers_beginChange
  rw [monitored_of_change noopCommand hcheck hpeers]
  simp only [hown, not_false_eq_true, true_implies, false_implies, true_and]
  by_cases hself : peer = d.node.nodeId
  · -- the node itself is nobody to monitor
    have hsame : ∀ p, p ∈ peers ↔ p ∈ d.peers := by
      intro p
      rw [hmem, mem_peers, hself]
      tauto
    refine iff_of_true ?_ fun hne => absurd hself hne
    intro hne
    obtain ⟨p, hp⟩ := List.exists_mem_of_ne_nil _ hne
    rw [monitorsExactly_congr hsame]
    exact h.leader hstate (List.ne_nil_of_mem ((hsame p).mp hp))
  · have hpeer : peer ∈ peers := (hmem peer).mpr ⟨hself, .inl rfl⟩
    have hsame : ∀ p, p ∈ peers ↔ p = peer ∨ p ∈ d.peers := by
      intro p
      rw [hmem, mem_peers]
      constructor
      · rintro ⟨hne, rfl | hp⟩
        · exact .inl rfl
        · exact .inr ⟨hp, hne⟩
      · rintro (rfl | ⟨hp, hne⟩)
        · exact ⟨hself, .inl rfl⟩
        · exact ⟨hne, .inr hp⟩
    rw [monitorsExactly_congr hsame]
    simp [hself, List.ne_nil_of_mem hpeer]

/-- **A removed server** is tracked still, which does no harm only where nobody else is left. -/
theorem monitored_removeServer (h : Monitored d) {peer : NodeId} {noopCommand : T}
    (hcheck : d.node.checkMembershipChange (.removeServer peer) = none) :
    Monitored (d.handleMembershipProposal (.removeServer peer) noopCommand) ↔
      if peer = d.node.nodeId then
        (d.node.applyMembershipChange (.removeServer peer) noopCommand).CommitsOwnRemoval →
          d.healthMonitor = none
      else ∀ p ∈ d.peers, p = peer := by
  have hstate := RaftNode.state_of_checkMembershipChange hcheck
  have hmember := RaftNode.isMember_of_checkMembershipChange hcheck
  obtain ⟨peers, hpeers⟩ : ∃ peers, peers = (d.node.membership.beginChange
      (d.node.log.lastIndex + 1) (.removeServer peer)).peers d.node.nodeId := ⟨_, rfl⟩
  have hmem : ∀ p, p ∈ peers ↔
      p ≠ d.node.nodeId ∧ p ≠ peer ∧ p ∈ d.node.membership.members := by
    intro p
    rw [hpeers]
    exact mem_peers_beginChange
  rw [monitored_of_change noopCommand hcheck hpeers]
  split_ifs with hself
  · have hsame : ∀ p, p ∈ peers ↔ p ∈ d.peers := by
      intro p
      rw [hmem, mem_peers, hself]
      tauto
    refine and_iff_left_of_imp fun _ _ hne => ?_
    obtain ⟨p, hp⟩ := List.exists_mem_of_ne_nil _ hne
    rw [monitorsExactly_congr hsame]
    exact h.leader hstate (List.ne_nil_of_mem ((hsame p).mp hp))
  · have hown := (@RaftNode.not_commitsOwnRemoval_remove _ d.node _ noopCommand) hself
    have hpeer : peer ∈ d.peers := mem_peers.mpr ⟨hmember, hself⟩
    simp only [hown, not_false_eq_true, true_implies, false_implies, true_and]
    constructor
    · intro hmonitors p hp
      by_contra hne
      have hp' : p ∈ peers := (hmem p).mpr ⟨(mem_peers.mp hp).2, hne, (mem_peers.mp hp).1⟩
      -- the monitor tracks the removed server as well
      obtain ⟨m, hm, htracks⟩ := h.leader hstate (List.ne_nil_of_mem hpeer)
      obtain ⟨m', hm', htracks'⟩ := hmonitors (List.ne_nil_of_mem hp')
      rw [hm] at hm'
      cases hm'
      have hgone := (htracks' peer).mp ((htracks peer).mpr hpeer)
      exact ((hmem peer).mp hgone).2.1 rfl
    · intro hall hne
      obtain ⟨p, hp⟩ := List.exists_mem_of_ne_nil _ hne
      obtain ⟨hself', hne', hp'⟩ := (hmem p).mp hp
      exact absurd (hall p (mem_peers.mpr ⟨hp', hself'⟩)) hne'

omit [StateMachine T M] in
theorem handleMembershipProposal_rejected {change : MembershipChange} {noopCommand : T}
    {e : MembershipError} (h : d.node.checkMembershipChange change = some e) :
    d.handleMembershipProposal change noopCommand = d := by
  have hdriver : d.driver.node.checkMembershipChange change = some e := h
  simp only [handleMembershipProposal, RaftDriver.handleMembershipProposal,
    RaftNode.proposeMembershipChange, hdriver]

/-- **Step lemma**: a turn keeps a driver monitored exactly if it keeps track. -/
theorem monitored_step {e : DriverEvent T × List (Option StorageError)}
    (henabled : (system T M).enabled d e) (h : Monitored d) :
    Monitored ((system T M).step d e) ↔ d.KeepsTrack e := by
  obtain ⟨e, outcomes⟩ := e
  have hd : Monitored { d with driver := d.driver.expecting outcomes } :=
    h.of_eq rfl (fun _ => .rfl) rfl
  refine monitored_finishTurn.trans ?_
  cases e with
  | electionTimeout => exact monitored_handleElectionTimeout hd henabled
  | heartbeatTick now => exact iff_of_true (monitored_handleHeartbeatTick hd now) trivial
  | inbound sender msg now => exact iff_of_true (monitored_react_inbound hd sender msg now) trivial
  | proposal command => exact monitored_handleProposal hd command
  | membershipProposal change noopCommand =>
    cases hcheck : d.node.checkMembershipChange change with
    | some error =>
      refine iff_of_true ?_ fun hnone => ?_
      · have hsame := (@handleMembershipProposal_rejected _ _
          { d with driver := d.driver.expecting outcomes } _ noopCommand) hcheck
        change Monitored (handleMembershipProposal _ _ _)
        rw [hsame]
        exact hd
      · rw [hcheck] at hnone
        cases hnone
    | none =>
      have hrest : d.KeepsTrack (.membershipProposal change noopCommand, outcomes) ↔ _ :=
        ⟨fun hkeeps => hkeeps hcheck, fun hkeeps _ => hkeeps⟩
      rw [hrest]
      cases change with
      | addServer peer => exact monitored_addServer hd hcheck
      | removeServer peer => exact monitored_removeServer hd hcheck

end MonitoredDriver

/-- **The leader monitors exactly its members** in every state of a run exactly if every event of it
is one the loop can cope with. -/
theorem monitored_iff_keepsTrack (config : RaftConfig) (disk : Disk T) (sm : M) (heartbeat : ℕ)
    {events : List (DriverEvent T × List (Option StorageError))}
    (hlegal : System.Legal (MonitoredDriver.system T M) System.Free
      (.build config disk sm heartbeat) events) :
    (∀ n, Monitored ((MonitoredDriver.system T M).exec (.build config disk sm heartbeat)
      (events.take n))) ↔
        System.Legal (MonitoredDriver.system T M) MonitoredDriver.KeepsTrack
          (.build config disk sm heartbeat) events := by
  have hinit : Monitored (.build config disk sm heartbeat : MonitoredDriver T M) := by
    constructor
    · intro hleader
      cases hleader
    · intro _
      rfl
  exact System.forall_take_iff_of_step (I := fun _ => True) (fun _ _ _ _ => trivial)
    (fun _ _ henabled _ h => MonitoredDriver.monitored_step henabled h) hlegal trivial hinit

end Turns

/-! ## One node of three, and one alone -/

section Examples

/-- Node 1 of three stands for election, gets the vote of node 2 and sends its heartbeats. -/
def electedOfThree : List (DriverEvent ℕ × List (Option StorageError)) :=
  [(.electionTimeout, []), (.inbound 2 (.requestVoteResponse ⟨1, true⟩) 5, []),
    (.heartbeatTick 10, []), (.proposal 7, []),
    (.inbound 2 (.appendEntriesResponse ⟨1, true, 1⟩) 12, []), (.heartbeatTick 400, [])]

/-- It monitors the other two, all along. -/
theorem monitored_electedOfThree :
    let driver : MonitoredDriver ℕ Unit := .build { nodeId := 1, peers := [2, 3] } {} () 50
    (∀ n, Monitored ((MonitoredDriver.system ℕ Unit).exec driver (electedOfThree.take n))) ∧
      ((MonitoredDriver.system ℕ Unit).exec driver electedOfThree).node.state = .leader ∧
      ((MonitoredDriver.system ℕ Unit).exec driver electedOfThree).peers ≠ [] := by
  intro driver
  have hfree : System.Legal (MonitoredDriver.system ℕ Unit) System.Free driver electedOfThree := by
    decide
  have hkeeps : System.Legal (MonitoredDriver.system ℕ Unit) MonitoredDriver.KeepsTrack driver
      electedOfThree := by
    refine ⟨by decide, ?_, trivial, trivial, by decide, trivial, trivial, ?_, trivial, trivial,
      by decide, trivial, trivial⟩
    · intro hsize
      exact absurd hsize (by decide)
    · -- no change is pending
      intro _ hown
      exact absurd hown (by decide)
  exact ⟨(monitored_iff_keepsTrack _ _ _ _ hfree).mpr hkeeps, by decide, by decide⟩

/-- A node configured alone elects itself, commits a command and adds server 2. -/
def addedToOne : List (DriverEvent ℕ × List (Option StorageError)) :=
  [(.electionTimeout, []), (.proposal 10, []), (.membershipProposal (.addServer 2) 0, [])]

/-- It leads a cluster of two and monitors nobody. -/
theorem added_server_unmonitored :
    ¬ ∀ (config : RaftConfig) (disk : Disk ℕ) (heartbeat : ℕ)
      (events : List (DriverEvent ℕ × List (Option StorageError))),
      System.Legal (MonitoredDriver.system ℕ Unit) System.Free (.build config disk () heartbeat)
        events →
      Monitored
        ((MonitoredDriver.system ℕ Unit).exec (.build config disk () heartbeat) events) := by
  intro h
  have hfree : System.Legal (MonitoredDriver.system ℕ Unit) System.Free
      (.build { nodeId := 1, peers := [] } {} () 50) addedToOne := by
    decide
  have hnone : ((MonitoredDriver.system ℕ Unit).exec
      (.build { nodeId := 1, peers := [] } {} () 50) addedToOne).healthMonitor = none := by
    decide
  obtain ⟨m, hm, -⟩ := (h _ _ _ _ hfree).leader (by decide) (by decide)
  rw [hnone] at hm
  cases hm

end Examples

end Pirc.Raft
