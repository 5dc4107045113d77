import Pirc.Raft.Commitment
import Pirc.Raft.HandlerFrames

/-!
# Raft: who is counted for a commit

A leader commits an entry of its term once a quorum of its members has it. It counts itself and
everybody in its progress table, and the progress table follows the membership only when a change is
committed: a server whose removal is pending is still in it, a late answer puts a removed server
back, and a leader that is no member counts itself all the same.
-/

namespace Pirc.Raft

variable {T M : Type}

namespace RaftNode

/-- The leader knows that the server has the entry at an index: it is the leader itself, or it
acknowledged the entry. -/
def has (node : RaftNode T) (n : ℕ) (id : NodeId) : Bool :=
  id = node.nodeId || (node.leaderState.bind (·.matchIndex.lookup id)).any (n ≤ ·)

/-- **The commit rule**: if the commit index rises, then to an entry of the current term which a
quorum of the current members has. -/
def CommitsByMembers (node : RaftNode T) : Prop :=
  let n := node.advanceCommitIndex.volatile.commitIndex
  node.volatile.commitIndex < n →
    node.log.termAt n = some node.currentTerm ∧
      node.quorumSize ≤ (node.membership.members.toFinset.filter fun id => node.has n id).card

instance (node : RaftNode T) : Decidable node.CommitsByMembers :=
  inferInstanceAs (Decidable (_ < _ → _ ∧ _ ≤ _))

/-- **The table is in order**: who stands for election or leads is a member, and what the table has
beyond the commit index is other members'. -/
structure Accounted (node : RaftNode T) : Prop where
  self : node.state ≠ .follower → node.nodeId ∈ node.membership.members
  table : node.state = .leader → ∀ leader, node.leaderState = some leader →
    ∀ id m, leader.matchIndex.lookup id = some m → node.volatile.commitIndex < m →
      id ∈ node.membership.members ∧ id ≠ node.nodeId

end RaftNode

/-! ## Counting -/

section Counting

variable {node : RaftNode T}

theorem RaftNode.advanceCommitIndex_raised
    (h : node.volatile.commitIndex < node.advanceCommitIndex.volatile.commitIndex) :
    ∃ leader, node.state = .leader ∧ node.leaderState = some leader ∧
      node.log.termAt node.advanceCommitIndex.volatile.commitIndex = some node.currentTerm ∧
      node.quorumSize ≤ 1 + ((leader.matchIndex.entries.map Sigma.snd).filter
        (node.advanceCommitIndex.volatile.commitIndex ≤ ·)).length := by
  unfold advanceCommitIndex at h ⊢
  split_ifs at h ⊢ with hstate
  · exact absurd h (lt_irrefl _)
  · cases hleader : node.leaderState with
    | none =>
      rw [hleader] at h
      exact absurd h (lt_irrefl _)
    | some leader =>
      rw [hleader] at h
      dsimp only at h ⊢
      split_ifs at h ⊢ with hlt
      · refine ⟨leader, not_not.mp hstate, rfl, ?_⟩
        -- finishing a membership change leaves the commit index where the scan put it
        have hcommit : ∀ (node : RaftNode T) (k : ℕ),
            (node.commitMembershipChangeIfPending k).volatile = node.volatile := by
          intro node k
          obtain ⟨_, _, _, _, heq⟩ := node.commitMembershipChangeIfPending_eq k
          rw [heq]
        rw [hcommit]
        rcases scanCommit_cases node.log node.currentTerm node.quorumSize node.volatile.commitIndex
          (leader.matchIndex.entries.map Sigma.snd) node.log.lastIndex with heq | ⟨hterm, hquorum⟩
        · exact absurd hlt heq.le.not_gt
        · exact ⟨hterm, hquorum.trans (countReplicas_le ..)⟩
      · exact absurd h (lt_irrefl _)

theorem card_counted (table : NodeMap ℕ) (n : ℕ) :
    ((table.entries.map Sigma.snd).filter (n ≤ ·)).length =
      (table.keys.toFinset.filter fun id => (table.lookup id).any (n ≤ ·)).card := by
  have hfilter : (table.keys.filter fun id => (table.lookup id).any (n ≤ ·)) =
      (table.entries.filter fun e => n ≤ e.2).map Sigma.fst := by
    unfold AList.keys List.keys
    rw [List.filter_map]
    congr 1
    apply List.filter_congr
    intro e he
    have hlookup : table.lookup e.1 = some e.2 := AList.mem_lookup_iff.mpr he
    simp [hlookup]
  have hnodup : (table.keys.filter fun id => (table.lookup id).any (n ≤ ·)).Nodup :=
    table.keys_nodup.filter _
  rw [← List.toFinset_filter, List.toFinset_card_of_nodup hnodup, hfilter, List.length_map,
    List.filter_map, List.length_map]
  rfl

/-- **A table in order commits by members.** -/
theorem RaftNode.Accounted.commitsByMembers (h : node.Accounted) : node.CommitsByMembers := by
  intro hraised
  obtain ⟨leader, hstate, hleader, hterm, hquorum⟩ := advanceCommitIndex_raised hraised
  refine ⟨hterm, hquorum.trans ?_⟩
  generalize node.advanceCommitIndex.volatile.commitIndex = n at hraised
  rw [card_counted, Nat.add_comm]
  have hself : node.nodeId ∈ node.membership.members := by
    apply h.self
    rw [hstate]
    decide
  -- whoever is counted is a member that has the entry, and is not the leader
  have hcounted : ∀ id ∈ leader.matchIndex.keys.toFinset.filter
      (fun id => (leader.matchIndex.lookup id).any (n ≤ ·)),
      id ∈ node.membership.members ∧ id ≠ node.nodeId ∧ node.has n id = true := by
    intro id hid
    have hany := (Finset.mem_filter.mp hid).2
    obtain ⟨m, hm, hle⟩ := (Option.any_eq_true _ _).mp hany
    obtain ⟨hmember, hne⟩ := h.table hstate leader hleader id m hm
      (hraised.trans_le (of_decide_eq_true hle))
    refine ⟨hmember, hne, ?_⟩
    unfold has
    rw [hleader, Option.bind_some, hany, Bool.or_true]
  rw [← Finset.card_insert_of_notMem fun hin => (hcounted node.nodeId hin).2.1 rfl]
  apply Finset.card_le_card
  intro id hid
  rw [Finset.mem_filter, List.mem_toFinset]
  rcases Finset.mem_insert.mp hid with rfl | hin
  · exact ⟨hself, by simp [has]⟩
  · exact ⟨(hcounted id hin).1, (hcounted id hin).2.2⟩

end Counting

/-! ## Keeping the table in order -/

section Keeping

variable {node node' : RaftNode T}

namespace RaftNode

theorem Accounted.of_follower (h : node.state = .follower) : node.Accounted where
  self hstate := absurd h hstate
  table hstate := by
    rw [h] at hstate
    cases hstate

/-- Whatever a quiet step changes, the table stays in order. -/
def KeepsAccount (node node' : RaftNode T) : Prop := node.Accounted → node'.Accounted

instance : QuietFrame (KeepsAccount (T := T)) where
  refl _ h := h
  trans h₁ h₂ h := h₂ (h₁ h)
  of_quiet := by
    intro node node' hconfig _ hstate hmembership _ hleader hcommit h
    have hid : node'.nodeId = node.nodeId := congrArg RaftConfig.nodeId hconfig
    constructor
    · rw [hid, hstate, hmembership]
      exact h.self
    · rw [hid, hstate, hmembership, hleader, hcommit]
      exact h.table
  of_follower _ _ _ hstate _ := .of_follower hstate

theorem accounted_becomeLeader (hself : node.nodeId ∈ node.membership.members) :
    node.becomeLeader.Accounted := by
  have hlead : node.lead.Accounted := by
    constructor
    · intro _
      exact hself
    · intro _ leader hleader id m hm hlt
      obtain rfl := Option.some_inj.mp hleader
      obtain ⟨-, rfl⟩ := NodeCommits.lookup_new hm
      exact absurd hlt (Nat.not_lt_zero _)
  exact (node.lead.sendAppendEntriesToAll_sends.frame : KeepsAccount _ _) hlead

theorem accounted_requestVotes (h : node.Accounted) (hstate : node.state ≠ .follower) :
    node.requestVotes.Accounted := by
  unfold requestVotes
  split_ifs
  · exact accounted_becomeLeader (h.self hstate)
  · exact (node.voteRequests_sends.frame : KeepsAccount _ _) h

theorem Accounted.countVote (h : node.Accounted) (sender : NodeId) (resp : RequestVoteResponse) :
    (node.countVote sender resp).Accounted := by
  unfold RaftNode.countVote
  split_ifs with hstate
  · exact h
  · have hself : node.nodeId ∈ node.membership.members := by
      apply h.self
      intro hfollower
      rw [not_not.mp hstate] at hfollower
      cases hfollower
    dsimp only
    split_ifs
    · exact accounted_becomeLeader hself
    · exact ⟨h.self, h.table⟩
  · exact h

/-- Once a change is final, those who are no members leave the table. -/
theorem Accounted.commitMembershipChangeIfPending (h : node.Accounted) (k : ℕ) :
    (node.commitMembershipChangeIfPending k).Accounted := by
  have hkeep : ∀ (p : NodeId → Bool) (ids : List NodeId) (table : NodeMap ℕ) (id : NodeId) (m : ℕ),
      (ids.foldl (fun table id => if p id then table else table.erase id) table).lookup id =
        some m → table.lookup id = some m := by
    intro p ids
    induction ids with
    | nil => exact fun _ _ _ hm => hm
    | cons id' ids ih =>
      intro table id m hm
      have hm := ih _ _ _ hm
      dsimp only at hm
      split_ifs at hm
      · exact hm
      · by_cases hid : id = id'
        · rw [hid, AList.lookup_erase] at hm
          cases hm
        · rwa [AList.lookup_erase_ne hid] at hm
  have hmembers : node.membership.commitChange.members = node.membership.members := by
    unfold ClusterMembership.commitChange
    cases node.membership.pendingChange with
    | none => rfl
    | some pending => rfl
  unfold RaftNode.commitMembershipChangeIfPending
  cases node.membership.pendingChange with
  | none => exact h
  | some pending =>
    dsimp only
    split_ifs
    · exact .of_follower rfl
    · constructor
      · dsimp only [nodeId]
        rw [hmembers]
        exact h.self
      · intro hstate leader hleader id m hm hlt
        obtain ⟨before, hbefore, rfl⟩ := Option.map_eq_some_iff.mp hleader
        dsimp only [nodeId]
        rw [hmembers]
        exact h.table hstate before hbefore id m (hkeep _ _ _ _ _ hm) hlt
    · exact h

theorem Accounted.advanceCommitIndex (h : node.Accounted) : node.advanceCommitIndex.Accounted := by
  unfold RaftNode.advanceCommitIndex
  split_ifs
  · exact h
  · split
    · exact h
    · dsimp only
      split_ifs with hlt
      · apply Accounted.commitMembershipChangeIfPending
        -- fewer entries are beyond the new commit index
        exact ⟨h.self, fun hstate leader hleader id m hm hbeyond =>
          h.table hstate leader hleader id m hm (hlt.trans hbeyond)⟩
      · exact h

theorem Accounted.insert (h : node.Accounted) {f : LeaderState → LeaderState} (sender : NodeId)
    (matchIndex : ℕ)
    (hf : ∀ leader, (f leader).matchIndex = leader.matchIndex ∨
      (f leader).matchIndex = leader.matchIndex.insert sender matchIndex ∧
        (node.state = .leader → node.volatile.commitIndex < matchIndex →
          sender ∈ node.membership.members ∧ sender ≠ node.nodeId)) :
    { node with leaderState := node.leaderState.map f }.Accounted := by
  refine ⟨h.self, ?_⟩
  intro hstate leader hleader id m hm hlt
  obtain ⟨before, hbefore, rfl⟩ := Option.map_eq_some_iff.mp hleader
  rcases hf before with heq | ⟨heq, hsender⟩
  · rw [heq] at hm
    exact h.table hstate before hbefore id m hm hlt
  · rw [heq] at hm
    by_cases hid : id = sender
    · rw [hid, AList.lookup_insert] at hm
      rw [hid]
      exact hsender hstate (Option.some_inj.mp hm ▸ hlt)
    · rw [AList.lookup_insert_ne hid] at hm
      exact h.table hstate before hbefore id m hm hlt

/-- The change removes nobody but a member whose answers are within what is committed, and not the
leader itself. -/
def RemovesBehind (node : RaftNode T) : MembershipChange → Prop
  | .addServer _ => True
  | .removeServer peer => peer ≠ node.nodeId ∧
    ∀ m ∈ node.leaderState.bind (·.matchIndex.lookup peer), m ≤ node.volatile.commitIndex

instance (node : RaftNode T) : DecidablePred node.RemovesBehind
  | .addServer _ => .isTrue trivial
  | .removeServer _ => inferInstanceAs (Decidable (_ ∧ _))

theorem Accounted.applyMembershipChange (h : node.Accounted) {change : MembershipChange}
    (hchange : node.RemovesBehind change) (noopCommand : T) :
    (node.applyMembershipChange change noopCommand).Accounted := by
  cases change with
  | addServer peer =>
    constructor
    · intro hstate
      exact List.mem_insert_of_mem (h.self hstate)
    · intro hstate leader hleader id m hm hlt
      obtain ⟨before, hbefore, rfl⟩ := Option.map_eq_some_iff.mp hleader
      dsimp only at hm
      by_cases hid : id = peer
      · -- of the new server nothing is known
        rw [hid, AList.lookup_insert] at hm
        obtain rfl := Option.some_inj.mp hm
        exact absurd hlt (Nat.not_lt_zero _)
      · rw [AList.lookup_insert_ne hid] at hm
        obtain ⟨hmember, hne⟩ := h.table hstate before hbefore id m hm hlt
        exact ⟨List.mem_insert_of_mem hmember, hne⟩
  | removeServer peer =>
    obtain ⟨hself, hbehind⟩ := hchange
    constructor
    · intro hstate
      exact List.mem_filter.mpr ⟨h.self hstate, decide_eq_true (Ne.symm hself)⟩
    · intro hstate leader hleader id m hm hlt
      obtain ⟨hmember, hne⟩ := h.table hstate leader hleader id m hm hlt
      refine ⟨List.mem_filter.mpr ⟨hmember, decide_eq_true ?_⟩, hne⟩
      rintro rfl
      have hanswer : m ∈ node.leaderState.bind (·.matchIndex.lookup id) := by
        rw [show node.leaderState = some leader from hleader]
        exact hm
      exact absurd hlt (hbehind m hanswer).not_gt

theorem Accounted.proposeMembershipChange (h : node.Accounted) {change : MembershipChange}
    (hchange : node.RemovesBehind change) (noopCommand : T) :
    (node.proposeMembershipChange change noopCommand).2.Accounted := by
  unfold RaftNode.proposeMembershipChange
  split
  · exact h
  · have happlied := h.applyMembershipChange hchange noopCommand
    exact ((node.applyMembershipChange change noopCommand).sendAppendEntriesToAll_sends.frame :
      KeepsAccount _ _) happlied

theorem accounted_new (config : RaftConfig) (storage : Storage T) :
    (RaftNode.new config storage).Accounted := .of_follower rfl

end RaftNode

end Keeping

/-! ## Events -/

open RaftNode

/-- The leader with an answer recorded, if it is still the leader once it has seen the term of the
answer. -/
def RaftNode.answered (node : RaftNode T) (term : ℕ) (f : LeaderState → LeaderState) :
    Option (RaftNode T) :=
  if node.state = .leader ∧ term ≤ node.currentTerm then
    some { node with leaderState := node.leaderState.map f }
  else none

/-- The node on which the event looks for what to commit. -/
def NodeRun.advancesOn (r : NodeRun T M) : NodeEvent T M → Option (RaftNode T)
  | .call (.advanceCommitIndex _) outcomes => some (r.driver.expecting outcomes).node
  | .call (.deliver src _ (.appendEntriesResponse resp)) outcomes =>
    (r.driver.expecting outcomes).node.answered resp.term (recordAppendResponse · src resp)
  | .call (.deliver src _ (.installSnapshotResponse resp)) outcomes =>
    (r.driver.expecting outcomes).node.answered resp.term
      (recordSnapshotResponse r.driver.node.lastSnapshot · src)
  | _ => none

/-- An answer beyond the commit index is of another member. -/
def RaftNode.AnswersWithin (node : RaftNode T) (sender : NodeId) (matchIndex : ℕ) : Prop :=
  node.state = .leader → node.volatile.commitIndex < matchIndex →
    sender ∈ node.membership.members ∧ sender ≠ node.nodeId

instance (node : RaftNode T) (sender : NodeId) (matchIndex : ℕ) :
    Decidable (node.AnswersWithin sender matchIndex) :=
  inferInstanceAs (Decidable (_ → _ → _ ∧ _))

/-- An election starts at a member; nobody is removed whose answers are ahead of the commit index,
nor the leader itself; and who answers ahead of the commit index is another member. -/
def NodeEvent.CountsMembers (r : NodeRun T M) : NodeEvent T M → Prop
  | .call (.startElection _) _ => r.driver.node.nodeId ∈ r.driver.node.membership.members
  | .call (.deliver src _ (.appendEntriesResponse resp)) _ =>
    resp.success = true → r.driver.node.AnswersWithin src resp.matchIndex
  | .call (.deliver src _ (.installSnapshotResponse _)) _ =>
    ∀ snapshot ∈ r.driver.node.lastSnapshot,
      r.driver.node.AnswersWithin src snapshot.lastIncludedIndex
  | .propose change _ => r.driver.node.RemovesBehind change
  | _ => True

section Events

variable {node : RaftNode T}

/-- An answer of a known term is recorded by a leader, who then looks for what to commit; a later
term makes a follower. -/
theorem handled_answer {t : ℕ} {f : RaftNode T → LeaderState → LeaderState}
    (h : node.Accounted)
    (hanswered : ∀ node', node.answered t (f node) = some node' → node'.Accounted) :
    wp (handleTermUpdate t >>= fun _ => modify fun node => node.updateProgress (f node))
      (fun _ node' => node'.Accounted) (fun (_ : StorageError) node' => node'.Accounted) node := by
  rw [wp_bind]
  rcases Nat.lt_or_ge node.currentTerm t with hlt | hle
  · refine wp_mono ?_ ?_ (handleTermUpdate_follower (R := KeepsAccount) hlt)
    · rintro _ node' ⟨-, hfollower⟩
      have hne : node'.state ≠ .leader := by
        rw [hfollower]
        decide
      rw [wp_modify]
      unfold updateProgress
      rw [if_pos hne]
      exact .of_follower hfollower
    · rintro _ node' ⟨-, hfollower⟩
      exact .of_follower hfollower
  · rw [wp_handleTermUpdate_of_le hle, wp_modify]
    unfold updateProgress
    split_ifs with hstate
    · exact h
    · exact (hanswered _ (if_pos ⟨not_not.mp hstate, hle⟩)).advanceCommitIndex

theorem answered_append (h : node.Accounted) {src : NodeId} {resp : AppendEntriesResponse}
    (hok : resp.success = true → node.AnswersWithin src resp.matchIndex) {node' : RaftNode T}
    (hnode : node.answered resp.term (recordAppendResponse · src resp) = some node') :
    node'.Accounted := by
  unfold answered at hnode
  split_ifs at hnode
  obtain rfl := Option.some_inj.mp hnode
  apply h.insert src resp.matchIndex
  intro leader
  unfold recordAppendResponse
  dsimp only
  split_ifs with hsuccess
  · exact .inr ⟨rfl, hok hsuccess⟩
  · exact .inl rfl
  · exact .inl rfl

theorem answered_snapshot (h : node.Accounted) {src : NodeId} {t : ℕ} {latest : Option Snapshot}
    (hok : ∀ snapshot ∈ latest, node.AnswersWithin src snapshot.lastIncludedIndex)
    {node' : RaftNode T}
    (hnode : node.answered t (recordSnapshotResponse latest · src) = some node') :
    node'.Accounted := by
  unfold answered at hnode
  split_ifs at hnode
  obtain rfl := Option.some_inj.mp hnode
  cases latest with
  | none =>
    apply h.insert src 0
    exact fun _ => .inl rfl
  | some snapshot =>
    apply h.insert src snapshot.lastIncludedIndex
    exact fun _ => .inr ⟨rfl, hok snapshot rfl⟩

theorem startElection_accounted (hself : node.nodeId ∈ node.membership.members) :
    wp startElection (fun _ node' => node'.Accounted) (fun _ node' => node'.Accounted) node := by
  have hcampaign : ∀ storage : Storage T,
      Accounted { node.campaign with storage := storage } := by
    intro storage
    constructor
    · intro _
      exact hself
    · intro hstate
      cases hstate
  unfold startElection
  rw [wp_bind, wp_modify, wp_bind, wp_get, wp_bind]
  apply wp_write
  · intro rest
    rw [wp_bind]
    apply wp_write
    · intro rest'
      rw [wp_modify]
      apply accounted_requestVotes (hcampaign _)
      intro hfollower
      cases hfollower
    · intro e rest'
      exact hcampaign _
  · intro e rest
    exact hcampaign _

theorem handleRequestVoteResponse_accounted (h : node.Accounted) (sender : NodeId)
    (resp : RequestVoteResponse) :
    wp (handleRequestVoteResponse sender resp) (fun _ node' => node'.Accounted)
      (fun _ node' => node'.Accounted) node := by
  unfold handleRequestVoteResponse
  rw [wp_bind]
  refine wp_mono ?_ (fun _ _ hseen => hseen h) (frame_handleTermUpdate (R := KeepsAccount) resp.term node)
  intro _ node' hseen
  rw [wp_modify]
  exact (hseen h).countVote sender resp

end Events

/-! ## Runs -/

section Runs

variable [StateMachine T M]

namespace NodeRun

variable {r : NodeRun T M} {e : NodeEvent T M}

omit [StateMachine T M] in
theorem accounted_advancesOn (h : r.driver.node.Accounted) (hok : e.CountsMembers r)
    {node : RaftNode T} (hnode : r.advancesOn e = some node) : node.Accounted := by
  have hexpecting : ∀ outcomes, (r.driver.expecting outcomes).node.Accounted :=
    fun _ => ⟨h.self, h.table⟩
  unfold advancesOn at hnode
  split at hnode
  · obtain rfl := Option.some_inj.mp hnode
    exact hexpecting _
  · next outcomes => exact answered_append (hexpecting outcomes) hok hnode
  · next outcomes => exact answered_snapshot (hexpecting outcomes) hok hnode
  · cases hnode

/-- **Step lemma**: the table stays in order. -/
theorem accounted_step (h : r.driver.node.Accounted) (hok : e.CountsMembers r) :
    ((system T M).step r e).driver.node.Accounted := by
  cases e with
  | propose change noopCommand => exact h.proposeMembershipChange hok noopCommand
  | restart stateMachine => exact accounted_new _ _
  | call e outcomes =>
    have hexpecting : (r.driver.expecting outcomes).node.Accounted := ⟨h.self, h.table⟩
    have hadvances : ∀ {node}, r.advancesOn (.call e outcomes) = some node → node.Accounted :=
      fun hnode => accounted_advancesOn h hok hnode
    change (e.act (r.driver.expecting outcomes)).node.Accounted
    cases helection : e.isElection with
    | true =>
      rcases Event.isElection_cases helection with ⟨i, rfl⟩ | ⟨src, dst, resp, rfl⟩
      · exact RaftDriver.after_wp (P := Accounted) (startElection_accounted hok)
      · exact RaftDriver.after_wp (P := Accounted)
          (handleRequestVoteResponse_accounted hexpecting src resp)
    | false =>
      cases hprogress : e.isProgress with
      | false => exact (Event.quiet_act helection hprogress : KeepsAccount _ _) hexpecting
      | true =>
        rcases Event.isProgress_cases hprogress with
          ⟨src, dst, resp, rfl⟩ | ⟨src, dst, resp, rfl⟩ | ⟨i, rfl⟩
        · exact RaftDriver.after_wp (P := Accounted) (handled_answer hexpecting fun node' => hadvances)
        · exact RaftDriver.after_wp (P := Accounted)
            (handled_answer (f := fun node => (recordSnapshotResponse node.lastSnapshot · src))
              hexpecting fun node' => hadvances)
        · exact hexpecting.advanceCommitIndex

end NodeRun

/-! ## Whole runs -/

/-- **The commit rule**: in every run in which elections start at members, nobody is removed whose
answers are ahead of the commit index, and only members answer ahead of it, whatever is looked at
for what to commit is committed by members. -/
theorem commits_by_members {config : RaftConfig} {disk : Disk T} {sm : M} {r : NodeRun T M}
    {e : NodeEvent T M} {node : RaftNode T}
    (hrun : (NodeRun.system T M).Steps (fun r e => e.CountsMembers r) (.initial config disk sm) r)
    (hok : e.CountsMembers r) (hnode : r.advancesOn e = some node) : node.CommitsByMembers := by
  have haccounted : r.driver.node.Accounted :=
    hrun.invariant (fun _ _ _ hok h => NodeRun.accounted_step h hok) (accounted_new _ _)
  exact (NodeRun.accounted_advancesOn haccounted hok hnode).commitsByMembers

end Runs

section Examples

instance (r : NodeRun ℕ Unit) : ∀ e : NodeEvent ℕ Unit, Decidable (e.CountsMembers r)
  | .call (.startElection _) _ => inferInstanceAs (Decidable (_ ∈ _))
  | .call (.deliver _ _ (.appendEntriesResponse _)) _ => inferInstanceAs (Decidable (_ → _))
  | .call (.deliver src _ (.installSnapshotResponse _)) _ =>
    inferInstanceAs (Decidable (∀ snapshot ∈ r.driver.node.lastSnapshot,
      r.driver.node.AnswersWithin src snapshot.lastIncludedIndex))
  | .propose change _ => inferInstanceAs (Decidable (r.driver.node.RemovesBehind change))
  | .call (.deliver _ _ (.requestVote _)) _ | .call (.deliver _ _ (.requestVoteResponse _)) _
  | .call (.deliver _ _ (.appendEntries _)) _ | .call (.deliver _ _ (.installSnapshot _)) _
  | .call (.clientRequest _ _) _ | .call (.replicateToPeer _ _) _
  | .call (.advanceCommitIndex _) _ | .call (.applyCommitted _) _ | .call (.createSnapshot _) _
  | .restart _ => .isTrue trivial

/-- Node 1 of three leads and commits its first entry. It sends a second one, and proposes to remove
server 3, all of which is still to be acknowledged. -/
def removesServer : List (NodeEvent ℕ Unit) :=
  [.call (.startElection 1) [], .call (.deliver 2 1 (.requestVoteResponse ⟨1, true⟩)) [],
    .call (.clientRequest 1 10) [], .call (.deliver 2 1 (.appendEntriesResponse ⟨1, true, 1⟩)) [],
    .call (.clientRequest 1 11) [], .propose (.removeServer 3) 0]

/-- The other member acknowledges the second entry. -/
theorem commits_by_members_removesServer :
    let r := (NodeRun.system ℕ Unit).exec oneVoter removesServer
    ∃ node, r.advancesOn (.call (.deliver 2 1 (.appendEntriesResponse ⟨1, true, 2⟩)) []) =
      some node ∧ node.CommitsByMembers := by
  intro r
  have hlegal : System.Legal (NodeRun.system ℕ Unit) (fun r e => e.CountsMembers r) oneVoter
      removesServer := by
    decide
  obtain ⟨node, hnode⟩ := Option.isSome_iff_exists.mp (show Option.isSome (r.advancesOn
    (.call (.deliver 2 1 (.appendEntriesResponse ⟨1, true, 2⟩)) [])) by decide)
  exact ⟨node, hnode, commits_by_members hlegal.steps (by decide) hnode⟩

/-- **A removed server is counted**: its late answer commits the second entry, which none but the
leader has of the two members. -/
theorem removed_server_counted :
    ¬ ∀ (config : RaftConfig) (r : NodeRun ℕ Unit) (e : NodeEvent ℕ Unit) (node : RaftNode ℕ),
      (NodeRun.system ℕ Unit).Steps System.Free (.initial config {} ()) r →
      r.advancesOn e = some node → node.CommitsByMembers := by
  intro h
  have hlegal : System.Legal (NodeRun.system ℕ Unit) System.Free oneVoter removesServer := by decide
  let r := (NodeRun.system ℕ Unit).exec oneVoter removesServer
  let late : NodeEvent ℕ Unit := .call (.deliver 3 1 (.appendEntriesResponse ⟨1, true, 2⟩)) []
  have hcommits : ∀ node ∈ r.advancesOn late, node.CommitsByMembers := fun node hnode =>
    h _ r late node hlegal.steps hnode
  exact absurd hcommits (by decide)

end Examples

end Pirc.Raft
