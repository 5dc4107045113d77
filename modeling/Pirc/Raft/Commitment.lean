import Pirc.Raft.Election

/-!
# Raft: state-machine safety

Nodes never apply different commands at one log index, and no leader is elected without what an
earlier one committed, in every run that keeps three side conditions. Each names a place where the
code acknowledges or counts something it did not check:

* a candidate counts a vote of an earlier term (`Event.countsStaleVote`);
* a follower answers a request that covers only a part of its log with `match_index = last_index`,
  although the rest was never compared with the leader's log (`Event.acksStaleTail`);
* a leader takes an acknowledgement of an earlier term for one of its own
  (`Event.countsStaleAck`).
-/

namespace Pirc.Raft

variable {T M : Type}

/-! ## What a scan of the progress table finds -/

section Scan

theorem countReplicas_le (quorum idx : ℕ) : ∀ (count : ℕ) (ms : List ℕ),
    RaftNode.countReplicas quorum idx count ms ≤ count + (ms.filter (idx ≤ ·)).length
  | count, [] => by simp [RaftNode.countReplicas]
  | count, m :: ms => by
    by_cases hm : idx ≤ m
    · have := countReplicas_le quorum idx (count + 1) ms
      simp only [RaftNode.countReplicas, hm, if_true, List.filter_cons, decide_true,
        List.length_cons]
      split_ifs <;> omega
    · have := countReplicas_le quorum idx count ms
      simpa [RaftNode.countReplicas, hm] using this

theorem scanCommit_cases (log : RaftLog T) (t quorum commit : ℕ) (ms : List ℕ) : ∀ n,
    RaftNode.scanCommit log t quorum commit ms n = commit ∨
    (log.termAt (RaftNode.scanCommit log t quorum commit ms n) = some t ∧
      quorum ≤ RaftNode.countReplicas quorum
        (RaftNode.scanCommit log t quorum commit ms n) 1 ms)
  | 0 => .inl rfl
  | n + 1 => by
    have ih := scanCommit_cases log t quorum commit ms n
    rw [RaftNode.scanCommit]
    by_cases hle : n + 1 ≤ commit
    · exact .inl (if_pos hle)
    rw [if_neg hle]
    cases hterm : log.termAt (n + 1) with
    | none => exact ih
    | some entryTerm =>
      dsimp only
      by_cases heq : entryTerm = t
      · rw [if_pos heq]
        by_cases hq : quorum ≤ RaftNode.countReplicas quorum (n + 1) 1 ms
        · rw [if_pos hq]
          exact .inr ⟨by rw [hterm, heq], hq⟩
        · rw [if_neg hq]
          exact ih
      · rw [if_neg heq]
        by_cases hlt : entryTerm < t
        · exact .inl (if_pos hlt)
        · rw [if_neg hlt]
          exact ih

end Scan

/-! ## Committed prefixes -/

/-- The node `n` acknowledged, in term `t`, every position up to `m`. -/
def AckedTo (L : RaftLedger T) (n : NodeId) (t m : ℕ) : Prop :=
  ∀ j, 1 ≤ j → j ≤ m → (n, t, j) ∈ L.acks

/-- The first `k` entries of `l` are committed, in a term up to `b`. -/
def CommittedTo (cfg : ClusterConfig) (L : RaftLedger T) (b : ℕ) (l : List (LogEntry T)) (k : ℕ) :
    Prop :=
  k = 0 ∨ ∃ t k', t ≤ b ∧ k ≤ k' ∧ L.Committed LogEntry.term cfg.quorums t k' ∧
    (L.leaderLog t).take k <+: l

namespace CommittedTo

variable {cfg : ClusterConfig} {L L' : RaftLedger T} {b b' k : ℕ} {l l' p : List (LogEntry T)}

theorem length_le (hinv : L.Inv LogEntry.term cfg.quorums) {t k' : ℕ}
    (h : L.Committed LogEntry.term cfg.quorums t k') : k' ≤ (L.leaderLog t).length := by
  obtain ⟨-, Q, hQ, hacks⟩ := h
  obtain ⟨n, hn, -⟩ := cfg.quorums.inter hQ hQ
  exact (hinv.ack_le (hacks n hn)).2.2

theorem mono (hinv : L.Inv LogEntry.term cfg.quorums) (hle : L.Le L') (hb : b ≤ b')
    (hl : l <+: l') (h : CommittedTo cfg L b l k) : CommittedTo cfg L' b' l' k := by
  rcases h with rfl | ⟨t, k', ht, hk, hcom, hp⟩
  · exact .inl rfl
  · have hlen := hk.trans (length_le hinv hcom)
    refine .inr ⟨t, k', ht.trans hb, hk, hle.committed hinv hcom, ?_⟩
    have hacked := hle.acked_eq (hinv.committed_winner_ne hcom) hlen
    rw [Ledger.acked, Ledger.acked] at hacked
    rw [hacked]
    exact hp.trans hl

theorem merge (hinv : L.Inv LogEntry.term cfg.quorums) (hw : L.winner b ≠ none)
    (hp : p <+: L.leaderLog b) (h : CommittedTo cfg L b l k) :
    CommittedTo cfg L b (Ledger.merge l p) k := by
  rcases h with rfl | ⟨t, k', ht, hk, hcom, hl⟩
  · exact .inl rfl
  · refine .inr ⟨t, k', ht, hk, hcom, ?_⟩
    unfold Ledger.merge
    split_ifs with hpl
    · exact hl
    · have hlead : (L.leaderLog t).take k <+: L.leaderLog b :=
        (List.take_prefix_take_left hk).trans (hinv.committed_prefix_leaderLog hcom ht hw)
      rcases List.prefix_or_prefix_of_prefix hlead hp with hkp | hpk
      · exact hkp
      · exact absurd (hpk.trans hl) hpl

theorem of_isPrefix (hinv : L.Inv LogEntry.term cfg.quorums) (hl : l' <+: l)
    (h : CommittedTo cfg L b l k) {j : ℕ} (hj : j ≤ k) (hlen : j ≤ l'.length) :
    CommittedTo cfg L b l' j := by
  rcases h with rfl | ⟨t, k', ht, hk, hcom, hp⟩
  · exact .inl (by omega)
  · refine .inr ⟨t, k', ht, hj.trans hk, hcom, ?_⟩
    have hj' : (L.leaderLog t).take j <+: l := (List.take_prefix_take_left hj).trans hp
    have := length_le hinv hcom
    refine List.prefix_of_prefix_length_le hj' hl ?_
    rw [List.length_take]
    omega

end CommittedTo

/-! ## Acknowledgements and commit positions -/

/-- What the ledger knows about a message's commit position, or about the positions it
acknowledges. -/
def Vouched (cfg : ClusterConfig) (L : RaftLedger T) (i : NodeId) : RaftMessage T → Prop
  | .appendEntries req => CommittedTo cfg L req.term (L.leaderLog req.term) req.leaderCommit
  | .appendEntriesResponse resp => resp.success = true → AckedTo L i resp.term resp.matchIndex
  | _ => True

/-- The positions a node counts, follows or announces are acknowledged or committed. -/
structure NodeCommits (cfg : ClusterConfig) (L : RaftLedger T) (i : NodeId) (node : RaftNode T) :
    Prop where
  progress : node.state = .leader → ∀ leader, node.leaderState = some leader →
    ∀ p m, leader.matchIndex.lookup p = some m →
      p ∈ cfg.members ∧ p ≠ i ∧ AckedTo L p node.currentTerm m
  commit : CommittedTo cfg L node.currentTerm node.log.entries node.volatile.commitIndex
  sent : ∀ x ∈ node.outbound, Vouched cfg L i x.2

theorem AckedTo.mono {L L' : RaftLedger T} {n : NodeId} {t m : ℕ} (h : AckedTo L n t m)
    (hle : L.Le L') : AckedTo L' n t m := fun j hj hjm => hle.acks (h j hj hjm)

theorem Vouched.mono {cfg : ClusterConfig} {L L' : RaftLedger T} {i dst : NodeId}
    {msg : RaftMessage T} (hinv : L.Inv LogEntry.term cfg.quorums) (hle : L.Le L')
    (hb : Backed L i dst msg) (h : Vouched cfg L i msg) : Vouched cfg L' i msg := by
  cases msg with
  | appendEntries req =>
    have hw : L.winner req.term ≠ none := by simp [hb.2.1]
    exact CommittedTo.mono hinv hle le_rfl (hle.leaderLog hw) h
  | appendEntriesResponse resp => exact fun hs => (h hs).mono hle
  | requestVote req => trivial
  | requestVoteResponse resp => trivial
  | installSnapshot req => trivial
  | installSnapshotResponse resp => trivial

namespace NodeCommits

variable {cfg : ClusterConfig} {L L' : RaftLedger T} {i : NodeId} {node node' : RaftNode T}

theorem mono (h : NodeCommits cfg L i node) (hinv : L.Inv LogEntry.term cfg.quorums)
    (hle : L.Le L') (hb : ∀ x ∈ node.outbound, Backed L i x.1 x.2) :
    NodeCommits cfg L' i node where
  progress hs leader hl p m hp :=
    ⟨(h.progress hs leader hl p m hp).1, (h.progress hs leader hl p m hp).2.1,
      (h.progress hs leader hl p m hp).2.2.mono hle⟩
  commit := h.commit.mono hinv hle le_rfl List.prefix_rfl
  sent x hx := (h.sent x hx).mono hinv hle (hb x hx)

theorem observe (h : NodeCommits cfg L i node) (hinv : L.Inv LogEntry.term cfg.quorums) (t : ℕ) :
    NodeCommits cfg L i (node.observe t) := by
  by_cases ht : node.currentTerm < t
  · rw [RaftNode.observe, if_pos ht]
    exact
      { h with
        progress := fun hs => by cases hs
        commit := h.commit.mono hinv (.refl L) ht.le List.prefix_rfl }
  · rwa [RaftNode.observe, if_neg ht]

theorem sends (h : NodeCommits cfg L i node) {P : NodeId → RaftMessage T → Prop}
    (hs : node.Sends P node') (hP : ∀ p m, P p m → Vouched cfg L i m) :
    NodeCommits cfg L i node' := by
  have hsent : ∀ x ∈ node'.outbound, Vouched cfg L i x.2 := fun x hx =>
    (hs.mem_outbound hx).elim (h.sent x) (hP x.1 x.2)
  obtain ⟨out, rfl, -⟩ := hs
  exact { h with sent := hsent }

theorem send (h : NodeCommits cfg L i node) {p : NodeId} {m : RaftMessage T}
    (hm : Vouched cfg L i m) : NodeCommits cfg L i (node.send p m) :=
  h.sends (P := fun _ r => r = m) (.send rfl) fun _ _ hr => hr ▸ hm

theorem replicates (h : NodeCommits cfg L i node)
    (hlog : L.leaderLog node.currentTerm = node.log.entries)
    {P : NodeId → RaftMessage T → Prop} (hsends : node.Sends P node')
    (hP : ∀ p m, P p m → node.Replicates m) : NodeCommits cfg L i node' := by
  refine h.sends hsends fun p m hpm => ?_
  cases hP p m hpm with
  | entries nextIdx _ =>
    change CommittedTo cfg L node.currentTerm (L.leaderLog node.currentTerm)
      node.volatile.commitIndex
    rw [hlog]
    exact h.commit
  | chunk => trivial

theorem lookup_new {peers : List NodeId} {lastLogIndex : ℕ} {p : NodeId} {m : ℕ} :
    (LeaderState.new peers lastLogIndex).matchIndex.lookup p = some m → p ∈ peers ∧ m = 0 := by
  have hfold : ∀ (peers : List NodeId) (acc : NodeMap ℕ),
      (peers.foldl (fun m peer => m.insert peer 0) acc).lookup p = some m →
        acc.lookup p = some m ∨ p ∈ peers ∧ m = 0 := by
    intro peers
    induction peers with
    | nil => exact fun acc h => .inl h
    | cons q peers ih =>
      intro acc h
      rcases ih _ h with h | h
      · by_cases hpq : p = q
        · subst hpq
          rw [AList.lookup_insert] at h
          exact .inr ⟨List.mem_cons_self, (Option.some_inj.mp h).symm⟩
        · rw [AList.lookup_insert_ne hpq] at h
          exact .inl h
      · exact .inr ⟨List.mem_cons_of_mem _ h.1, h.2⟩
  intro h
  rcases hfold peers ∅ h with h | h
  · simp at h
  · exact h

theorem becomeLeader (h : NodeCommits cfg L i node) (hi : i ∈ cfg.members)
    (h' : NodeRefines cfg L i node.becomeLeader) : NodeCommits cfg L i node.becomeLeader := by
  have hsends := node.lead.sendAppendEntriesToAll_sends
  have h'' : NodeRefines cfg L i node.lead := h'.of_sends hsends
  have hlead : NodeCommits cfg L i node.lead := by
    refine { h with progress := ?_ }
    rintro - leader hl p m hp
    obtain rfl := Option.some_inj.mp hl
    obtain ⟨hpeer, rfl⟩ := lookup_new hp
    have hmem := (h''.mem_peers hi).mp hpeer
    exact ⟨hmem.1, hmem.2, fun j hj hj' => by omega⟩
  exact hlead.replicates (h''.leader rfl).2 hsends fun p m hpm => hpm.2

/-- The peers a leader knows to be at or past an index, and the leader itself. -/
def replicas (i idx : ℕ) (leader : LeaderState) : Finset NodeId :=
  insert i ((leader.matchIndex.entries.filter (idx ≤ ·.2)).map Sigma.fst).toFinset

theorem card_replicas {leader : LeaderState} (idx : ℕ)
    (hne : ∀ p m, leader.matchIndex.lookup p = some m → p ≠ i) :
    (replicas i idx leader).card =
      1 + ((leader.matchIndex.entries.map Sigma.snd).filter (idx ≤ ·)).length := by
  have hnodup : ((leader.matchIndex.entries.filter (idx ≤ ·.2)).map Sigma.fst).Nodup :=
    leader.matchIndex.nodupKeys.sublist List.filter_sublist
  have hi : i ∉ ((leader.matchIndex.entries.filter (idx ≤ ·.2)).map Sigma.fst).toFinset := by
    intro hmem
    obtain ⟨⟨p, m⟩, hp, rfl⟩ := List.mem_map.mp (List.mem_toFinset.mp hmem)
    exact hne p m (AList.mem_lookup_iff.mpr (List.mem_of_mem_filter hp)) rfl
  rw [replicas, Finset.card_insert_of_notMem hi, List.toFinset_card_of_nodup hnodup,
    List.length_map, List.filter_map, List.length_map, Nat.add_comm]
  rfl

/-- **A leader commits what a quorum acknowledged**, itself included. -/
theorem advanceCommitIndex (h : NodeCommits cfg L i node) (hn : NodeRefines cfg L i node)
    (hi : i ∈ cfg.members)
    (hself : node.state = .leader → AckedTo L i node.currentTerm node.log.entries.length) :
    NodeCommits cfg L i node.advanceCommitIndex := by
  rcases RaftNode.advanceCommitIndex_cases hn.pendingChange with
    heq | ⟨leader, k, hs, hl, hk, hlt, heq⟩
  · rwa [heq]
  rw [heq]
  refine { h with commit := ?_ }
  obtain ⟨-, hlog⟩ := hn.leader hs
  have hprogress := h.progress hs leader hl
  rcases scanCommit_cases node.log node.currentTerm node.quorumSize node.volatile.commitIndex
    (leader.matchIndex.entries.map Sigma.snd) node.log.lastIndex with hsame | ⟨hterm, hcount⟩
  · omega
  rw [← hk] at hterm hcount
  rcases RaftLog.termAt_eq_some hterm with ⟨-, hpos, -⟩ | ⟨p, e, hkp, he, heterm⟩
  · have := hn.offset
    omega
  rw [hn.offset, Nat.zero_add] at hkp
  have hplt : p < node.log.entries.length := (List.getElem?_eq_some_iff.mp he).1
  refine .inr ⟨node.currentTerm, k, le_rfl, le_rfl, ⟨⟨e, ?_, heterm⟩, replicas i k leader, ?_, ?_⟩, ?_⟩
  · -- the last committed entry is the one the scan stopped at
    rw [Ledger.acked, hlog, hkp, List.getLast?_eq_getElem?, List.length_take_of_le hplt,
      Nat.succ_sub_one, List.getElem?_take_of_lt (Nat.lt_succ_self p), he]
  · -- the replicas are a majority of the members
    have hle := countReplicas_le node.quorumSize k 1 (leader.matchIndex.entries.map Sigma.snd)
    have hcard := card_replicas (i := i) k fun q m hq => (hprogress q m hq).2.1
    have hquorum : node.quorumSize = cfg.members.length / 2 + 1 := by
      rw [RaftNode.quorumSize, ClusterMembership.quorumSize, hn.members_length hi]
    refine ⟨fun q hq => ?_, ?_⟩
    · rcases Finset.mem_insert.mp hq with rfl | hq
      · exact List.mem_toFinset.mpr hi
      · obtain ⟨⟨q, m⟩, hqm, rfl⟩ := List.mem_map.mp (List.mem_toFinset.mp hq)
        exact List.mem_toFinset.mpr
          (hprogress q m (AList.mem_lookup_iff.mpr (List.mem_of_mem_filter hqm))).1
    · rw [List.toFinset_card_of_nodup cfg.nodup, hcard]
      omega
  · intro q hq
    rcases Finset.mem_insert.mp hq with rfl | hq
    · exact hself hs k (by omega) (by omega)
    · obtain ⟨⟨q, m⟩, hqm, rfl⟩ := List.mem_map.mp (List.mem_toFinset.mp hq)
      obtain ⟨hmem, hkm⟩ := List.mem_filter.mp hqm
      exact (hprogress q m (AList.mem_lookup_iff.mpr hmem)).2.2 k (by omega) (by simpa using hkm)
  · rw [hlog]
    exact List.take_prefix _ _

end NodeCommits

/-! ## The side conditions -/

/-- The event makes a follower acknowledge entries past the request, of another term than the
leader's, that the request did not compare. -/
def Event.acksStaleTail (c : Cluster T M) : Event T → Bool
  | .deliver _ dst (.appendEntries req) =>
    let node := (c dst).node
    node.currentTerm ≤ req.term &&
      req.prevLogIndex + req.entries.length < node.log.lastIndex &&
      node.log.lastTerm ≠ req.term &&
      (req.prevLogIndex = 0 || node.log.termAt req.prevLogIndex = some req.prevLogTerm) &&
      req.entries.all fun e => node.log.termAt e.index = some e.term
  | _ => false

def Event.countsStaleAck (c : Cluster T M) : Event T → Bool
  | .deliver _ dst (.appendEntriesResponse resp) =>
    resp.success && (c dst).node.state = .leader && resp.term < (c dst).node.currentTerm
  | _ => false

/-- The side conditions of state-machine safety. -/
def Event.Faithful (c : Cluster T M) (e : Event T) : Prop :=
  e.Timely c ∧ e.acksStaleTail c = false ∧ e.countsStaleAck c = false

instance (c : Cluster T M) (e : Event T) : Decidable (e.Faithful c) :=
  inferInstanceAs (Decidable (_ ∧ _))

/-! ## One node -/

/-- A request a follower accepts without acknowledging a stale tail leaves it with a prefix of the
leader's log. -/
theorem NodeRefines.accepted_isPrefix {cfg : ClusterConfig} {L : RaftLedger T} {i : NodeId}
    {node : RaftNode T} {req : AppendEntries T} {log : RaftLog T} (hn : NodeRefines cfg L i node)
    (hL : Sound cfg L) (hw : L.winner req.term ≠ none)
    (hseg : Segment (L.leaderLog req.term) req)
    (hlog : node.log.appendEntries req.prevLogIndex req.prevLogTerm req.entries = some log)
    (htail : req.prevLogIndex + req.entries.length < node.log.lastIndex →
      (∀ e ∈ req.entries, node.log.termAt e.index = some e.term) → node.log.lastTerm = req.term) :
    log.entries <+: L.leaderLog req.term := by
  have hvalid := hn.valid hL
  rw [appendEntries_eq_merge hn.offset hvalid (hL.inv.leaderLog_valid hw) (hL.indexed hw) hseg hlog]
  have hlen : req.prevLogIndex + req.entries.length ≤ (L.leaderLog req.term).length := by
    have := hseg.entries.length_le
    rw [List.length_drop] at this
    have := hseg.prev_le
    omega
  unfold Ledger.merge
  dsimp only
  split_ifs with hp
  · rcases Nat.lt_or_ge (req.prevLogIndex + req.entries.length) node.log.lastIndex with hlt | hge
    · -- the log is longer than the request: it ends in the leader's own term
      have hall : ∀ e ∈ req.entries, node.log.termAt e.index = some e.term := by
        intro e he
        obtain ⟨j, hj⟩ := List.getElem?_of_mem he
        have hjlt := (List.getElem?_eq_some_iff.mp hj).1
        have hlead : (L.leaderLog req.term)[req.prevLogIndex + j]? = some e := by
          rw [← List.getElem?_drop]
          exact Ledger.getElem?_of_isPrefix hseg.entries hj
        have hown : node.log.entries[req.prevLogIndex + j]? = some e := by
          refine Ledger.getElem?_of_isPrefix hp ?_
          rw [List.getElem?_take_of_lt (by omega), hlead]
        have hidx := RaftLog.contiguous_iff.mp (hL.indexed hw) _ e hlead
        have hat := node.log.termAt_offset_add (req.prevLogIndex + j)
        rw [hn.offset, Nat.zero_add, hown] at hat
        rw [hidx, Nat.add_comm 1]
        exact hat
      have hterm := htail hlt hall
      have hne : node.log.entries ≠ [] := by
        intro hnil
        simp [hn.lastIndex, hnil] at hlt
      obtain ⟨x, hx⟩ := Option.ne_none_iff_exists'.mp (mt List.getLast?_eq_none_iff.mp hne)
      have hxterm : x.term = req.term := by
        rw [← hterm, hn.lastTerm, Ledger.lastTerm, hx]
        rfl
      rw [← hxterm]
      exact (hvalid.last hx).2
    · -- the request covers the log
      rw [hn.lastIndex] at hge
      have hsame : node.log.entries =
          (L.leaderLog req.term).take (req.prevLogIndex + req.entries.length) :=
        (hp.eq_of_length_le (by rwa [List.length_take_of_le hlen])).symm
      rw [hsame]
      exact List.take_prefix _ _
  · exact List.take_prefix _ _

namespace NodeCommits

variable {cfg : ClusterConfig} {L L' : RaftLedger T} {i src : NodeId} {node : RaftNode T}

theorem requestVotes (h : NodeCommits cfg L i node) (hi : i ∈ cfg.members)
    (h' : NodeRefines cfg L i node.requestVotes) : NodeCommits cfg L i node.requestVotes := by
  unfold RaftNode.requestVotes at h' ⊢
  split_ifs at h' ⊢ with hq
  · exact h.becomeLeader hi h'
  · refine h.sends node.voteRequests_sends ?_
    rintro p m rfl
    trivial

theorem countVote (h : NodeCommits cfg L i node) (hi : i ∈ cfg.members)
    {resp : RequestVoteResponse} (h' : NodeRefines cfg L i (node.countVote src resp)) :
    NodeCommits cfg L i (node.countVote src resp) := by
  unfold RaftNode.countVote at h' ⊢
  split_ifs at h' ⊢ with hs hg
  · exact h
  · dsimp only at h' ⊢
    have hcount : NodeCommits cfg L i
        { node with electionTracker := node.electionTracker.recordVote src } := { h with }
    split_ifs at h' ⊢ with hq
    · exact hcount.becomeLeader hi h'
    · exact hcount
  · exact h

theorem clientRequest (h : NodeCommits cfg L i node) (hinv : L.Inv LogEntry.term cfg.quorums)
    {command : T} (h' : NodeRefines cfg L i (node.clientRequest command).2) :
    NodeCommits cfg L i (node.clientRequest command).2 := by
  unfold RaftNode.clientRequest at h' ⊢
  split_ifs at h' ⊢ with hs
  · exact h
  · rw [not_not] at hs
    have hsends := (node.appendCommand command).sendAppendEntriesToAll_sends
    have happend : NodeCommits cfg L i (node.appendCommand command) :=
      { h with commit := h.commit.mono hinv (.refl L) le_rfl (List.prefix_append _ _) }
    exact happend.replicates ((h'.of_sends hsends).leader hs).2 hsends fun p m hpm => hpm.2

theorem replicateToPeer (h : NodeCommits cfg L i node) {peer : NodeId}
    (h' : NodeRefines cfg L i (node.replicateToPeer peer)) :
    NodeCommits cfg L i (node.replicateToPeer peer) := by
  by_cases hs : node.state = .leader
  · have hsends := node.replicateToPeer_sends peer
    exact h.replicates ((h'.of_sends hsends).leader hs).2 hsends fun p m hpm => hpm.2.2
  · rwa [RaftNode.replicateToPeer, if_pos hs]

theorem updateProgress (h : NodeCommits cfg L i node) (hn : NodeRefines cfg L i node)
    (hi : i ∈ cfg.members) (hsrc : src ∈ cfg.members) (hne : src ≠ i)
    (hself : node.state = .leader → AckedTo L i node.currentTerm node.log.entries.length)
    {resp : AppendEntriesResponse}
    (hack : node.state = .leader → resp.success = true →
      AckedTo L src node.currentTerm resp.matchIndex) :
    NodeCommits cfg L i (node.updateProgress (RaftNode.recordAppendResponse · src resp)) := by
  unfold RaftNode.updateProgress
  split_ifs with hs
  · exact h
  rw [not_not] at hs
  refine advanceCommitIndex { h with progress := ?_ } { hn with } hi hself
  rintro - leader' hl' p m hp
  obtain ⟨leader, hl, rfl⟩ := Option.map_eq_some_iff.mp hl'
  have hold := h.progress hs leader hl
  unfold RaftNode.recordAppendResponse at hp
  dsimp only at hp
  split_ifs at hp with hsucc
  · by_cases hpsrc : p = src
    · subst hpsrc
      rw [AList.lookup_insert] at hp
      obtain rfl := Option.some_inj.mp hp
      exact ⟨hsrc, hne, hack hs hsucc⟩
    · rw [AList.lookup_insert_ne hpsrc] at hp
      exact hold p m hp
  · exact hold p m hp
  · exact hold p m hp

theorem accept {req : AppendEntries T} {log : RaftLog T} (h : NodeCommits cfg L i node)
    (hn : NodeRefines cfg L i node) (hL : Sound cfg L) (hterm : node.currentTerm ≤ req.term)
    (hw : L.winner req.term ≠ none) (hseg : Segment (L.leaderLog req.term) req)
    (hlog : node.log.appendEntries req.prevLogIndex req.prevLogTerm req.entries = some log)
    (hpre : log.entries <+: L.leaderLog req.term)
    (hcommit : CommittedTo cfg L req.term (L.leaderLog req.term) req.leaderCommit) :
    NodeCommits cfg L i
      { (node.observe req.term).follow req.leaderId with
        log := log
        volatile := { node.volatile with
          commitIndex := node.followerCommit req.leaderCommit log } } := by
  have hmerge := appendEntries_eq_merge hn.offset (hn.valid hL) (hL.inv.leaderLog_valid hw)
    (hL.indexed hw) hseg hlog
  have hlast : log.lastIndex = log.entries.length := by
    rw [RaftLog.lastIndex, hmerge]
    simp [hn.offset]
  refine ⟨fun hs => (by cases hs), ?_, ?_⟩
  · have hmax : max node.currentTerm req.term = req.term := max_eq_right hterm
    simp only [RaftNode.follow, RaftNode.observe_currentTerm, hmax, RaftNode.followerCommit]
    split_ifs with hlt
    · exact hcommit.of_isPrefix hL.inv hpre (min_le_left _ _)
        ((min_le_right _ _).trans hlast.le)
    · have hown := h.commit.mono hL.inv (.refl L) hterm List.prefix_rfl
      rw [hmerge]
      exact hown.merge hL.inv hw (List.take_prefix _ _)
  · simpa [RaftNode.follow] using h.sent

end NodeCommits

/-! ## Clusters -/

/-- The entry is in a committed prefix, at the position its index names. -/
def Settled (cfg : ClusterConfig) (L : RaftLedger T) (e : LogEntry T) : Prop :=
  ∃ t k p, L.Committed LogEntry.term cfg.quorums t k ∧ e.index = p + 1 ∧
    (L.acked t k)[p]? = some e

/-- **The invariant of faithful runs**: the cluster refines the ledger, all positions in use are
acknowledged or committed, and only committed entries were applied. -/
structure Commits (cfg : ClusterConfig) (c : Cluster T M) (L : RaftLedger T) : Prop where
  refines : Refines cfg c L
  node : ∀ i ∈ cfg.members, NodeCommits cfg L i (c i).node
  applied : ∀ i ∈ cfg.members, ∀ e ∈ (c i).commitTx, Settled cfg L e

theorem Settled.unique {cfg : ClusterConfig} {L : RaftLedger T}
    (hinv : L.Inv LogEntry.term cfg.quorums) {x y : LogEntry T} (hx : Settled cfg L x)
    (hy : Settled cfg L y) (heq : x.index = y.index) : x = y := by
  obtain ⟨t, k, p, hcom, hp, hget⟩ := hx
  obtain ⟨t', k', p', hcom', hp', hget'⟩ := hy
  obtain rfl : p = p' := by omega
  exact hinv.committed_agree hcom hcom' hget hget'

theorem Settled.mono {cfg : ClusterConfig} {L L' : RaftLedger T}
    (hinv : L.Inv LogEntry.term cfg.quorums) (hle : L.Le L') {e : LogEntry T}
    (h : Settled cfg L e) : Settled cfg L' e := by
  obtain ⟨t, k, p, hcom, hp, hget⟩ := h
  refine ⟨t, k, p, hle.committed hinv hcom, hp, ?_⟩
  rwa [hle.acked_eq (hinv.committed_winner_ne hcom) (CommittedTo.length_le hinv hcom)]

theorem NodeCommits.unapplied {cfg : ClusterConfig} {L : RaftLedger T} {i : NodeId}
    {node : RaftNode T} (h : NodeCommits cfg L i node) (hn : NodeRefines cfg L i node)
    (hL : Sound cfg L) {e : LogEntry T} (he : e ∈ node.unapplied) : Settled cfg L e := by
  obtain ⟨idx, hidx, hget⟩ := List.mem_filterMap.mp he
  rw [List.mem_range'_1] at hidx
  obtain ⟨p, hp, hentry⟩ := RaftLog.get_eq_some hget
  rw [hn.offset, Nat.zero_add] at hp
  have hindex := RaftLog.contiguous_iff.mp (hL.contiguous (hn.valid hL)) p e hentry
  rcases h.commit with hzero | ⟨t, k, -, hk, hcom, hpre⟩
  · omega
  · refine ⟨t, k, p, hcom, by omega, ?_⟩
    have hlen := CommittedTo.length_le hL.inv hcom
    have hlt : p < ((L.leaderLog t).take node.volatile.commitIndex).length := by
      rw [List.length_take]
      omega
    have hsame := Ledger.getElem?_of_isPrefix hpre (List.getElem?_eq_getElem hlt)
    rw [hentry] at hsame
    rw [Option.some_inj.mp hsame, List.getElem_take, Ledger.acked,
      List.getElem?_take_of_lt (by omega), List.getElem?_eq_getElem]

theorem Refines.ack {cfg : ClusterConfig} {c : Cluster T M} {L : RaftLedger T} {i : NodeId}
    {k : ℕ} (h : Refines cfg c L) (hi : i ∈ cfg.members)
    (hw : L.winner (c i).node.currentTerm ≠ none)
    (hk : k ≤ (L.leaderLog (c i).node.currentTerm).length)
    (hl : (L.leaderLog (c i).node.currentTerm).take k <+: (c i).node.log.entries) :
    ∃ L', L.Le L' ∧ Refines cfg c L' ∧ AckedTo L' i (c i).node.currentTerm k := by
  have hn := h.node i hi
  have hmove : Ledger.Step LogEntry.term cfg.quorums i L _ :=
    .ack k (by rwa [hn.term]) (by rwa [hn.term]) (by rwa [hn.term, hn.log])
  have hle := hmove.le h.sound.inv
  refine ⟨_, hle, ⟨h.sound.of_moves (.single hmove) (fun _ => rfl) (fun _ => rfl) h.sound.pos,
    fun j hj => { h.node j hj with sent := fun x hx => ((h.node j hj).sent x hx).mono hle }⟩,
    fun j _ hjk => .inr ⟨j, hjk, by rw [hn.term]⟩⟩

section Steps

variable [StateMachine T M] {cfg : ClusterConfig} {c : Cluster T M} {L : RaftLedger T}

namespace Commits

omit [StateMachine T M] in
theorem self_acked (h : Commits cfg c L) {i : NodeId} (hi : i ∈ cfg.members) :
    ∃ L', L.Le L' ∧ Refines cfg c L' ∧ ((c i).node.state = .leader →
      AckedTo L' i (c i).node.currentTerm (c i).node.log.entries.length) := by
  by_cases hs : (c i).node.state = .leader
  · obtain ⟨hw, hlog⟩ := (h.refines.node i hi).leader hs
    obtain ⟨L', hle, href, hack⟩ := h.refines.ack hi (by simp [hw]) (by rw [hlog])
      (by rw [hlog]; exact List.take_prefix _ _)
    exact ⟨L', hle, href, fun _ => hack⟩
  · exact ⟨L, .refl L, h.refines, fun hs' => absurd hs' hs⟩

/-- What the node an event happens at knows afterwards, in a ledger that grew. -/
abbrev Next (cfg : ClusterConfig) (c : Cluster T M) (L : RaftLedger T) (e : Event T) : Prop :=
  ∃ L', L.Le L' ∧ Refines cfg (cfg.system.step c e) L' ∧
    NodeCommits cfg L' e.actor (e.act (c e.actor)).node

/-- Steps whose new positions are known in whatever ledger the step leads to. -/
theorem next_of_after (h : Commits cfg c L) {e : Event T} (en : e.Enabled cfg c)
    (hok : e.Timely c)
    (H : ∀ L', L.Le L' → Sound cfg L' → NodeCommits cfg L' e.actor (c e.actor).node →
      NodeRefines cfg L' e.actor (e.act (c e.actor)).node →
      NodeCommits cfg L' e.actor (e.act (c e.actor)).node) : Next cfg c L e := by
  obtain ⟨L', hmoves, href⟩ := h.refines.step en hok
  have hle := (h.refines.sound.inv.steps hmoves).2.1
  have hn := href.node e.actor en.1
  simp only [ClusterConfig.system, Function.update_self] at hn
  exact ⟨L', hle, href, H L' hle href.sound
    ((h.node _ en.1).mono h.refines.sound.inv hle (h.refines.node _ en.1).sent) hn⟩

theorem next_of_before {e : Event T} {L₀ : RaftLedger T} (en : e.Enabled cfg c)
    (hok : e.Timely c) (hle₀ : L.Le L₀) (h₀ : Refines cfg c L₀)
    (hc : NodeCommits cfg L₀ e.actor (e.act (c e.actor)).node)
    (hsent : (e.act (c e.actor)).node.outbound = (c e.actor).node.outbound) :
    Next cfg c L e := by
  obtain ⟨L', hmoves, href⟩ := h₀.step en hok
  have hle := (h₀.sound.inv.steps hmoves).2.1
  refine ⟨L', hle₀.trans hle, href, hc.mono h₀.sound.inv hle ?_⟩
  rw [hsent]
  exact (h₀.node _ en.1).sent

theorem next_appendEntries (h : Commits cfg c L) {src i : NodeId} {req : AppendEntries T}
    (en : (Event.deliver src i (.appendEntries req)).Enabled cfg c)
    (hok : (Event.deliver src i (.appendEntries req)).Faithful c) :
    Next cfg c L (.deliver src i (.appendEntries req)) := by
  have hi : i ∈ cfg.members := en.1
  have hn := h.refines.node i hi
  have hL := h.refines.sound
  obtain ⟨-, hw, hreq⟩ := (h.refines.node src en.2.1).sent _ en.2.2
  have hwne : L.winner req.term ≠ none := by simp [hw]
  have hact : (Event.deliver src i (.appendEntries req)).act (c i) =
      (c i).answering src (handleAppendEntries req) .appendEntriesResponse := rfl
  rcases handleAppendEntries_cases hn.reliable req with
    ⟨-, hrun⟩ | ⟨-, -, hrun⟩ | ⟨log, hterm, hlog, hrun⟩
  · refine h.next_of_after en hok.1 fun L' _ _ hc _ => ?_
    change NodeCommits cfg L' i ((c i).answering src _ _).node
    rw [RaftDriver.answering, hrun]
    exact hc.send fun hs => by cases hs
  · refine h.next_of_after en hok.1 fun L' _ hL' hc _ => ?_
    change NodeCommits cfg L' i ((c i).answering src _ _).node
    rw [RaftDriver.answering, hrun]
    have hfollow : NodeCommits cfg L' i (((c i).node.observe req.term).follow req.leaderId) :=
      { hc.observe hL'.inv req.term with progress := fun hs => by cases hs }
    exact hfollow.send fun hs => by cases hs
  · rcases hreq with hseg | hbeyond
    · have htail : req.prevLogIndex + req.entries.length < (c i).node.log.lastIndex →
          (∀ e ∈ req.entries, (c i).node.log.termAt e.index = some e.term) →
          (c i).node.log.lastTerm = req.term := by
        intro hlt hall
        have hcheck : req.prevLogIndex = 0 ∨
            (c i).node.log.termAt req.prevLogIndex = some req.prevLogTerm := by
          by_contra hnot
          rw [not_or] at hnot
          rw [RaftLog.appendEntries, if_pos ⟨by omega, hnot.2⟩] at hlog
          cases hlog
        have hstale := hok.2.1
        simp only [Event.acksStaleTail, hterm, hlt, decide_true, Bool.true_and,
          Bool.and_eq_false_imp, Bool.and_eq_true, Bool.or_eq_true, decide_eq_true_eq,
          List.all_eq_false] at hstale
        by_contra hne
        obtain ⟨e, he, hne'⟩ := hstale ⟨hne, hcheck⟩
        exact hne' (hall e he)
      have hpre := hn.accepted_isPrefix hL hwne hseg hlog htail
      have haccept := (h.node i hi).accept hn hL hterm hwne hseg hlog hpre
        ((h.node src en.2.1).sent _ en.2.2)
      obtain ⟨L₁, hmoves, href⟩ := h.refines.step en hok.1
      have hle := (hL.inv.steps hmoves).2.1
      have hnode : (cfg.system.step c (.deliver src i (.appendEntries req)) i).node =
          RaftNode.send
            { ((c i).node.observe req.term).follow req.leaderId with
              log := log
              volatile := { (c i).node.volatile with
                commitIndex := (c i).node.followerCommit req.leaderCommit log } }
            src (.appendEntriesResponse ⟨req.term, true, log.lastIndex⟩) := by
        simp only [ClusterConfig.system, Event.actor, Function.update_self, hact,
          RaftDriver.answering, hrun]
      have hterm' : (cfg.system.step c (.deliver src i (.appendEntries req)) i).node.currentTerm =
          req.term := by
        rw [hnode]
        simp [RaftNode.send, RaftNode.follow, hterm]
      have hentries : (cfg.system.step c (.deliver src i (.appendEntries req)) i).node.log = log := by
        rw [hnode]
        rfl
      have hlast : log.lastIndex = log.entries.length := by
        rw [← hentries]
        exact (href.node i hi).lastIndex
      have hpre' : log.entries <+: L₁.leaderLog req.term := hpre.trans (hle.leaderLog hwne)
      obtain ⟨L₂, hle₂, href₂, hack⟩ := href.ack (k := log.lastIndex) hi
        (by rw [hterm']; exact hle.winner_ne hwne)
        (by rw [hterm', hlast]; exact hpre'.length_le)
        (by rw [hterm', hentries, hlast, ← List.prefix_iff_eq_take.mp hpre'])
      refine ⟨L₂, hle.trans hle₂, href₂, ?_⟩
      change NodeCommits cfg L₂ i ((c i).answering src _ _).node
      rw [RaftDriver.answering, hrun]
      refine (haccept.mono hL.inv (hle.trans hle₂) ?_).send fun _ => ?_
      · simpa [RaftNode.follow] using hn.sent
      · rwa [hterm'] at hack
    · have hpos : ∀ e ∈ (c i).node.log.entries, 0 < e.term := fun e he =>
        hL.term_pos (hn.valid hL) he
      rw [appendEntries_beyondEnd hn.offset hpos hbeyond] at hlog
      cases hlog

theorem next_appendEntriesResponse (h : Commits cfg c L) {src i : NodeId}
    {resp : AppendEntriesResponse}
    (en : (Event.deliver src i (.appendEntriesResponse resp)).Enabled cfg c)
    (hok : (Event.deliver src i (.appendEntriesResponse resp)).Faithful c) :
    Next cfg c L (.deliver src i (.appendEntriesResponse resp)) := by
  have hi : i ∈ cfg.members := en.1
  have hne : i ≠ src := (h.refines.node src en.2.1).sent _ en.2.2
  have hvouched : Vouched cfg L src (.appendEntriesResponse resp) :=
    (h.node src en.2.1).sent _ en.2.2
  obtain ⟨L₀, hle₀, h₀, hself⟩ := h.self_acked hi
  have hn₀ := h₀.node i hi
  have hc₀ := (h.node i hi).mono h.refines.sound.inv hle₀ (h.refines.node i hi).sent
  have hnode : ((Event.deliver src i (.appendEntriesResponse resp)).act (c i)).node =
      ((c i).node.observe resp.term).updateProgress
        (RaftNode.recordAppendResponse · src resp) := by
    change ((c i).after _).node = _
    rw [RaftDriver.after, handleAppendEntriesResponse_eq hn₀.reliable]
  refine next_of_before en hok.1 hle₀ h₀ ?_ ?_
  · change NodeCommits cfg L₀ i ((Event.deliver src i _).act (c i)).node
    rw [hnode]
    by_cases hlt : (c i).node.currentTerm < resp.term
    · -- a higher term ends the leadership
      have hs : ((c i).node.observe resp.term).state ≠ .leader := by
        simp [RaftNode.observe, hlt, RaftNode.stepDown]
      rw [RaftNode.updateProgress, if_pos hs]
      exact hc₀.observe h₀.sound.inv resp.term
    · rw [RaftNode.observe_of_le (by omega)]
      refine hc₀.updateProgress hn₀ hi en.2.1 hne.symm hself fun hs hsucc => ?_
      have hstale := hok.2.2
      simp only [Event.countsStaleAck, hsucc, Bool.true_and, Bool.and_eq_false_imp,
        decide_eq_true_eq, decide_eq_false_iff_not, not_lt] at hstale
      have heq : resp.term = (c i).node.currentTerm := by
        have := hstale hs
        omega
      rw [← heq]
      exact (hvouched hsucc).mono hle₀
  · change ((Event.deliver src i (.appendEntriesResponse resp)).act (c i)).node.outbound =
      (c i).node.outbound
    rw [hnode, RaftNode.updateProgress_outbound, RaftNode.observe_outbound]

theorem next (h : Commits cfg c L) {e : Event T} (en : e.Enabled cfg c) (hok : e.Faithful c) :
    Next cfg c L e := by
  have hi := en.1
  cases e with
  | startElection i =>
    refine h.next_of_after en hok.1 fun L' _ hL' hc hn => ?_
    have hact : ((Event.startElection i).act (c i)).node =
        (c i).node.savedCampaign.requestVotes := by
      change ((c i).after _).node = _
      rw [RaftDriver.after, startElection_eq (h.refines.node i hi).reliable]
    change NodeCommits cfg L' i ((Event.startElection i).act (c i)).node
    change NodeRefines cfg L' i ((Event.startElection i).act (c i)).node at hn
    rw [hact] at hn ⊢
    have hcampaign : NodeCommits cfg L' i (c i).node.savedCampaign :=
      { hc with
        progress := fun hs => by cases hs
        commit := hc.commit.mono hL'.inv (.refl L') (Nat.le_succ _) List.prefix_rfl }
    exact hcampaign.requestVotes hi hn
  | deliver src i msg =>
    cases msg with
    | requestVote req =>
      refine h.next_of_after en hok.1 fun L' _ hL' hc _ => ?_
      change NodeCommits cfg L' i ((c i).answering src _ _).node
      have hobs := hc.observe hL'.inv req.term
      rcases handleRequestVote_cases (h.refines.node i hi).reliable req with
        hrun | ⟨-, -, -, hrun⟩
      · rw [RaftDriver.answering, hrun]
        exact hobs.send trivial
      · rw [RaftDriver.answering, hrun]
        have hgrant : NodeCommits cfg L' i
            { (c i).node.observe req.term with
              votedFor := some req.candidateId
              storage := { (c i).node.storage with
                disk := { ((c i).node.observe req.term).storage.disk with
                  votedFor := some req.candidateId } } } := { hobs with }
        exact hgrant.send trivial
    | requestVoteResponse resp =>
      refine h.next_of_after en hok.1 fun L' _ hL' hc hn => ?_
      have hact : ((Event.deliver src i (.requestVoteResponse resp)).act (c i)).node =
          ((c i).node.observe resp.term).countVote src resp := by
        change ((c i).after _).node = _
        rw [RaftDriver.after, handleRequestVoteResponse_eq (h.refines.node i hi).reliable]
      change NodeCommits cfg L' i ((Event.deliver src i (.requestVoteResponse resp)).act (c i)).node
      change NodeRefines cfg L' i
        ((Event.deliver src i (.requestVoteResponse resp)).act (c i)).node at hn
      rw [hact] at hn ⊢
      exact (hc.observe hL'.inv resp.term).countVote hi hn
    | appendEntries req => exact h.next_appendEntries en hok
    | appendEntriesResponse resp => exact h.next_appendEntriesResponse en hok
    | installSnapshot req => exact ((h.refines.node src en.2.1).sent _ en.2.2).elim
    | installSnapshotResponse resp => exact ((h.refines.node src en.2.1).sent _ en.2.2).elim
  | clientRequest i command =>
    exact h.next_of_after en hok.1 fun L' _ hL' hc hn => hc.clientRequest hL'.inv hn
  | replicateToPeer i peer =>
    exact h.next_of_after en hok.1 fun L' _ _ hc hn => hc.replicateToPeer hn
  | advanceCommitIndex i =>
    obtain ⟨L₀, hle₀, h₀, hself⟩ := h.self_acked hi
    have hc₀ := (h.node i hi).mono h.refines.sound.inv hle₀ (h.refines.node i hi).sent
    exact next_of_before en hok.1 hle₀ h₀ (hc₀.advanceCommitIndex (h₀.node i hi) hi hself)
      (c i).node.advanceCommitIndex_outbound
  | applyCommitted i =>
    refine h.next_of_after en hok.1 fun L' _ _ hc _ => ?_
    change NodeCommits cfg L' i (c i).applyCommittedEntries.node
    unfold RaftDriver.applyCommittedEntries
    split_ifs
    · exact hc
    · exact { hc with }
  | createSnapshot i => cases hok.1.1

omit [StateMachine T M] in
theorem answering_commitTx {ε α : Type} (d : RaftDriver T M) (sender : NodeId) (x : NodeM T ε α)
    (wrap : α → RaftMessage T) : (d.answering sender x wrap).commitTx = d.commitTx := by
  unfold RaftDriver.answering
  split <;> rfl

omit [StateMachine T M] in
theorem after_commitTx {ε α : Type} (d : RaftDriver T M) (x : NodeM T ε α) :
    (d.after x).commitTx = d.commitTx := by
  unfold RaftDriver.after
  split <;> rfl

theorem act_commitTx (e : Event T) (d : RaftDriver T M) :
    (e.act d).commitTx = d.commitTx ∨ (e.act d).commitTx = d.commitTx ++ d.node.unapplied := by
  cases e with
  | startElection i => exact .inl (after_commitTx d _)
  | deliver src i msg =>
    cases msg with
    | requestVote req => exact .inl (answering_commitTx d _ _ _)
    | requestVoteResponse resp => exact .inl (after_commitTx d _)
    | appendEntries req => exact .inl (answering_commitTx d _ _ _)
    | appendEntriesResponse resp => exact .inl (after_commitTx d _)
    | installSnapshot req =>
      refine .inl ?_
      simp only [Event.act, RaftDriver.handleInboundMessage]
      split <;> rfl
    | installSnapshotResponse resp => exact .inl (after_commitTx d _)
  | clientRequest i command => exact .inl rfl
  | replicateToPeer i peer => exact .inl rfl
  | advanceCommitIndex i => exact .inl rfl
  | applyCommitted i =>
    simp only [Event.act, RaftDriver.applyCommittedEntries]
    split_ifs
    · exact .inl rfl
    · exact .inr rfl
  | createSnapshot i => exact .inl (after_commitTx d _)

/-- **A faithful step keeps the invariant**, in a ledger that only grew. -/
theorem step (h : Commits cfg c L) {e : Event T} (en : e.Enabled cfg c) (hok : e.Faithful c) :
    ∃ L', L.Le L' ∧ Commits cfg (cfg.system.step c e) L' := by
  obtain ⟨L', hle, href, hc⟩ := h.next en hok
  have hinv := h.refines.sound.inv
  refine ⟨L', hle, href, fun j hj => ?_, fun j hj => ?_⟩
  · by_cases hji : j = e.actor
    · subst hji
      simpa [ClusterConfig.system] using hc
    · simpa [ClusterConfig.system, hji] using
        (h.node j hj).mono hinv hle (h.refines.node j hj).sent
  · by_cases hji : j = e.actor
    · subst hji
      intro x hx
      simp only [ClusterConfig.system, Function.update_self] at hx
      rcases act_commitTx e (c e.actor) with heq | heq
      · rw [heq] at hx
        exact (h.applied _ hj x hx).mono hinv hle
      · rw [heq] at hx
        rcases List.mem_append.mp hx with hx | hx
        · exact (h.applied _ hj x hx).mono hinv hle
        · exact ((h.node _ hj).unapplied (h.refines.node _ hj) h.refines.sound hx).mono hinv hle
    · intro x hx
      simp only [ClusterConfig.system, Function.update_of_ne hji] at hx
      exact (h.applied j hj x hx).mono hinv hle

theorem run {c' : Cluster T M} (h : Commits cfg c L)
    (run : cfg.system.Steps (fun c e => e.Faithful c) c c') :
    ∃ L', L.Le L' ∧ Commits cfg c' L' := by
  induction run with
  | refl => exact ⟨L, .refl L, h⟩
  | tail e _ en hok ih =>
    obtain ⟨L₁, hle₁, h₁⟩ := ih
    obtain ⟨L₂, hle₂, h₂⟩ := h₁.step en hok
    exact ⟨L₂, hle₁.trans hle₂, h₂⟩

omit [StateMachine T M] in
theorem initial (cfg : ClusterConfig) (sm : M) :
    Commits cfg (cfg.initial sm : Cluster T M) Ledger.empty where
  refines := refines_initial cfg sm
  node i hi :=
    { progress := fun hs => by cases hs
      commit := .inl rfl
      sent := fun x hx => by simp [ClusterConfig.initial, RaftNode.new] at hx }
  applied i hi e he := by simp [ClusterConfig.initial] at he

end Commits

end Steps

/-! ## State-machine safety -/

/-- **State-machine safety**: in a faithful run, entries that two nodes apply at one index carry
one command, and a leader of the same or a later term holds whatever an earlier leader has
committed. -/
theorem applied_agree [StateMachine T M] {cfg : ClusterConfig} {sm : M} {c c' : Cluster T M}
    (run : cfg.system.Steps (fun c e => e.Faithful c) (cfg.initial sm) c)
    (run' : cfg.system.Steps (fun c e => e.Faithful c) c c') {i j : NodeId}
    (hi : i ∈ cfg.members) (hj : j ∈ cfg.members) :
    (∀ x ∈ (c i).commitTx, ∀ y ∈ (c' j).commitTx, x.index = y.index → x.command = y.command) ∧
    ∀ t t', (c i).node.Leads t → (c' j).node.Leads t' → t ≤ t' →
      (c i).node.log.entries.take (c i).node.volatile.commitIndex <+: (c' j).node.log.entries := by
  obtain ⟨L, -, h⟩ := (Commits.initial cfg sm).run run
  obtain ⟨L', hle, h'⟩ := h.run run'
  have hinv := h.refines.sound.inv
  have hinv' := h'.refines.sound.inv
  refine ⟨fun x hx y hy heq => ?_, fun t t' hlead hlead' ht => ?_⟩
  · rw [((h.applied i hi x hx).mono hinv hle).unique hinv' (h'.applied j hj y hy) heq]
  · obtain ⟨hs, rfl⟩ := hlead
    obtain ⟨hs', rfl⟩ := hlead'
    obtain ⟨hw', hlog'⟩ := (h'.refines.node j hj).leader hs'
    rcases (h.node i hi).commit.mono hinv hle le_rfl List.prefix_rfl with
      hzero | ⟨r, k, hr, hk, hcom, hp⟩
    · simp [hzero]
    · have hlen := hk.trans (CommittedTo.length_le hinv' hcom)
      have hsame : (c i).node.log.entries.take (c i).node.volatile.commitIndex =
          (L'.leaderLog r).take (c i).node.volatile.commitIndex := by
        rw [List.prefix_iff_eq_take.mp hp, List.length_take_of_le hlen]
      rw [hsame, ← hlog']
      exact (List.take_prefix_take_left hk).trans
        (hinv'.committed_prefix_leaderLog hcom (hr.trans ht) (by simp [hw']))

/-! ## Runs of three and of five nodes -/

/-- Node 1 is elected, replicates a command to node 2, commits it, and both apply it. -/
def oneCommand : List (Event ℕ) :=
  [.startElection 1, .deliver 1 2 (.requestVote ⟨1, 1, 0, 0⟩),
    .deliver 2 1 (.requestVoteResponse ⟨1, true⟩), .clientRequest 1 10,
    .deliver 1 2 (.appendEntries ⟨1, 1, 0, 0, [⟨1, 1, 10⟩], 0⟩),
    .deliver 2 1 (.appendEntriesResponse ⟨1, true, 1⟩), .applyCommitted 1, .replicateToPeer 1 2,
    .deliver 1 2 (.appendEntries ⟨1, 1, 1, 1, [], 1⟩), .applyCommitted 2]

/-- Both nodes apply the command at index 1. -/
theorem applied_agree_oneCommand :
    let c := threeNodes.system.exec (threeNodes.initial ()) oneCommand
    (c 1).commitTx = [⟨1, 1, 10⟩] ∧ (c 2).commitTx = [⟨1, 1, 10⟩] ∧
    ∀ x ∈ (c 1).commitTx, ∀ y ∈ (c 2).commitTx, x.index = y.index → x.command = y.command := by
  intro c
  have hlegal : System.Legal threeNodes.system (fun c e => e.Faithful c) (threeNodes.initial ())
      oneCommand := by
    decide +kernel
  exact ⟨by decide +kernel, by decide +kernel,
    (applied_agree hlegal.steps .refl (by decide) (by decide)).1⟩

def fiveNodes : ClusterConfig := .ofMembers [1, 2, 3, 4, 5] (by decide)

/-- Nodes 1 and 2 keep a command of term 1 that was never committed, and acknowledge it to node 3,
the leader of term 2, by answering its first heartbeat. Node 3 commits its own command with these
acknowledgements; then node 1 is elected again and commits its own command at the same index. -/
def staleTail : List (Event ℕ) :=
  [.startElection 1, .deliver 1 2 (.requestVote ⟨1, 1, 0, 0⟩),
    .deliver 1 3 (.requestVote ⟨1, 1, 0, 0⟩), .deliver 2 1 (.requestVoteResponse ⟨1, true⟩),
    .deliver 3 1 (.requestVoteResponse ⟨1, true⟩), .clientRequest 1 10,
    .deliver 1 2 (.appendEntries ⟨1, 1, 0, 0, [⟨1, 1, 10⟩], 0⟩),
    .startElection 3, .deliver 3 4 (.requestVote ⟨2, 3, 0, 0⟩),
    .deliver 3 5 (.requestVote ⟨2, 3, 0, 0⟩), .deliver 4 3 (.requestVoteResponse ⟨2, true⟩),
    .deliver 5 3 (.requestVoteResponse ⟨2, true⟩),
    .deliver 3 1 (.appendEntries ⟨2, 3, 0, 0, [], 0⟩),
    .deliver 3 2 (.appendEntries ⟨2, 3, 0, 0, [], 0⟩), .clientRequest 3 20,
    .deliver 1 3 (.appendEntriesResponse ⟨2, true, 1⟩),
    .deliver 2 3 (.appendEntriesResponse ⟨2, true, 1⟩), .applyCommitted 3,
    .startElection 1, .deliver 1 2 (.requestVote ⟨3, 1, 1, 1⟩),
    .deliver 1 4 (.requestVote ⟨3, 1, 1, 1⟩), .deliver 2 1 (.requestVoteResponse ⟨3, true⟩),
    .deliver 4 1 (.requestVoteResponse ⟨3, true⟩), .clientRequest 1 30,
    .deliver 1 2 (.appendEntries ⟨3, 1, 1, 1, [⟨3, 2, 30⟩], 0⟩),
    .deliver 2 1 (.appendEntriesResponse ⟨3, true, 2⟩),
    .deliver 1 4 (.appendEntries ⟨3, 1, 1, 1, [⟨3, 2, 30⟩], 0⟩),
    .deliver 4 1 (.appendEntriesResponse ⟨3, false, 0⟩), .replicateToPeer 1 4,
    .deliver 1 4 (.appendEntries ⟨3, 1, 0, 0, [⟨1, 1, 10⟩, ⟨3, 2, 30⟩], 0⟩),
    .deliver 4 1 (.appendEntriesResponse ⟨3, true, 2⟩), .applyCommitted 1]

theorem staleTail_timely :
    System.Legal fiveNodes.system (fun c e => e.Timely c) (fiveNodes.initial ()) staleTail := by
  decide +kernel

theorem staleTail_leader_eq {m n : ℕ} {i j t : ℕ} (hmn : m ≤ n) (hi : i ∈ fiveNodes.members)
    (hj : j ∈ fiveNodes.members)
    (hlead : (fiveNodes.system.exec (fiveNodes.initial ()) (staleTail.take m) i).node.Leads t)
    (hlead' : (fiveNodes.system.exec (fiveNodes.initial ()) (staleTail.take n) j).node.Leads t) :
    i = j := by
  obtain ⟨hrun, hrun'⟩ := staleTail_timely.steps_take hmn
  obtain ⟨L, -, h⟩ := (refines_initial fiveNodes ()).run hrun
  exact h.leader_eq hrun' hi hj hlead hlead'

/-- Without the side conditions, two nodes can apply different commands at one index although no
term of the run has two leaders. -/
theorem stale_tail_diverges :
    ¬ ∀ es : List (Event ℕ),
      System.Legal fiveNodes.system (fun _ e => e.takesSnapshot = false) (fiveNodes.initial ()) es →
      (∀ m n i j t : ℕ, i ∈ fiveNodes.members → j ∈ fiveNodes.members →
        (fiveNodes.system.exec (fiveNodes.initial ()) (es.take m) i).node.Leads t →
        (fiveNodes.system.exec (fiveNodes.initial ()) (es.take n) j).node.Leads t → i = j) →
      ∀ i ∈ fiveNodes.members, ∀ j ∈ fiveNodes.members,
        ∀ x ∈ (fiveNodes.system.exec (fiveNodes.initial ()) es i).commitTx,
        ∀ y ∈ (fiveNodes.system.exec (fiveNodes.initial ()) es j).commitTx,
        x.index = y.index → x.command = y.command := by
  intro h
  have hlegal : System.Legal fiveNodes.system (fun _ e => e.takesSnapshot = false)
      (fiveNodes.initial ()) staleTail := by
    decide +kernel
  have hagree := h staleTail hlegal ?_ 1 (by decide) 3 (by decide) ⟨1, 1, 10⟩ (by decide +kernel)
    ⟨2, 1, 20⟩ (by decide +kernel) rfl
  · exact absurd hagree (by decide)
  · intro m n i j t hi hj hlead hlead'
    rcases Nat.le_total m n with hmn | hmn
    · exact staleTail_leader_eq hmn hi hj hlead hlead'
    · exact (staleTail_leader_eq hmn hj hi hlead' hlead).symm

end Pirc.Raft
