import Pirc.Raft.Handlers
import Pirc.Lib.ReplicatedLog

/-!
# Raft: a cluster refines the replicated log

As long as no snapshot is taken and no candidate counts a vote of an earlier term, every step of a
cluster is matched by moves of the abstract protocol of `Pirc.Lib.ReplicatedLog`: the ledger keeps
the terms, logs and votes of the nodes, and everything in the network is backed by its history.
-/

namespace Pirc.Raft

variable {T M : Type}

/-- The abstract protocol at the entries of a Raft log. -/
abbrev RaftLedger (T : Type) := Ledger NodeId (LogEntry T)

def ClusterConfig.quorums (cfg : ClusterConfig) : Quorums NodeId :=
  Quorums.majority cfg.members.toFinset

abbrev ClusterConfig.Moves (cfg : ClusterConfig) (i : NodeId) :
    RaftLedger T → RaftLedger T → Prop :=
  Relation.ReflTransGen (Ledger.Step LogEntry.term cfg.quorums i)

/-! ## Messages -/

/-- The request carries a segment of the log `l`, after the position it names. -/
structure Segment (l : List (LogEntry T)) (req : AppendEntries T) : Prop where
  prev_le : req.prevLogIndex ≤ l.length
  entries : req.entries <+: l.drop req.prevLogIndex
  prevTerm : ∀ p, req.prevLogIndex = p + 1 → ∃ e, l[p]? = some e ∧ e.term = req.prevLogTerm

theorem Segment.mono {l l' : List (LogEntry T)} {req : AppendEntries T} (h : Segment l req)
    (hl : l <+: l') : Segment l' req where
  prev_le := h.prev_le.trans hl.length_le
  entries := h.entries.trans (hl.drop _)
  prevTerm p hp := by
    obtain ⟨e, he, hterm⟩ := h.prevTerm p hp
    exact ⟨e, Ledger.getElem?_of_isPrefix hl he, hterm⟩

/-- The request names a position past the end of the leader's log: it has no term to offer there
and no entries. -/
def BeyondEnd (req : AppendEntries T) : Prop :=
  0 < req.prevLogIndex ∧ req.prevLogTerm = 0 ∧ req.entries = []

/-- What the ledger knows about a message from `i` to `dst`. Answers to `AppendEntries` are only
known to come from another node here. -/
def Backed (L : RaftLedger T) (i dst : NodeId) : RaftMessage T → Prop
  | .requestVote req => req.candidateId = i ∧ ∃ lc, L.campaign i req.term = some lc ∧
      req.lastLogIndex = lc.length ∧ req.lastLogTerm = Ledger.lastTerm LogEntry.term lc
  | .requestVoteResponse resp => resp.voteGranted = true → L.vote i resp.term = some dst
  | .appendEntries req => dst ≠ i ∧ L.winner req.term = some i ∧
      (Segment (L.leaderLog req.term) req ∨ BeyondEnd req)
  | .appendEntriesResponse _ => dst ≠ i
  | .installSnapshot _ => False
  | .installSnapshotResponse _ => False

theorem Backed.mono {L L' : RaftLedger T} {i dst : NodeId} {msg : RaftMessage T}
    (h : Backed L i dst msg) (hle : L.Le L') : Backed L' i dst msg := by
  cases msg with
  | requestVote req =>
    obtain ⟨hc, lc, hlc, hlen, hterm⟩ := h
    exact ⟨hc, lc, hle.campaign hlc, hlen, hterm⟩
  | requestVoteResponse resp => exact fun hg => hle.vote (h hg)
  | appendEntries req =>
    obtain ⟨hdst, hw, hreq⟩ := h
    refine ⟨hdst, hle.winner hw, hreq.imp_left fun hseg => hseg.mono (hle.leaderLog ?_)⟩
    rw [hw]
    exact Option.some_ne_none i
  | appendEntriesResponse resp => exact h
  | installSnapshot req => exact h
  | installSnapshotResponse resp => exact h

/-! ## Accepting a request -/

section Accept

variable {L : RaftLedger T} {log log' : RaftLog T} {l : List (LogEntry T)} {req : AppendEntries T}

/-- The position the request names agrees, up to it, with the leader's log. -/
theorem take_prev_eq (hoff : log.offset = 0) (hlog : L.Valid LogEntry.term log.entries)
    (hl : L.Valid LogEntry.term l) (hseg : Segment l req)
    (hprev : ¬ (0 < req.prevLogIndex ∧ log.termAt req.prevLogIndex ≠ some req.prevLogTerm)) :
    log.entries.take req.prevLogIndex = l.take req.prevLogIndex ∧
      req.prevLogIndex ≤ log.entries.length := by
  cases hp : req.prevLogIndex with
  | zero => simp
  | succ p =>
    obtain ⟨e, he, hterm⟩ := hseg.prevTerm p hp
    have hat : log.termAt (p + 1) = some req.prevLogTerm := by
      by_contra hne
      exact hprev ⟨by omega, by rwa [hp]⟩
    rcases RaftLog.termAt_eq_some hat with ⟨-, hpos, -⟩ | ⟨q, x, hq, hx, hxterm⟩
    · omega
    · obtain rfl : q = p := by omega
      refine ⟨hlog.take_eq hl hx he (hxterm.trans hterm.symm), ?_⟩
      exact (List.getElem?_eq_some_iff.mp hx).1

/-- **An accepted request merges a prefix of the leader's log.** -/
theorem appendEntries_eq_merge (hoff : log.offset = 0)
    (hlog : L.Valid LogEntry.term log.entries) (hl : L.Valid LogEntry.term l)
    (hidx : RaftLog.Contiguous 1 l) (hseg : Segment l req)
    (h : log.appendEntries req.prevLogIndex req.prevLogTerm req.entries = some log') :
    log' = { log with
      entries := Ledger.merge log.entries (l.take (req.prevLogIndex + req.entries.length)) } := by
  unfold RaftLog.appendEntries at h
  split_ifs at h with hprev
  obtain ⟨htake, hlen⟩ := take_prev_eq hoff hlog hl hseg hprev
  set k := req.prevLogIndex
  set es := req.entries
  have hes : es = (l.drop k).take es.length := List.prefix_iff_eq_take.mp hseg.entries
  have hcont : RaftLog.Contiguous (log.offset + k + 1) es := by
    rw [hes, hoff, show 0 + k + 1 = 1 + k by omega]
    exact (hidx.drop k).take _
  rw [← Option.some_inj.mp h, RaftLog.foldl_appendEntry hlen hcont]
  -- positions of the request are positions of the leader's log
  have hget : ∀ j e, es[j]? = some e → l[k + j]? = some e := by
    intro j e he
    rw [← List.getElem?_drop]
    exact Ledger.getElem?_of_isPrefix hseg.entries he
  -- where the request agrees up to position `j`, so do the logs
  have hagree : ∀ j, j ≤ es.length →
      (∀ i e, i < j → es[i]? = some e → ∃ x, log.entries[k + i]? = some x ∧ x.term = e.term) →
      log.entries.take (k + j) = l.take (k + j) := by
    intro j hj hall
    cases j with
    | zero => exact htake
    | succ j =>
      have he : es[j]? = some es[j] := List.getElem?_eq_getElem hj
      obtain ⟨x, hx, hterm⟩ := hall j _ (by omega) he
      exact hlog.take_eq hl hx (hget j _ he) hterm
  congr 1
  unfold Ledger.merge
  rcases RaftLog.splice_cases log.entries k es with ⟨heq, hall⟩ | ⟨j, hj, heq, hbefore, hat⟩
  · have hp : l.take (k + es.length) <+: log.entries := by
      rw [← hagree es.length le_rfl fun i e _ => hall i e]
      exact List.take_prefix _ _
    rw [heq, if_pos hp]
  · have hp : ¬ l.take (k + es.length) <+: log.entries := by
      intro hp
      have he : es[j]? = some es[j] := List.getElem?_eq_getElem hj
      have hlj : (l.take (k + es.length))[k + j]? = some es[j] := by
        rw [List.getElem?_take_of_lt (by omega), hget j _ he]
      exact hat _ _ (Ledger.getElem?_of_isPrefix hp hlj) he rfl
    rw [heq, if_neg hp, hagree j hj.le hbefore]
    conv_lhs => rw [hes]
    rw [List.drop_take, List.drop_drop, ← List.take_add]
    congr 1
    omega

theorem appendEntries_beyondEnd (hoff : log.offset = 0)
    (hpos : ∀ e ∈ log.entries, 0 < e.term) (hreq : BeyondEnd req) :
    log.appendEntries req.prevLogIndex req.prevLogTerm req.entries = none := by
  obtain ⟨hprev, hterm, -⟩ := hreq
  refine if_pos ⟨hprev, fun hat => ?_⟩
  rcases RaftLog.termAt_eq_some hat with ⟨-, hlt, -⟩ | ⟨p, e, -, he, heterm⟩
  · omega
  · have := hpos e (List.mem_of_getElem? he)
    omega

end Accept

/-! ## The refinement relation -/

/-- The node is what the ledger says about `i`. -/
structure NodeRefines (cfg : ClusterConfig) (L : RaftLedger T) (i : NodeId) (node : RaftNode T) :
    Prop where
  reliable : node.storage.Reliable
  config : node.config = cfg.config i
  membership : node.membership = ClusterMembership.new i (cfg.config i).peers
  clusterSize : node.electionTracker.clusterSize = cfg.members.length
  snapshot : node.lastSnapshot = none
  offset : node.log.offset = 0
  snapshotTerm : node.log.snapshotTerm = 0
  term : L.term i = node.currentTerm
  log : L.log i = node.log.entries
  vote : L.vote i node.currentTerm = node.votedFor
  leader : node.state = .leader →
    L.winner node.currentTerm = some i ∧ L.leaderLog node.currentTerm = node.log.entries
  candidate : node.state = .candidate →
    L.campaign i node.currentTerm = some node.log.entries ∧
    L.winner node.currentTerm ≠ some i ∧ node.electionTracker.votes.Nodup ∧
    ∀ v ∈ node.electionTracker.votes, v ∈ cfg.members ∧ L.vote v node.currentTerm = some i
  sent : ∀ x ∈ node.outbound, Backed L i x.1 x.2

/-- The ledger's invariant, for logs whose entries carry their positions. -/
structure Sound (cfg : ClusterConfig) (L : RaftLedger T) : Prop where
  inv : L.Inv LogEntry.term cfg.quorums
  indexed : ∀ {t}, L.winner t ≠ none → RaftLog.Contiguous 1 (L.leaderLog t)
  pos : ∀ {c t lc}, L.campaign c t = some lc → 0 < t

/-- **The refinement relation** between a cluster and the ledger of its history. -/
structure Refines (cfg : ClusterConfig) (c : Cluster T M) (L : RaftLedger T) : Prop where
  sound : Sound cfg L
  node : ∀ i ∈ cfg.members, NodeRefines cfg L i (c i).node

namespace Sound

variable {cfg : ClusterConfig} {L L' : RaftLedger T} {i : NodeId}

theorem contiguous (h : Sound cfg L) {l : List (LogEntry T)} (hl : L.Valid LogEntry.term l) :
    RaftLog.Contiguous 1 l := by
  rw [RaftLog.contiguous_iff]
  intro p e he
  obtain ⟨hw, hp⟩ := hl p e he
  refine RaftLog.contiguous_iff.mp (h.indexed hw) p e (Ledger.getElem?_of_isPrefix hp ?_)
  rw [List.getElem?_take_of_lt (by omega), he]

theorem term_pos (h : Sound cfg L) {l : List (LogEntry T)} (hl : L.Valid LogEntry.term l)
    {e : LogEntry T} (he : e ∈ l) : 0 < e.term := by
  obtain ⟨p, hp⟩ := List.getElem?_of_mem he
  obtain ⟨w, hw⟩ := Option.ne_none_iff_exists'.mp (hl p e hp).1
  obtain ⟨lc, -, hc, -, -⟩ := h.inv.leaderLog_eq hw
  exact h.pos hc

theorem of_moves (h : Sound cfg L) (hs : cfg.Moves i L L')
    (hw : ∀ t, L'.winner t = L.winner t) (hl : ∀ t, L'.leaderLog t = L.leaderLog t)
    (hc : ∀ {c t lc}, L'.campaign c t = some lc → 0 < t) : Sound cfg L' where
  inv := (h.inv.steps hs).1
  indexed hne := by
    rw [hl]
    exact h.indexed (hw _ ▸ hne)
  pos := hc

end Sound

namespace NodeRefines

variable {cfg : ClusterConfig} {L L' : RaftLedger T} {i : NodeId} {node node' : RaftNode T}

theorem pendingChange (h : NodeRefines cfg L i node) : node.membership.pendingChange = none := by
  rw [h.membership]
  rfl

theorem nodeId_eq (h : NodeRefines cfg L i node) (hi : i ∈ cfg.members) : node.nodeId = i := by
  rw [RaftNode.nodeId, h.config, cfg.nodeId_eq i hi]

theorem mem_members (h : NodeRefines cfg L i node) (hi : i ∈ cfg.members) {j : NodeId} :
    j ∈ node.membership.members ↔ j ∈ cfg.members := by
  rw [h.membership, ClusterMembership.mem_members_new, cfg.peers_iff i hi]

theorem members_length (h : NodeRefines cfg L i node) (hi : i ∈ cfg.members) :
    node.membership.members.length = cfg.members.length := by
  have hnodup : node.membership.members.Nodup := by
    rw [h.membership]
    exact ClusterMembership.nodup_members_new _ _
  exact ((List.perm_ext_iff_of_nodup hnodup cfg.nodup).mpr fun j => h.mem_members hi).length_eq

theorem mem_peers (h : NodeRefines cfg L i node) (hi : i ∈ cfg.members) {j : NodeId} :
    j ∈ node.membership.peers node.nodeId ↔ j ∈ cfg.members ∧ j ≠ i := by
  rw [ClusterMembership.peers, List.mem_filter, h.mem_members hi, h.nodeId_eq hi]
  simp

theorem lastIndex (h : NodeRefines cfg L i node) : node.log.lastIndex = node.log.entries.length := by
  rw [RaftLog.lastIndex, h.offset, Nat.zero_add]

theorem lastTerm (h : NodeRefines cfg L i node) :
    node.log.lastTerm = Ledger.lastTerm LogEntry.term node.log.entries := by
  rw [RaftLog.lastTerm, h.snapshotTerm, Ledger.lastTerm]

theorem valid (h : NodeRefines cfg L i node) (hL : Sound cfg L) :
    L.Valid LogEntry.term node.log.entries := by
  rw [← h.log]
  exact hL.inv.log_valid i

theorem frame {j : NodeId} (h : NodeRefines cfg L i node) (hne : i ≠ j) (hle : L.Le L')
    (hframe : L.Frame j L') : NodeRefines cfg L' i node :=
  { h with
    term := (hframe.term i hne).trans h.term
    log := (hframe.log i hne).trans h.log
    vote := (hframe.vote i _ hne).trans h.vote
    leader := fun hs => ⟨hle.winner (h.leader hs).1,
      (hframe.leaderLog hne (h.leader hs).1).trans (h.leader hs).2⟩
    candidate := fun hs => ⟨hle.campaign (h.candidate hs).1,
      fun hw => (h.candidate hs).2.1 (hframe.winner hne hw), (h.candidate hs).2.2.1,
      fun v hv => ⟨((h.candidate hs).2.2.2 v hv).1, hle.vote ((h.candidate hs).2.2.2 v hv).2⟩⟩
    sent := fun x hx => (h.sent x hx).mono hle }

theorem sends (h : NodeRefines cfg L i node) {P : NodeId → RaftMessage T → Prop}
    (hs : node.Sends P node') (hP : ∀ p m, P p m → Backed L i p m) :
    NodeRefines cfg L i node' := by
  have hsent : ∀ x ∈ node'.outbound, Backed L i x.1 x.2 := fun x hx =>
    (hs.mem_outbound hx).elim (h.sent x) (hP x.1 x.2)
  obtain ⟨out, rfl, -⟩ := hs
  exact { h with sent := hsent }

theorem of_sends {P : NodeId → RaftMessage T → Prop} (h : NodeRefines cfg L i node')
    (hs : node.Sends P node') : NodeRefines cfg L i node := by
  obtain ⟨out, rfl, -⟩ := hs
  exact { h with sent := fun x hx => h.sent x (List.mem_append_left out hx) }

theorem backed_of_replicates (hsnap : node.lastSnapshot = none) (hoff : node.log.offset = 0)
    (hw : L.winner node.currentTerm = some i)
    (hlog : L.leaderLog node.currentTerm = node.log.entries) {p : NodeId} (hp : p ≠ i)
    {m : RaftMessage T} (hm : node.Replicates m) : Backed L i p m := by
  cases hm with
  | chunk s req hs => simp [hsnap] at hs
  | entries nextIdx hnext =>
    refine ⟨hp, hw, ?_⟩
    change Segment (L.leaderLog node.currentTerm) _ ∨ _
    rw [hlog]
    cases nextIdx with
    | zero =>
      refine .inl ⟨Nat.zero_le _, ?_, fun p hp => by simp [RaftNode.appendEntriesFor] at hp⟩
      simp [RaftNode.appendEntriesFor, RaftLog.entriesFrom]
    | succ k =>
      have hfrom : node.log.entriesFrom (k + 1) = node.log.entries.drop k := by
        have := node.log.entriesFrom_offset_add k
        rwa [hoff, Nat.zero_add] at this
      have hat : ∀ p, node.log.termAt (p + 1) = node.log.entries[p]?.map LogEntry.term := by
        intro p
        have := node.log.termAt_offset_add p
        rwa [hoff, Nat.zero_add] at this
      rcases Nat.lt_or_ge node.log.entries.length k with hk | hk
      · obtain ⟨q, rfl⟩ : ∃ q, k = q + 1 := ⟨k - 1, by omega⟩
        refine .inr ⟨Nat.succ_pos q, ?_, ?_⟩
        · have hnone : node.log.entries[q]? = none := by
            rw [List.getElem?_eq_none_iff]
            omega
          simp [RaftNode.appendEntriesFor, hat, hnone]
        · simp only [RaftNode.appendEntriesFor, hfrom]
          exact List.drop_eq_nil_of_le (by omega)
      · refine .inl ⟨hk, ?_, fun p hp => ?_⟩
        · simp [RaftNode.appendEntriesFor, hfrom]
        · obtain rfl : k = p + 1 := hp
          exact ⟨node.log.entries[p], List.getElem?_eq_getElem hk,
            by simp [RaftNode.appendEntriesFor, hat, List.getElem?_eq_getElem hk]⟩

end NodeRefines

/-! ## What a node does, as moves -/

def Follows (cfg : ClusterConfig) (L : RaftLedger T) (i : NodeId) (node : RaftNode T) : Prop :=
  ∃ L', cfg.Moves i L L' ∧ Sound cfg L' ∧ NodeRefines cfg L' i node

namespace Follows

variable {cfg : ClusterConfig} {L : RaftLedger T} {i : NodeId} {node node' : RaftNode T}

theorem refl (hL : Sound cfg L) (h : NodeRefines cfg L i node) : Follows cfg L i node :=
  ⟨L, .refl, hL, h⟩

/-- Moves compose; what the first ones know is still known. -/
theorem bind (hL : Sound cfg L) (h : Follows cfg L i node)
    (hnext : ∀ L', L.Le L' → Sound cfg L' → NodeRefines cfg L' i node → Follows cfg L' i node') :
    Follows cfg L i node' := by
  obtain ⟨L₁, hs₁, hL₁, hn₁⟩ := h
  obtain ⟨L₂, hs₂, hL₂, hn₂⟩ := hnext L₁ (hL.inv.steps hs₁).2.1 hL₁ hn₁
  exact ⟨L₂, hs₁.trans hs₂, hL₂, hn₂⟩

end Follows

namespace NodeRefines

variable {cfg : ClusterConfig} {L : RaftLedger T} {i : NodeId} {node : RaftNode T}

theorem observe (h : NodeRefines cfg L i node) (hL : Sound cfg L) (t : ℕ) :
    Follows cfg L i (node.observe t) := by
  by_cases ht : node.currentTerm < t
  · have hmove : Ledger.Step LogEntry.term cfg.quorums i L _ :=
      .observe t (by rw [h.term]; exact ht.le)
    refine ⟨_, .single hmove, hL.of_moves (.single hmove) (fun _ => rfl) (fun _ => rfl) hL.pos, ?_⟩
    have hrollback : node.membership.rollbackChange = node.membership := by
      simp [ClusterMembership.rollbackChange, h.pendingChange]
    simp only [RaftNode.observe, ht, if_true, RaftNode.stepDown, hrollback]
    exact
      { h with
        term := by simp
        vote := hL.inv.vote_fresh (by rw [h.term]; exact ht)
        leader := fun hs => by cases hs
        candidate := fun hs => by cases hs }
  · rw [RaftNode.observe, if_neg ht]
    exact .refl hL h

theorem follow (h : NodeRefines cfg L i node) (leaderId : NodeId) :
    NodeRefines cfg L i (node.follow leaderId) :=
  { h with
    leader := fun hs => by cases hs
    candidate := fun hs => by cases hs }

theorem grant (h : NodeRefines cfg L i node) (hL : Sound cfg L) {candidate : NodeId}
    {lc : List (LogEntry T)} (hc : L.campaign candidate node.currentTerm = some lc)
    (hv : node.votedFor = none ∨ node.votedFor = some candidate)
    (hup : Ledger.UpToDate LogEntry.term lc node.log.entries) {storage : Storage T}
    (hstorage : storage.Reliable) :
    Follows cfg L i { node with votedFor := some candidate, storage := storage } := by
  have hmove : Ledger.Step LogEntry.term cfg.quorums i L _ :=
    .grant candidate lc (by rwa [h.term]) (by rwa [h.term, h.vote]) (by rwa [h.log])
  have hle := hmove.le hL.inv
  refine ⟨_, .single hmove, hL.of_moves (.single hmove) (fun _ => rfl) (fun _ => rfl) hL.pos, ?_⟩
  exact
    { h with
      reliable := hstorage
      vote := by simp [Ledger.record, h.term]
      candidate := fun hs => ⟨(h.candidate hs).1, (h.candidate hs).2.1, (h.candidate hs).2.2.1,
        fun v hv => ⟨((h.candidate hs).2.2.2 v hv).1, hle.vote ((h.candidate hs).2.2.2 v hv).2⟩⟩
      sent := fun x hx => (h.sent x hx).mono hle }

theorem campaign (h : NodeRefines cfg L i node) (hL : Sound cfg L) (hi : i ∈ cfg.members) :
    Follows cfg L i node.savedCampaign := by
  have hmove : Ledger.Step LogEntry.term cfg.quorums i L _ := .campaign
  have hle := hmove.le hL.inv
  have hid : node.nodeId = i := h.nodeId_eq hi
  refine ⟨_, .single hmove, hL.of_moves (.single hmove) (fun _ => rfl) (fun _ => rfl) ?_, ?_⟩
  · intro c t lc hc
    dsimp only [Ledger.record] at hc
    split_ifs at hc with heq
    · omega
    · exact hL.pos hc
  · refine
      { h with
        term := by simp [RaftNode.savedCampaign, RaftNode.campaign, h.term]
        vote := by simp [Ledger.record, RaftNode.savedCampaign, RaftNode.campaign, h.term, hid]
        leader := fun hs => by cases hs
        candidate := fun _ => ⟨?_, ?_, ?_, ?_⟩
        sent := fun x hx => (h.sent x hx).mono hle }
    · simp [Ledger.record, RaftNode.savedCampaign, RaftNode.campaign, h.term, h.log]
    · intro hw
      obtain ⟨lc, -, hc, -, -⟩ := hL.inv.leaderLog_eq hw
      have := hL.inv.campaign_le hc
      simp only [h.term, RaftNode.savedCampaign, RaftNode.campaign] at this
      omega
    · simp [RaftNode.savedCampaign, RaftNode.campaign, ElectionTracker.recordVote,
        ElectionTracker.reset]
    · intro v hv
      obtain rfl : v = i := by
        simpa [RaftNode.savedCampaign, RaftNode.campaign, ElectionTracker.recordVote,
          ElectionTracker.reset, hid] using hv
      refine ⟨hi, ?_⟩
      simp [Ledger.record, RaftNode.savedCampaign, RaftNode.campaign, h.term]

theorem votes_quorum (h : NodeRefines cfg L i node) (hs : node.state = .candidate)
    (hq : node.electionTracker.hasQuorum = true) :
    cfg.quorums.IsQuorum node.electionTracker.votes.toFinset := by
  obtain ⟨-, -, hnodup, hvotes⟩ := h.candidate hs
  have hlen : node.electionTracker.quorumSize ≤ node.electionTracker.votes.length := by
    simpa [ElectionTracker.hasQuorum] using hq
  rw [ElectionTracker.quorumSize, h.clusterSize] at hlen
  refine ⟨fun v hv => ?_, ?_⟩
  · exact List.mem_toFinset.mpr (hvotes v (List.mem_toFinset.mp hv)).1
  · rw [List.toFinset_card_of_nodup hnodup, List.toFinset_card_of_nodup cfg.nodup]
    omega

theorem becomeLeader (h : NodeRefines cfg L i node) (hL : Sound cfg L) (hi : i ∈ cfg.members)
    (hs : node.state = .candidate) (hq : node.electionTracker.hasQuorum = true) :
    Follows cfg L i node.becomeLeader := by
  obtain ⟨hc, hne, -, hvotes⟩ := h.candidate hs
  have hQ := h.votes_quorum hs hq
  have hvotes' : ∀ m ∈ node.electionTracker.votes.toFinset,
      L.vote m node.currentTerm = some i := fun m hm => (hvotes m (List.mem_toFinset.mp hm)).2
  have hnone : L.winner node.currentTerm = none := by
    by_contra hw
    obtain ⟨w, hw⟩ := Option.ne_none_iff_exists'.mp hw
    exact hne (hL.inv.winner_eq hw hQ hvotes' ▸ hw)
  have hmove : Ledger.Step LogEntry.term cfg.quorums i L _ :=
    .elect node.log.entries _ (by rwa [h.term]) (by rwa [h.term]) hQ (by rwa [h.term])
  have hle := hmove.le hL.inv
  refine ⟨_, .single hmove, ⟨hmove.inv hL.inv, fun {t} hw => ?_, hL.pos⟩, ?_⟩
  · by_cases ht : t = L.term i
    · simpa [ht] using hL.contiguous (h.valid hL)
    · have hw' : L.winner t ≠ none := by simpa [ht] using hw
      simpa [ht] using hL.indexed hw'
  · have hwin : Function.update L.winner (L.term i) (some i) node.currentTerm = some i := by
      simp [h.term]
    have hlog : Function.update L.leaderLog (L.term i) node.log.entries node.currentTerm =
        node.log.entries := by
      simp [h.term]
    have hlead : NodeRefines cfg
        { L with
          winner := Function.update L.winner (L.term i) (some i)
          leaderLog := Function.update L.leaderLog (L.term i) node.log.entries } i node.lead :=
      { h with
        leader := fun _ => ⟨hwin, hlog⟩
        candidate := fun hs => by cases hs
        sent := fun x hx => (h.sent x hx).mono hle }
    exact hlead.sends node.lead.sendAppendEntriesToAll_sends fun p m hpm =>
      backed_of_replicates hlead.snapshot hlead.offset hwin hlog
        ((hlead.mem_peers hi).mp hpm.1).2 hpm.2

theorem requestVotes (h : NodeRefines cfg L i node) (hL : Sound cfg L) (hi : i ∈ cfg.members)
    (hs : node.state = .candidate) : Follows cfg L i node.requestVotes := by
  unfold RaftNode.requestVotes
  split_ifs with hq
  · exact h.becomeLeader hL hi hs hq
  · refine .refl hL (h.sends node.voteRequests_sends ?_)
    rintro p m rfl
    exact ⟨h.nodeId_eq hi, node.log.entries, (h.candidate hs).1, h.lastIndex, h.lastTerm⟩

theorem countVote (h : NodeRefines cfg L i node) (hL : Sound cfg L) (hi : i ∈ cfg.members)
    {sender : NodeId} (hsender : sender ∈ cfg.members) {resp : RequestVoteResponse}
    (hvote : node.state = .candidate → resp.voteGranted = true →
      L.vote sender node.currentTerm = some i) :
    Follows cfg L i (node.countVote sender resp) := by
  unfold RaftNode.countVote
  split_ifs with hs hg
  · exact .refl hL h
  · rw [not_not] at hs
    obtain ⟨hc, hw, hnodup, hvotes⟩ := h.candidate hs
    have hcount : NodeRefines cfg L i
        { node with electionTracker := node.electionTracker.recordVote sender } := by
      refine { h with candidate := fun _ => ⟨hc, hw, hnodup.insert, fun v hv => ?_⟩ }
      rcases List.mem_insert_iff.mp hv with rfl | hv
      · exact ⟨hsender, hvote hs hg⟩
      · exact hvotes v hv
    dsimp only
    split_ifs with hq
    · exact hcount.becomeLeader hL hi hs hq
    · exact .refl hL hcount
  · exact .refl hL h

theorem accept (h : NodeRefines cfg L i node) (hL : Sound cfg L) (hs : node.state = .follower)
    {p : List (LogEntry T)} (hw : L.winner node.currentTerm ≠ none)
    (hp : p <+: L.leaderLog node.currentTerm) (volatile : VolatileState) :
    Follows cfg L i
      { node with
        log := { node.log with entries := Ledger.merge node.log.entries p }
        volatile := volatile } := by
  have hmove : Ledger.Step LogEntry.term cfg.quorums i L _ :=
    .accept p (by rwa [h.term]) (by rwa [h.term])
  refine ⟨_, .single hmove, hL.of_moves (.single hmove) (fun _ => rfl) (fun _ => rfl) hL.pos, ?_⟩
  exact
    { h with
      log := by simp [h.log]
      leader := fun hs' => by simp [hs] at hs'
      candidate := fun hs' => by simp [hs] at hs'
      sent := fun x hx => (h.sent x hx).mono (hmove.le hL.inv) }

theorem extend (h : NodeRefines cfg L i node) (hL : Sound cfg L) (hs : node.state = .leader)
    (command : T) :
    Follows cfg L i (node.appendCommand command) := by
  obtain ⟨hw, hlog⟩ := h.leader hs
  set e : LogEntry T :=
    { term := node.currentTerm, index := node.log.lastIndex + 1, command := command }
  have hmove : Ledger.Step LogEntry.term cfg.quorums i L _ :=
    .extend e (by rwa [h.term]) h.term.symm (by rw [h.term, hlog, h.log])
  refine ⟨_, .single hmove, ⟨hmove.inv hL.inv, fun {t} hwt => ?_, hL.pos⟩, ?_⟩
  · by_cases ht : t = L.term i
    · have hcont : RaftLog.Contiguous 1 (L.log i ++ [e]) := by
        refine (hL.contiguous (hL.inv.log_valid i)).append ⟨?_, trivial⟩
        simp [e, h.lastIndex, h.log, Nat.add_comm]
      simpa [ht] using hcont
    · simpa [ht] using hL.indexed hwt
  · exact
      { h with
        log := by simp [h.log, e, RaftNode.appendCommand, RaftLog.append]
        leader := fun _ => ⟨hw, by simp [h.log, h.term, e, RaftNode.appendCommand, RaftLog.append]⟩
        candidate := fun hs' => by cases hs.symm.trans hs'
        sent := fun x hx => (h.sent x hx).mono (hmove.le hL.inv) }

theorem replicates (h : NodeRefines cfg L i node) (hs : node.state = .leader)
    {P : NodeId → RaftMessage T → Prop} {node' : RaftNode T} (hsends : node.Sends P node')
    (hP : ∀ p m, P p m → p ≠ i ∧ node.Replicates m) : NodeRefines cfg L i node' :=
  h.sends hsends fun p m hpm => backed_of_replicates h.snapshot h.offset (h.leader hs).1
    (h.leader hs).2 (hP p m hpm).1 (hP p m hpm).2

theorem clientRequest (h : NodeRefines cfg L i node) (hL : Sound cfg L) (hi : i ∈ cfg.members)
    (command : T) : Follows cfg L i (node.clientRequest command).2 := by
  unfold RaftNode.clientRequest
  split_ifs with hs
  · exact .refl hL h
  · rw [not_not] at hs
    refine (h.extend hL hs command).bind hL fun L' _ hL' h' => .refl hL' ?_
    exact h'.replicates hs (RaftNode.sendAppendEntriesToAll_sends _) fun p m hpm =>
      ⟨((h'.mem_peers hi).mp hpm.1).2, hpm.2⟩

theorem replicateToPeer (h : NodeRefines cfg L i node) {peer : NodeId} (hpeer : peer ≠ i) :
    NodeRefines cfg L i (node.replicateToPeer peer) := by
  by_cases hs : node.state = .leader
  · exact h.replicates hs (node.replicateToPeer_sends peer) fun p m hpm => ⟨hpm.1 ▸ hpeer, hpm.2.2⟩
  · rwa [RaftNode.replicateToPeer, if_pos hs]

theorem advanceCommitIndex (h : NodeRefines cfg L i node) :
    NodeRefines cfg L i node.advanceCommitIndex := by
  rcases RaftNode.advanceCommitIndex_cases h.pendingChange with heq | ⟨_, _, -, -, -, -, heq⟩
  · rwa [heq]
  · rw [heq]
    exact { h with }

theorem updateProgress (h : NodeRefines cfg L i node) (f : LeaderState → LeaderState) :
    NodeRefines cfg L i (node.updateProgress f) := by
  unfold RaftNode.updateProgress
  split_ifs
  · exact h
  · exact advanceCommitIndex { h with }

theorem send (h : NodeRefines cfg L i node) {p : NodeId} {m : RaftMessage T}
    (hm : Backed L i p m) : NodeRefines cfg L i (node.send p m) :=
  h.sends (P := fun q r => q = p ∧ r = m) (.send ⟨rfl, rfl⟩) fun _ _ hqr => hqr.1 ▸ hqr.2 ▸ hm

end NodeRefines

/-! ## Messages, as moves -/

namespace NodeRefines

variable {cfg : ClusterConfig} {L : RaftLedger T} {i src : NodeId} {d : RaftDriver T M}

theorem handleRequestVote (h : NodeRefines cfg L i d.node) (hL : Sound cfg L)
    {req : RequestVote} (hmsg : Backed L src i (.requestVote req)) :
    Follows cfg L i
      (d.answering src (Raft.handleRequestVote req) .requestVoteResponse).node := by
  obtain ⟨hcand, lc, hlc, hidx, hlterm⟩ := hmsg
  rcases handleRequestVote_cases h.reliable req with hrun | ⟨hterm, hvote, hup, hrun⟩
  · rw [RaftDriver.answering, hrun]
    refine (h.observe hL req.term).bind hL fun L' _ hL' h' => .refl hL' (h'.send ?_)
    intro hg
    cases hg
  · rw [RaftDriver.answering, hrun]
    have hmax : (d.node.observe req.term).currentTerm = req.term := by simp [hterm]
    refine (h.observe hL req.term).bind hL fun L' hle hL' h' => ?_
    have hup' : Ledger.UpToDate LogEntry.term lc (d.node.observe req.term).log.entries := by
      rw [hidx, hlterm, h.lastTerm, h.lastIndex] at hup
      simpa [isLogUpToDate, Ledger.UpToDate] using hup
    refine (h'.grant hL' (by rw [hmax, hcand]; exact hle.campaign hlc) hvote hup' ?_).bind
      hL' fun L'' _ hL'' h'' => .refl hL'' (h''.send fun _ => ?_)
    · exact h.reliable
    · have hv := h''.vote
      rw [← hcand]
      simpa only [hmax] using hv

theorem handleRequestVoteResponse (h : NodeRefines cfg L i d.node) (hL : Sound cfg L)
    (hi : i ∈ cfg.members) (hsrc : src ∈ cfg.members) {resp : RequestVoteResponse}
    (hmsg : Backed L src i (.requestVoteResponse resp))
    (hfresh : resp.voteGranted = true → d.node.state = .candidate →
      d.node.currentTerm ≤ resp.term) :
    Follows cfg L i (d.after (Raft.handleRequestVoteResponse src resp)).node := by
  rw [RaftDriver.after, handleRequestVoteResponse_eq h.reliable]
  refine (h.observe hL resp.term).bind hL fun L' hle hL' h' => h'.countVote hL' hi hsrc ?_
  intro hs hg
  -- a higher term would have ended the candidacy
  have hterm : ¬ d.node.currentTerm < resp.term := by
    intro hlt
    simp [RaftNode.observe, hlt, RaftNode.stepDown] at hs
  rw [RaftNode.observe, if_neg hterm] at hs ⊢
  have heq : resp.term = d.node.currentTerm := by
    have := hfresh hg hs
    omega
  rw [← heq]
  exact hle.vote (hmsg hg)

theorem handleAppendEntries (h : NodeRefines cfg L i d.node) (hL : Sound cfg L)
    {req : AppendEntries T} (hmsg : Backed L src i (.appendEntries req)) :
    Follows cfg L i
      (d.answering src (Raft.handleAppendEntries req) .appendEntriesResponse).node := by
  obtain ⟨hne, hw, hreq⟩ := hmsg
  rw [RaftDriver.answering]
  rcases handleAppendEntries_cases h.reliable req with
    ⟨-, hrun⟩ | ⟨-, -, hrun⟩ | ⟨log, hterm, hlog, hrun⟩
  · rw [hrun]
    exact .refl hL (h.send hne.symm)
  · rw [hrun]
    exact (h.observe hL req.term).bind hL fun L' _ hL' h' =>
      .refl hL' ((h'.follow req.leaderId).send hne.symm)
  · rw [hrun]
    have hmax : (d.node.observe req.term).currentTerm = req.term := by simp [hterm]
    have hwne : L.winner req.term ≠ none := by simp [hw]
    rcases hreq with hseg | hbeyond
    · have hmerge := appendEntries_eq_merge h.offset (h.valid hL) (hL.inv.leaderLog_valid hwne)
        (hL.indexed hwne) hseg hlog
      refine (h.observe hL req.term).bind hL fun L' hle hL' h' => ?_
      have hp : (L.leaderLog req.term).take (req.prevLogIndex + req.entries.length) <+:
          L'.leaderLog req.term := (List.take_prefix _ _).trans (hle.leaderLog hwne)
      refine ((h'.follow req.leaderId).accept hL' rfl
        (p := (L.leaderLog req.term).take (req.prevLogIndex + req.entries.length))
        (by simpa only [RaftNode.follow, hmax] using hle.winner_ne hwne)
        (by simpa only [RaftNode.follow, hmax] using hp)
        { d.node.volatile with
          commitIndex := d.node.followerCommit req.leaderCommit log }).bind hL'
        fun L'' _ hL'' h'' => .refl hL'' ?_
      have hlog' : log = { ((d.node.observe req.term).follow req.leaderId).log with
          entries := Ledger.merge ((d.node.observe req.term).follow req.leaderId).log.entries
            ((L.leaderLog req.term).take (req.prevLogIndex + req.entries.length)) } := by
        simpa [RaftNode.follow] using hmerge
      rw [← hlog'] at h''
      exact h''.send hne.symm
    · have hpos : ∀ e ∈ d.node.log.entries, 0 < e.term := fun e he =>
        hL.term_pos (h.valid hL) he
      rw [appendEntries_beyondEnd h.offset hpos hbeyond] at hlog
      cases hlog

theorem handleAppendEntriesResponse (h : NodeRefines cfg L i d.node) (hL : Sound cfg L)
    (resp : AppendEntriesResponse) :
    Follows cfg L i (d.after (Raft.handleAppendEntriesResponse src resp)).node := by
  rw [RaftDriver.after, handleAppendEntriesResponse_eq h.reliable]
  exact (h.observe hL resp.term).bind hL fun L' _ hL' h' => .refl hL' (h'.updateProgress _)

theorem startElection (h : NodeRefines cfg L i d.node) (hL : Sound cfg L)
    (hi : i ∈ cfg.members) : Follows cfg L i (d.after Raft.startElection).node := by
  rw [RaftDriver.after, startElection_eq h.reliable]
  exact (h.campaign hL hi).bind hL fun L' _ hL' h' => h'.requestVotes hL' hi rfl

end NodeRefines

/-! ## Runs -/

def Event.takesSnapshot : Event T → Bool
  | .createSnapshot _ => true
  | _ => false

def Event.countsStaleVote (c : Cluster T M) : Event T → Bool
  | .deliver _ dst (.requestVoteResponse resp) =>
    resp.voteGranted && (c dst).node.state = .candidate && resp.term < (c dst).node.currentTerm
  | _ => false

/-- The side condition of the refinement: no snapshots, and no stale votes. -/
def Event.Timely (c : Cluster T M) (e : Event T) : Prop :=
  e.takesSnapshot = false ∧ e.countsStaleVote c = false

instance (c : Cluster T M) (e : Event T) : Decidable (e.Timely c) :=
  inferInstanceAs (Decidable (_ ∧ _))

section Runs

variable [StateMachine T M] {cfg : ClusterConfig} {c : Cluster T M} {L : RaftLedger T}

theorem Refines.follows (h : Refines cfg c L) {e : Event T} (en : e.Enabled cfg c)
    (hok : e.Timely c) :
    Follows cfg L e.actor (e.act (c e.actor)).node := by
  obtain ⟨hi, en⟩ := en
  have hn := h.node _ hi
  cases e with
  | startElection i => exact hn.startElection h.sound hi
  | deliver src i msg =>
    have hmsg := (h.node src en.1).sent _ en.2
    cases msg with
    | requestVote req => exact hn.handleRequestVote h.sound hmsg
    | requestVoteResponse resp =>
      refine hn.handleRequestVoteResponse h.sound hi en.1 hmsg fun hg hs => ?_
      have hstale := hok.2
      simp only [Event.countsStaleVote, hg, Bool.true_and, Bool.and_eq_false_imp,
        decide_eq_true_eq, decide_eq_false_iff_not, not_lt] at hstale
      exact hstale hs
    | appendEntries req => exact hn.handleAppendEntries h.sound hmsg
    | appendEntriesResponse resp => exact hn.handleAppendEntriesResponse h.sound resp
    | installSnapshot req => exact hmsg.elim
    | installSnapshotResponse resp => exact hmsg.elim
  | clientRequest i command => exact hn.clientRequest h.sound hi command
  | replicateToPeer i peer =>
    have hid : (c i).node.nodeId = i := hn.nodeId_eq hi
    have hpeer : peer ∈ (c i).node.membership.peers (c i).node.nodeId := by
      rw [hid]
      exact en
    exact .refl h.sound (hn.replicateToPeer ((hn.mem_peers hi).mp hpeer).2)
  | advanceCommitIndex i => exact .refl h.sound hn.advanceCommitIndex
  | applyCommitted i =>
    refine .refl h.sound ?_
    change NodeRefines cfg L i (c i).applyCommittedEntries.node
    unfold RaftDriver.applyCommittedEntries
    split_ifs
    · exact hn
    · exact { hn with }
  | createSnapshot i => cases hok.1

/-- **A timely step is matched by moves of the node it happens at.** -/
theorem Refines.step (h : Refines cfg c L) {e : Event T} (en : e.Enabled cfg c)
    (hok : e.Timely c) :
    ∃ L', cfg.Moves e.actor L L' ∧ Refines cfg (cfg.system.step c e) L' := by
  obtain ⟨L', hmoves, hL', hn'⟩ := h.follows en hok
  obtain ⟨-, hle, hframe⟩ := h.sound.inv.steps hmoves
  refine ⟨L', hmoves, hL', fun j hj => ?_⟩
  by_cases hji : j = e.actor
  · subst hji
    simpa [ClusterConfig.system] using hn'
  · simpa [ClusterConfig.system, hji] using (h.node j hj).frame hji hle hframe

/-- **A timely run is matched by moves of the nodes**, which keep what was known before. -/
theorem Refines.run {c' : Cluster T M} (h : Refines cfg c L)
    (run : cfg.system.Steps (fun c e => e.Timely c) c c') :
    ∃ L', L.Le L' ∧ Refines cfg c' L' := by
  induction run with
  | refl => exact ⟨L, Ledger.Le.refl L, h⟩
  | tail e _ en hok ih =>
    obtain ⟨L₁, hle₁, h₁⟩ := ih
    obtain ⟨L₂, hmoves, h₂⟩ := h₁.step en hok
    exact ⟨L₂, hle₁.trans (h₁.sound.inv.steps hmoves).2.1, h₂⟩

omit [StateMachine T M] in
theorem refines_initial (cfg : ClusterConfig) (sm : M) :
    Refines cfg (cfg.initial sm : Cluster T M) Ledger.empty where
  sound := ⟨Ledger.Inv.empty, fun hw => (hw rfl).elim, fun hc => by cases hc⟩
  node i hi :=
    { reliable := rfl
      config := rfl
      membership := by
        simp [ClusterConfig.initial, RaftNode.new, cfg.nodeId_eq i hi]
      clusterSize := by
        have hperm : (ClusterMembership.new i (cfg.config i).peers).members.Perm cfg.members :=
          (List.perm_ext_iff_of_nodup (ClusterMembership.nodup_members_new _ _) cfg.nodup).mpr
            fun j => ClusterMembership.mem_members_new.trans (cfg.peers_iff i hi j)
        simpa [ClusterConfig.initial, RaftNode.new, cfg.nodeId_eq i hi,
          ClusterMembership.memberCount] using hperm.length_eq
      snapshot := rfl
      offset := rfl
      snapshotTerm := rfl
      term := rfl
      log := rfl
      vote := rfl
      leader := fun hs => by cases hs
      candidate := fun hs => by cases hs
      sent := fun x hx => by simp [ClusterConfig.initial, RaftNode.new] at hx }

end Runs

end Pirc.Raft
