import Pirc.Raft.Commitment
import Pirc.Raft.SnapshotInstall

/-!
# Raft: replicas of one state machine

What the nodes of a cluster apply is one sequence of entries: in a faithful run every node applies
the entries from the first one on, in order and each of them once, and nodes differ only in how far
they are.
-/

namespace Pirc.Raft

variable {T M : Type}

/-! ## What a driver has applied -/

/-- The driver applied the entries from the first one on, each of them once. -/
structure RaftDriver.InOrder [StateMachine T M] (d : RaftDriver T M) (sm : M) : Prop where
  applied : d.commitTx.map LogEntry.index = List.range' 1 d.node.volatile.lastApplied
  machine : d.stateMachine = (d.commitTx.map LogEntry.command).foldl StateMachine.apply sm

section Steps

variable [StateMachine T M] {cfg : ClusterConfig} {c : Cluster T M} {L : RaftLedger T} {sm : M}

/-- A handler that leaves both alone. -/
theorem RaftDriver.InOrder.of_node {d : RaftDriver T M} (h : d.InOrder sm) {node : RaftNode T}
    (hlast : node.volatile.lastApplied = d.node.volatile.lastApplied) :
    ({ d with node := node } : RaftDriver T M).InOrder sm :=
  ⟨h.applied.trans (by rw [hlast]), h.machine⟩

theorem RaftDriver.InOrder.handleInboundMessage {d : RaftDriver T M} (h : d.InOrder sm)
    (hreliable : d.node.storage.Reliable) (src : NodeId) {msg : RaftMessage T}
    (hmsg : ∀ req, msg ≠ .installSnapshot req) : (d.handleInboundMessage src msg).InOrder sm := by
  have hobserve (t : ℕ) : (d.node.observe t).volatile.lastApplied = d.node.volatile.lastApplied := by
    rw [RaftNode.observe_volatile]
  have hprogress (t : ℕ) (f : LeaderState → LeaderState) :
      ((d.node.observe t).updateProgress f).volatile.lastApplied = d.node.volatile.lastApplied := by
    obtain ⟨_, -, heq⟩ := (d.node.observe t).volatile_updateProgress f
    rw [heq]
    exact hobserve t
  cases msg with
  | requestVote req =>
    simp only [RaftDriver.handleInboundMessage, RaftDriver.answering]
    rcases handleRequestVote_cases hreliable req with hrun | ⟨-, -, -, hrun⟩
    · rw [hrun]
      exact h.of_node (hobserve req.term)
    · rw [hrun]
      exact h.of_node (hobserve req.term)
  | requestVoteResponse resp =>
    simp only [RaftDriver.handleInboundMessage, RaftDriver.after]
    rw [handleRequestVoteResponse_eq hreliable src resp]
    refine h.of_node ?_
    rw [RaftNode.volatile_countVote]
    exact hobserve resp.term
  | appendEntries req =>
    simp only [RaftDriver.handleInboundMessage, RaftDriver.answering]
    rcases handleAppendEntries_cases hreliable req with ⟨-, hrun⟩ | ⟨-, -, hrun⟩ | ⟨log, -, -, hrun⟩
    · rw [hrun]
      exact h.of_node rfl
    · rw [hrun]
      exact h.of_node (hobserve req.term)
    · rw [hrun]
      exact h.of_node rfl
  | appendEntriesResponse resp =>
    simp only [RaftDriver.handleInboundMessage, RaftDriver.after]
    rw [handleAppendEntriesResponse_eq hreliable src resp]
    exact h.of_node (hprogress _ _)
  | installSnapshot req => exact absurd rfl (hmsg req)
  | installSnapshotResponse resp =>
    simp only [RaftDriver.handleInboundMessage, RaftDriver.after]
    rw [handleInstallSnapshotResponse_eq hreliable src resp]
    exact h.of_node (hprogress _ _)

omit [StateMachine T M] in
/-- The entries that are committed and not yet applied are all there. -/
theorem map_index_unapplied {i : NodeId} (h : Commits cfg c L) (hi : i ∈ cfg.members) :
    (c i).node.unapplied.map LogEntry.index =
      List.range' ((c i).node.volatile.lastApplied + 1)
        ((c i).node.volatile.commitIndex - (c i).node.volatile.lastApplied) := by
  have hn := h.refines.node i hi
  have hlen : (c i).node.volatile.commitIndex ≤ (c i).node.log.entries.length := by
    rcases (h.node i hi).commit with hzero | ⟨t, k, -, hk, hcom, hpre⟩
    · omega
    · rw [← List.length_take_of_le (hk.trans (CommittedTo.length_le h.refines.sound.inv hcom))]
      exact hpre.length_le
  have hget : ∀ idx ∈ List.range' ((c i).node.volatile.lastApplied + 1)
      ((c i).node.volatile.commitIndex - (c i).node.volatile.lastApplied),
      ((c i).node.log.get idx).map LogEntry.index = some idx := by
    intro idx hidx
    rw [List.mem_range'_1] at hidx
    have hlt : idx - 1 < (c i).node.log.entries.length := by omega
    have hentry : (c i).node.log.get idx = some (c i).node.log.entries[idx - 1] := by
      have hadd := (c i).node.log.get_offset_add (idx - 1)
      rw [hn.offset, show 0 + (idx - 1) + 1 = idx by omega] at hadd
      rw [hadd, List.getElem?_eq_getElem hlt]
    have hindex := RaftLog.contiguous_iff.mp (h.refines.sound.contiguous (hn.valid h.refines.sound))
      (idx - 1) _ (List.getElem?_eq_getElem hlt)
    rw [hentry, Option.map_some, hindex]
    congr 1
    omega
  rw [RaftNode.unapplied, List.map_filterMap, List.filterMap_congr hget, List.filterMap_some]

theorem RaftDriver.InOrder.applyCommittedEntries {i : NodeId} (h : (c i).InOrder sm)
    (hc : Commits cfg c L) (hi : i ∈ cfg.members) : (c i).applyCommittedEntries.InOrder sm := by
  unfold RaftDriver.applyCommittedEntries
  split_ifs with hle
  · exact h
  · refine ⟨?_, ?_⟩
    · show ((c i).commitTx ++ (c i).node.unapplied).map LogEntry.index =
        List.range' 1 (max (c i).node.volatile.lastApplied (c i).node.volatile.commitIndex)
      rw [List.map_append, h.applied, map_index_unapplied hc hi, Nat.add_comm _ 1,
        List.range'_append_1, max_eq_right (by omega)]
      congr 1
      omega
    · simp only [h.machine, List.map_append, List.foldl_append, List.foldl_map]

/-- **Step lemma**: a faithful step keeps drivers in order. -/
theorem RaftDriver.InOrder.act (hc : Commits cfg c L) {e : Event T} (en : e.Enabled cfg c)
    (hok : e.Faithful c) (h : (c e.actor).InOrder sm) : (e.act (c e.actor)).InOrder sm := by
  have hreliable := (hc.refines.node _ en.1).reliable
  cases e with
  | startElection i =>
    simp only [Event.act, RaftDriver.after]
    rw [startElection_eq hreliable]
    exact h.of_node (by rw [RaftNode.volatile_requestVotes]; rfl)
  | deliver src i msg =>
    refine h.handleInboundMessage hreliable src ?_
    rintro req rfl
    exact ((hc.refines.node src en.2.1).sent _ en.2.2).elim
  | clientRequest i command =>
    simp only [Event.act, RaftNode.clientRequest]
    split_ifs
    · exact h
    · refine h.of_node ?_
      rw [(RaftNode.sendAppendEntriesToAll_sends _).volatile_eq]
      rfl
  | replicateToPeer i peer =>
    exact h.of_node (congrArg (·.lastApplied) ((c i).node.replicateToPeer_sends peer).volatile_eq)
  | advanceCommitIndex i =>
    obtain ⟨_, -, heq⟩ := (c i).node.volatile_advanceCommitIndex
    exact h.of_node (congrArg (·.lastApplied) heq)
  | applyCommitted i => exact h.applyCommittedEntries hc en.1
  | createSnapshot i => cases hok.1.1

/-- **Run lemma.** -/
theorem inOrder_run {c' : Cluster T M} (run : cfg.system.Steps (fun c e => e.Faithful c) c c')
    (hc : Commits cfg c L) (h : ∀ i, (c i).InOrder sm) : ∀ i, (c' i).InOrder sm := by
  induction run with
  | refl => exact h
  | tail e run en hok ih =>
    intro i
    obtain ⟨_, -, hmid⟩ := hc.run run
    by_cases hi : i = e.actor
    · subst hi
      simpa [ClusterConfig.system] using (ih e.actor).act hmid en hok
    · simpa [ClusterConfig.system, hi] using ih i

end Steps

/-! ## Replicas -/

theorem isPrefix_of_settled {cfg : ClusterConfig} {L : RaftLedger T}
    (hinv : L.Inv LogEntry.term cfg.quorums) {xs ys : List (LogEntry T)} {m n : ℕ} (hmn : m ≤ n)
    (hxs : xs.map LogEntry.index = List.range' 1 m) (hys : ys.map LogEntry.index = List.range' 1 n)
    (hx : ∀ e ∈ xs, Settled cfg L e) (hy : ∀ e ∈ ys, Settled cfg L e) : xs <+: ys := by
  have hxlen : xs.length = m := by simpa using congrArg List.length hxs
  have hylen : ys.length = n := by simpa using congrArg List.length hys
  rw [List.prefix_iff_getElem?]
  intro k hk
  have hk' : k < ys.length := by omega
  have hindex : xs[k].index = ys[k].index := by
    have hxk := List.getElem_of_eq hxs (by simpa using hk)
    have hyk := List.getElem_of_eq hys (by simpa using hk')
    simp only [List.getElem_map, List.getElem_range'] at hxk hyk
    omega
  rw [List.getElem?_eq_getElem hk',
    (hx _ (List.getElem_mem hk)).unique hinv (hy _ (List.getElem_mem hk')) hindex]

/-- **Replicas agree**: in a faithful run, what one node has applied is a prefix of what another
has, now or later. Each node applied the entries from the first one to its `last_applied` in order,
and its state machine is the outcome of their commands. -/
theorem replicas_agree [StateMachine T M] {cfg : ClusterConfig} {sm : M} {c c' : Cluster T M}
    (run : cfg.system.Steps (fun c e => e.Faithful c) (cfg.initial sm) c)
    (run' : cfg.system.Steps (fun c e => e.Faithful c) c c') {i j : NodeId}
    (hi : i ∈ cfg.members) (hj : j ∈ cfg.members) :
    ((c i).commitTx <+: (c' j).commitTx ∨ (c' j).commitTx <+: (c i).commitTx) ∧
    (c i).commitTx.map LogEntry.index = List.range' 1 (c i).node.volatile.lastApplied ∧
    (c i).stateMachine = ((c i).commitTx.map LogEntry.command).foldl StateMachine.apply sm := by
  have hinitial := Commits.initial (T := T) cfg sm
  obtain ⟨L, -, h⟩ := hinitial.run run
  obtain ⟨L', hle, h'⟩ := h.run run'
  have hfirst := inOrder_run run hinitial fun _ => ⟨rfl, rfl⟩
  have hours := hfirst i
  have htheirs := inOrder_run run' h hfirst j
  have hsettled : ∀ e ∈ (c i).commitTx, Settled cfg L' e := fun e he =>
    (h.applied i hi e he).mono h.refines.sound.inv hle
  refine ⟨?_, hours.applied, hours.machine⟩
  rcases Nat.le_total (c i).node.volatile.lastApplied (c' j).node.volatile.lastApplied with hlt | hlt
  · exact .inl (isPrefix_of_settled h'.refines.sound.inv hlt hours.applied htheirs.applied hsettled
      (h'.applied j hj))
  · exact .inr (isPrefix_of_settled h'.refines.sound.inv hlt htheirs.applied hours.applied
      (h'.applied j hj) hsettled)

/-- Both nodes of a short run apply one command. -/
theorem replicas_agree_oneCommand :
    let c := threeNodes.system.exec (threeNodes.initial ()) oneCommand
    (c 1).commitTx <+: (c 2).commitTx ∨ (c 2).commitTx <+: (c 1).commitTx := by
  intro c
  have hlegal : System.Legal threeNodes.system (fun c e => e.Faithful c)
      (threeNodes.initial ()) oneCommand := by
    decide +kernel
  exact (replicas_agree hlegal.steps .refl (by decide) (by decide)).1

/-- **Log matching**: in a timely run, entries of one term at one position of two logs, now or
later, are preceded by the same entries. -/
theorem log_matching [StateMachine T M] {cfg : ClusterConfig} {sm : M} {c c' : Cluster T M}
    (run : cfg.system.Steps (fun c e => e.Timely c) (cfg.initial sm) c)
    (run' : cfg.system.Steps (fun c e => e.Timely c) c c') {i j : NodeId}
    (hi : i ∈ cfg.members) (hj : j ∈ cfg.members) {p : ℕ} {x y : LogEntry T}
    (hx : (c i).node.log.entries[p]? = some x) (hy : (c' j).node.log.entries[p]? = some y)
    (hterm : x.term = y.term) :
    (c i).node.log.entries.take (p + 1) = (c' j).node.log.entries.take (p + 1) := by
  obtain ⟨L, -, h⟩ := (refines_initial cfg sm).run run
  obtain ⟨L', hle, h'⟩ := h.run run'
  exact (hle.valid ((h.node i hi).valid h.sound)).take_eq ((h'.node j hj).valid h'.sound) hx hy hterm

theorem log_matching_oneCommand :
    let c := threeNodes.system.exec (threeNodes.initial ()) oneCommand
    (c 1).node.log.entries.take 1 = (c 2).node.log.entries.take 1 := by
  intro c
  have hlegal : System.Legal threeNodes.system (fun c e => e.Timely c)
      (threeNodes.initial ()) oneCommand := by
    decide +kernel
  exact log_matching hlegal.steps .refl (by decide) (by decide) (x := ⟨1, 1, 10⟩) (y := ⟨1, 1, 10⟩)
    (by decide +kernel) (by decide +kernel) rfl

end Pirc.Raft
