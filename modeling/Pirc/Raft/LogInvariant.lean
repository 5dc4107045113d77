import Pirc.Raft.Handlers

/-!
# Raft: well-formed logs

`append_entries` trusts the indices of what it receives and never compares an entry at or below
the compaction point. Logs stay well-formed because of how leaders build requests, except for one
kind of request: one that starts at the beginning of the log and brings, right after the
receiver's snapshot, an entry of an earlier term than the snapshot's.
-/

namespace Pirc.Raft

variable {T M : Type}

namespace RaftLog

def terms (log : RaftLog T) : List ℕ := log.snapshotTerm :: log.entries.map LogEntry.term

/-- Consecutive indices, and terms that do not decrease and stay up to `b`. -/
structure WellFormed (log : RaftLog T) (b : ℕ) : Prop where
  contiguous : Contiguous (log.offset + 1) log.entries
  sorted : log.terms.Pairwise (· ≤ ·)
  le : ∀ t ∈ log.terms, t ≤ b
  offset : log.offset = 0 → log.snapshotTerm = 0

variable {log log' : RaftLog T} {b b' : ℕ}

theorem lastTerm_mem_terms (log : RaftLog T) : log.lastTerm ∈ log.terms := by
  unfold lastTerm terms
  cases hlast : log.entries.getLast? with
  | none => simp
  | some e => simpa using .inr ⟨e, List.mem_of_getLast? hlast, rfl⟩

namespace WellFormed

theorem mono (h : log.WellFormed b) (hb : b ≤ b') : log.WellFormed b' :=
  { h with le := fun t ht => (h.le t ht).trans hb }

theorem termAt_le (h : log.WellFormed b) {i t : ℕ} (ht : log.termAt i = some t) : t ≤ b := by
  rcases termAt_eq_some ht with ⟨-, -, rfl⟩ | ⟨p, e, -, he, rfl⟩
  · exact h.le _ (by simp [terms])
  · exact h.le _ (by simpa [terms] using .inr ⟨e, List.mem_of_getElem? he, rfl⟩)

theorem empty (offset term : ℕ) (hoff : offset = 0 → term = 0) (hb : term ≤ b) :
    ({ offset := offset, snapshotTerm := term } : RaftLog T).WellFormed b where
  contiguous := trivial
  sorted := by simp [terms]
  le t ht := by
    obtain rfl : t = term := by simpa [terms] using ht
    exact hb
  offset := hoff

theorem append (h : log.WellFormed b) (command : T) :
    (log.append ⟨b, log.lastIndex + 1, command⟩).WellFormed b where
  contiguous := by
    refine h.contiguous.append ⟨?_, trivial⟩
    simp only [lastIndex]
    omega
  sorted := by
    have hterms : (log.append ⟨b, log.lastIndex + 1, command⟩).terms = log.terms ++ [b] := by
      simp [terms, RaftLog.append]
    rw [hterms, List.pairwise_append]
    exact ⟨h.sorted, List.pairwise_singleton _ _, fun t ht t' ht' => by
      rw [List.mem_singleton.mp ht']
      exact h.le t ht⟩
  le t ht := by
    rcases (by simpa [terms, RaftLog.append] using ht :
      t = log.snapshotTerm ∨ (∃ e ∈ log.entries, e.term = t) ∨ t = b) with rfl | ⟨e, he, rfl⟩ | rfl
    · exact h.le _ (by simp [terms])
    · exact h.le _ (by simpa [terms] using .inr ⟨e, he, rfl⟩)
    · exact le_rfl
  offset := h.offset

theorem compactTo (h : log.WellFormed b) (i : ℕ) : (log.compactTo i).WellFormed b := by
  unfold RaftLog.compactTo
  split_ifs with hlow hhigh
  · exact h
  · exact h
  · have hlt : i - log.offset - 1 < log.entries.length := by
      unfold lastIndex at hhigh
      omega
    have hget : log.get i = some log.entries[i - log.offset - 1] := by
      have := log.get_offset_add (i - log.offset - 1)
      rwa [show log.offset + (i - log.offset - 1) + 1 = i by omega,
        List.getElem?_eq_getElem hlt] at this
    have hterms : ({ entries := log.entries.drop (i - log.offset), offset := i
                     snapshotTerm := ((log.get i).map LogEntry.term).getD log.snapshotTerm } :
                     RaftLog T).terms = log.terms.drop (i - log.offset) := by
      obtain ⟨k, hk⟩ : ∃ k, i - log.offset = k + 1 := ⟨i - log.offset - 1, by omega⟩
      have hlt' : k < log.entries.length := by omega
      simp only [terms, hget, hk, List.drop_succ_cons, Option.map_some, Option.getD_some,
        Nat.add_sub_cancel]
      rw [← List.map_drop, ← List.getElem_cons_drop hlt', List.map_cons]
    exact
      { contiguous := by
          have := h.contiguous.drop (i - log.offset)
          rwa [show log.offset + 1 + (i - log.offset) = i + 1 by omega] at this
        sorted := by
          rw [hterms]
          exact h.sorted.sublist (List.drop_sublist _ _)
        le := fun t ht => h.le t (by
          rw [hterms] at ht
          exact List.mem_of_mem_drop ht)
        offset := fun hi => by
          have : i = 0 := hi
          omega }

theorem le_of_mem_take (h : log.WellFormed b) {m x y : ℕ} (hx : x ∈ log.terms.take (m + 1))
    (hy : log.terms[m]? = some y) : x ≤ y := by
  rw [List.take_add_one, hy] at hx
  rcases List.mem_append.mp hx with hx | hx
  · have hlt := (List.getElem?_eq_some_iff.mp hy).1
    have hdrop : y ∈ log.terms.drop m := by
      rw [← List.getElem_cons_drop hlt, (List.getElem?_eq_some_iff.mp hy).2]
      exact List.mem_cons_self
    have hsorted := h.sorted
    rw [← List.take_append_drop m log.terms, List.pairwise_append] at hsorted
    exact hsorted.2.2 x hx y hdrop
  · obtain rfl : x = y := by simpa using hx
    exact le_rfl

theorem splice (h : log.WellFormed b) {k : ℕ} {es : List (LogEntry T)}
    (hk : k ≤ log.entries.length) (hcont : Contiguous (log.offset + k + 1) es)
    (hsorted : (es.map LogEntry.term).Pairwise (· ≤ ·)) (hle : ∀ e ∈ es, e.term ≤ b)
    (hjoin : ∀ x ∈ log.terms.take (k + 1), ∀ e ∈ es, x ≤ e.term) :
    ({ log with entries := RaftLog.splice log.entries k es } : RaftLog T).WellFormed b := by
  rcases splice_cases log.entries k es with ⟨heq, -⟩ | ⟨j, hj, heq, hbefore, -⟩
  · rw [heq]
    exact h
  rw [heq]
  -- the part kept is as long as it should be
  have hlen : k + j ≤ log.entries.length := by
    cases j with
    | zero => exact hk
    | succ j =>
      obtain ⟨x, hx, -⟩ := hbefore j _ (Nat.lt_succ_self j) (List.getElem?_eq_getElem (by omega))
      exact (List.getElem?_eq_some_iff.mp hx).1
  have hterms : ({ log with entries := log.entries.take (k + j) ++ es.drop j } : RaftLog T).terms =
      log.terms.take (k + j + 1) ++ (es.drop j).map LogEntry.term := by
    simp [terms, List.map_take]
  have hcross : ∀ x ∈ log.terms.take (k + j + 1), ∀ y ∈ (es.drop j).map LogEntry.term, x ≤ y := by
    intro x hx y hy
    obtain ⟨e, he, rfl⟩ := List.mem_map.mp hy
    cases j with
    | zero => exact hjoin x hx e (by simpa using he)
    | succ j =>
      have hej : es[j]? = some es[j] := List.getElem?_eq_getElem (by omega)
      obtain ⟨z, hz, hzterm⟩ := hbefore j _ (Nat.lt_succ_self j) hej
      have hat : log.terms[k + (j + 1)]? = some z.term := by
        rw [← Nat.add_assoc, terms, List.getElem?_cons_succ, List.getElem?_map, hz]
        rfl
      have hstep : es[j].term ≤ e.term := by
        rw [← List.take_append_drop (j + 1) es, List.map_append, List.pairwise_append] at hsorted
        refine hsorted.2.2 _ (List.mem_map_of_mem ?_) _ (List.mem_map_of_mem he)
        exact List.mem_of_getElem? (i := j)
          (by rw [List.getElem?_take_of_lt (Nat.lt_succ_self j), hej])
      exact (h.le_of_mem_take hx hat).trans (hzterm.le.trans hstep)
  exact
    { contiguous := by
        refine (h.contiguous.take _).append ?_
        rw [List.length_take_of_le hlen]
        have := hcont.drop j
        rwa [show log.offset + k + 1 + j = log.offset + 1 + (k + j) by omega] at this
      sorted := by
        rw [hterms, List.pairwise_append]
        refine ⟨h.sorted.sublist (List.take_sublist _ _), ?_, hcross⟩
        rw [List.map_drop]
        exact hsorted.sublist (List.drop_sublist _ _)
      le := fun t ht => by
        rw [hterms] at ht
        rcases List.mem_append.mp ht with ht | ht
        · exact h.le t (List.mem_of_mem_take ht)
        · obtain ⟨e, he, rfl⟩ := List.mem_map.mp ht
          exact hle e (List.mem_of_mem_drop he)
      offset := h.offset }

end WellFormed

end RaftLog

/-! ## Requests -/

/-- A request as leaders build it: consecutive indices after the position it names, and terms that
do not decrease from the one it names on. -/
structure AppendEntries.Ordered (req : AppendEntries T) : Prop where
  contiguous : RaftLog.Contiguous (req.prevLogIndex + 1) req.entries
  sorted : (req.prevLogTerm :: req.entries.map LogEntry.term).Pairwise (· ≤ ·)
  le : ∀ e ∈ req.entries, e.term ≤ req.term

namespace RaftLog.WellFormed

variable {log log' : RaftLog T} {b : ℕ} {req : AppendEntries T}

/-- **An accepted orderly request keeps the log well-formed**, unless it starts at the beginning of
the log and its first entry past the snapshot is of an earlier term. -/
theorem appendEntries (h : log.WellFormed b) (hb : b ≤ req.term) (hreq : req.Ordered)
    (hlow : req.prevLogIndex = 0 → ∀ e ∈ req.entries, e.index = log.offset + 1 →
      log.snapshotTerm ≤ e.term)
    (hlog : log.appendEntries req.prevLogIndex req.prevLogTerm req.entries = some log') :
    log'.WellFormed req.term := by
  have hb' := h.mono hb
  have hes := (List.pairwise_cons.mp hreq.sorted)
  have hprev : ∀ e ∈ req.entries, req.prevLogTerm ≤ e.term := fun e he =>
    hes.1 _ (List.mem_map_of_mem he)
  unfold RaftLog.appendEntries at hlog
  split_ifs at hlog with hcheck
  obtain rfl := Option.some_inj.mp hlog
  by_cases hzero : req.prevLogIndex = 0
  · -- entries at or below the offset are skipped, the rest is spliced in right after it
    have hcont := hreq.contiguous
    rw [hzero] at hcont
    rw [foldl_appendEntry_drop hcont, Nat.add_sub_cancel]
    have hcont' : Contiguous (log.offset + 0 + 1) (req.entries.drop log.offset) := by
      have := hcont.drop log.offset
      rwa [Nat.zero_add, Nat.add_comm] at this
    rw [foldl_appendEntry (Nat.zero_le _) hcont']
    have hsorted : ((req.entries.drop log.offset).map LogEntry.term).Pairwise (· ≤ ·) := by
      rw [List.map_drop]
      exact hes.2.sublist (List.drop_sublist _ _)
    refine hb'.splice (Nat.zero_le _) hcont' hsorted
      (fun e he => hreq.le e (List.mem_of_mem_drop he)) fun x hx e he => ?_
    obtain rfl : x = log.snapshotTerm := by simpa [terms] using hx
    cases hdrop : req.entries.drop log.offset with
    | nil => simp [hdrop] at he
    | cons e₀ es =>
      rw [hdrop] at hcont' hsorted he
      have hfirst : log.snapshotTerm ≤ e₀.term :=
        hlow hzero e₀ (List.mem_of_mem_drop (hdrop ▸ List.mem_cons_self)) hcont'.1
      rcases List.mem_cons.mp he with rfl | he
      · exact hfirst
      · exact hfirst.trans ((List.pairwise_cons.mp hsorted).1 _ (List.mem_map_of_mem he))
  · have hat : log.termAt req.prevLogIndex = some req.prevLogTerm := by
      by_contra hne
      exact hcheck ⟨Nat.pos_of_ne_zero hzero, hne⟩
    rcases termAt_eq_some hat with ⟨hoff, -, hterm⟩ | ⟨p, x, hp, hx, hterm⟩
    · -- right at the snapshot, whose term the request names
      have hcont : Contiguous (log.offset + 0 + 1) req.entries := hoff ▸ hreq.contiguous
      rw [foldl_appendEntry (Nat.zero_le _) hcont]
      refine hb'.splice (Nat.zero_le _) hcont hes.2 hreq.le fun y hy e he => ?_
      obtain rfl : y = log.snapshotTerm := by simpa [terms] using hy
      exact hterm ▸ hprev e he
    · have hlt := (List.getElem?_eq_some_iff.mp hx).1
      have hcont : Contiguous (log.offset + (p + 1) + 1) req.entries := by
        have := hreq.contiguous
        rwa [hp] at this
      rw [foldl_appendEntry hlt hcont]
      refine hb'.splice hlt hcont hes.2 hreq.le fun y hy e he => ?_
      have hyx : y ≤ x.term := by
        refine h.le_of_mem_take hy ?_
        rw [terms, List.getElem?_cons_succ, List.getElem?_map, hx]
        rfl
      exact hyx.trans (hterm.le.trans (hprev e he))

end RaftLog.WellFormed

/-! ## Nodes -/

/-- What every message in the network satisfies. -/
def Orderly : RaftMessage T → Prop
  | .appendEntries req => req.Ordered
  | .installSnapshot req => 0 < req.lastIncludedIndex ∧ req.lastIncludedTerm ≤ req.term
  | _ => True

/-- A node with a well-formed log, a snapshot of a real position, and orderly messages. -/
structure RaftNode.WellFormed (node : RaftNode T) : Prop where
  reliable : node.storage.Reliable
  log : node.log.WellFormed node.currentTerm
  snapshot : ∀ s, node.lastSnapshot = some s →
    0 < s.lastIncludedIndex ∧ s.lastIncludedTerm ≤ node.currentTerm
  sent : ∀ x ∈ node.outbound, Orderly x.2

namespace RaftNode.WellFormed

variable {node node' : RaftNode T}

theorem appendEntriesFor (h : node.WellFormed) {nextIdx : ℕ}
    (hnext : node.log.offset < nextIdx ∨ node.log.offset = 0) :
    (node.appendEntriesFor nextIdx).Ordered := by
  have hmem : ∀ e ∈ node.log.entries, e.term ≤ node.currentTerm := fun e he =>
    h.log.le _ (List.mem_cons_of_mem _ (List.mem_map_of_mem he))
  have hmap := (List.pairwise_cons.mp h.log.sorted).2
  cases nextIdx with
  | zero =>
    have hoff : node.log.offset = 0 := by omega
    have hnil : node.log.entriesFrom 0 = [] := by simp [RaftLog.entriesFrom]
    exact
      { contiguous := by simp [RaftNode.appendEntriesFor, hnil, RaftLog.Contiguous]
        sorted := by simp [RaftNode.appendEntriesFor, hnil]
        le := by simp [RaftNode.appendEntriesFor, hnil] }
  | succ n =>
    obtain ⟨p, rfl⟩ : ∃ p, n = node.log.offset + p := ⟨n - node.log.offset, by omega⟩
    have hfrom : node.log.entriesFrom (node.log.offset + p + 1) = node.log.entries.drop p :=
      node.log.entriesFrom_offset_add p
    refine ⟨?_, ?_, ?_⟩
    · have := h.log.contiguous.drop p
      rw [show node.log.offset + 1 + p = node.log.offset + p + 1 by omega] at this
      simpa [RaftNode.appendEntriesFor, hfrom] using this
    · simp only [RaftNode.appendEntriesFor, Nat.succ_pos, if_true, Nat.add_sub_cancel, hfrom]
      have hdrop : ((node.log.entries.drop p).map LogEntry.term).Pairwise (· ≤ ·) := by
        rw [List.map_drop]
        exact hmap.sublist (List.drop_sublist _ _)
      refine List.pairwise_cons.mpr ⟨fun t ht => ?_, hdrop⟩
      split_ifs with hpos
      · cases hat : node.log.termAt (node.log.offset + p) with
        | none => exact Nat.zero_le t
        | some prev =>
          -- the term named is the one just before the entries sent
          rcases RaftLog.termAt_eq_some hat with ⟨hp, -, rfl⟩ | ⟨q, x, hq, hx, rfl⟩
          · obtain rfl : p = 0 := by omega
            exact (List.pairwise_cons.mp h.log.sorted).1 t (by simpa using ht)
          · obtain rfl : p = q + 1 := by omega
            have hx' : x ∈ node.log.entries.take (q + 1) := List.mem_of_getElem? (i := q)
              (by rw [List.getElem?_take_of_lt (Nat.lt_succ_self q), hx])
            rw [← List.take_append_drop (q + 1) node.log.entries, List.map_append,
              List.pairwise_append] at hmap
            exact hmap.2.2 _ (List.mem_map_of_mem hx') t ht
      · exact Nat.zero_le t
    · intro e he
      simp only [RaftNode.appendEntriesFor, hfrom] at he
      exact hmem e (List.mem_of_mem_drop he)

theorem replicates (h : node.WellFormed) {m : RaftMessage T} (hm : node.Replicates m) :
    Orderly m := by
  cases hm with
  | entries nextIdx hnext => exact h.appendEntriesFor hnext
  | chunk s req hs hterm hindex hsterm =>
    have := h.snapshot s hs
    exact ⟨by omega, by omega⟩

theorem sends (h : node.WellFormed) {P : NodeId → RaftMessage T → Prop}
    (hs : node.Sends P node') (hP : ∀ p m, P p m → Orderly m) : node'.WellFormed := by
  have hsent : ∀ x ∈ node'.outbound, Orderly x.2 := fun x hx =>
    (hs.mem_outbound hx).elim (h.sent x) (hP x.1 x.2)
  obtain ⟨out, rfl, -⟩ := hs
  exact { h with sent := hsent }

theorem send (h : node.WellFormed) {p : NodeId} {m : RaftMessage T} (hm : Orderly m) :
    (node.send p m).WellFormed :=
  h.sends (P := fun _ r => r = m) (.send rfl) fun _ _ hr => hr ▸ hm

theorem sendAppendEntriesToAll (h : node.WellFormed) : node.sendAppendEntriesToAll.WellFormed :=
  h.sends node.sendAppendEntriesToAll_sends fun _ _ hpm => h.replicates hpm.2

theorem becomeLeader (h : node.WellFormed) : node.becomeLeader.WellFormed := by
  have hlead : node.lead.WellFormed := { h with }
  exact hlead.sendAppendEntriesToAll

theorem observe (h : node.WellFormed) (t : ℕ) : (node.observe t).WellFormed where
  reliable := node.observe_reliable h.reliable t
  log := by
    simp only [RaftNode.observe_log, RaftNode.observe_currentTerm]
    exact h.log.mono (le_max_left _ _)
  snapshot s hs := by
    rw [RaftNode.observe_lastSnapshot] at hs
    rw [RaftNode.observe_currentTerm]
    exact ⟨(h.snapshot s hs).1, (h.snapshot s hs).2.trans (le_max_left _ _)⟩
  sent x hx := h.sent x (by rwa [RaftNode.observe_outbound] at hx)

theorem advanceCommitIndex (h : node.WellFormed) : node.advanceCommitIndex.WellFormed := by
  obtain ⟨_, _, _, _, _, heq⟩ := node.advanceCommitIndex_eq
  rw [heq]
  exact { h with }

theorem updateProgress (h : node.WellFormed) (f : LeaderState → LeaderState) :
    (node.updateProgress f).WellFormed := by
  unfold RaftNode.updateProgress
  split_ifs
  · exact h
  · have hprogress : RaftNode.WellFormed { node with leaderState := node.leaderState.map f } :=
      { h with }
    exact hprogress.advanceCommitIndex

theorem requestVotes (h : node.WellFormed) : node.requestVotes.WellFormed := by
  unfold RaftNode.requestVotes
  split_ifs
  · exact h.becomeLeader
  · refine h.sends node.voteRequests_sends ?_
    rintro p m rfl
    trivial

theorem savedCampaign (h : node.WellFormed) : node.savedCampaign.WellFormed :=
  { h with
    log := h.log.mono (Nat.le_succ _)
    snapshot := fun s hs => ⟨(h.snapshot s hs).1, (h.snapshot s hs).2.trans (Nat.le_succ _)⟩ }

theorem countVote (h : node.WellFormed) (sender : NodeId) (resp : RequestVoteResponse) :
    (node.countVote sender resp).WellFormed := by
  unfold RaftNode.countVote
  split_ifs
  · exact h
  · dsimp only
    have hcount : RaftNode.WellFormed
        { node with electionTracker := node.electionTracker.recordVote sender } := { h with }
    split_ifs
    · exact hcount.becomeLeader
    · exact hcount
  · exact h

theorem clientRequest (h : node.WellFormed) (command : T) :
    (node.clientRequest command).2.WellFormed := by
  unfold RaftNode.clientRequest
  split_ifs
  · exact h
  · have happend : (node.appendCommand command).WellFormed :=
      { h with log := h.log.append command }
    exact happend.sendAppendEntriesToAll

theorem replicateToPeer (h : node.WellFormed) (peer : NodeId) :
    (node.replicateToPeer peer).WellFormed :=
  h.sends (node.replicateToPeer_sends peer) fun _ _ hpm => h.replicates hpm.2.2

theorem cutLog (h : node.WellFormed) {index term b : ℕ} (hindex : 0 < index) (hterm : term ≤ b)
    (hb : node.currentTerm ≤ b) : (node.cutLog index term).WellFormed b := by
  unfold RaftNode.cutLog
  split_ifs
  · exact (h.log.mono hb).compactTo index
  · exact RaftLog.WellFormed.empty index term (by omega) hterm

section Snapshots

variable [StateMachine T M]

theorem createSnapshot (h : node.WellFormed) (sm : M) (hzero : node.volatile.lastApplied ≠ 0) :
    RaftNode.WellFormed
      { node.saved (node.takeSnapshot sm) with
        log := node.log.compactTo node.volatile.lastApplied } :=
  { h with
    log := h.log.compactTo _
    snapshot := by
      rintro s hs
      obtain rfl := Option.some_inj.mp hs
      refine ⟨Nat.pos_of_ne_zero hzero, ?_⟩
      simp only [RaftNode.takeSnapshot]
      cases hat : node.log.termAt node.volatile.lastApplied with
      | none => exact h.log.le _ List.mem_cons_self
      | some t => exact h.log.termAt_le hat }

theorem handleInstallSnapshot (h : node.WellFormed) {req : InstallSnapshot}
    (hreq : 0 < req.lastIncludedIndex ∧ req.lastIncludedTerm ≤ req.term) (sm : M) :
    match (Raft.handleInstallSnapshot req).run (node, sm) with
    | .ok _ (node', _) => node'.WellFormed
    | .error _ (node', _) => node'.WellFormed := by
  have hrecv : ∀ chunks, (node.receiving req chunks).WellFormed := fun chunks =>
    { h.observe req.term with }
  rcases handleInstallSnapshot_cases h.reliable req sm with
    ⟨-, hrun⟩ | ⟨-, chunks, hrun⟩ | ⟨hterm, ⟨e, sm', hrun⟩ | ⟨data, sm', hrun⟩⟩
  · rw [hrun]
    exact h
  · rw [hrun]
    exact hrecv chunks
  all_goals
    have hmax : (node.observe req.term).currentTerm = req.term := by simp [hterm]
    have hcut : (node.cutLog req.lastIncludedIndex req.lastIncludedTerm).WellFormed
        (node.observe req.term).currentTerm :=
      h.cutLog hreq.1 (hreq.2.trans hmax.ge) (by simp)
    rw [hrun]
  · exact { hrecv none with log := hcut }
  · refine { hrecv none with log := hcut, snapshot := ?_ }
    rintro s hs
    obtain rfl := Option.some_inj.mp hs
    exact ⟨hreq.1, hreq.2.trans hmax.ge⟩

end Snapshots

end RaftNode.WellFormed

/-! ## Clusters -/

/-- The event accepts a request that starts at the beginning of the log and whose first entry past
the receiver's snapshot is of an earlier term than the snapshot. -/
def Event.appendsBelowSnapshot (c : Cluster T M) : Event T → Bool
  | .deliver _ dst (.appendEntries req) =>
    let node := (c dst).node
    node.currentTerm ≤ req.term && req.prevLogIndex = 0 &&
      req.entries.any fun e => e.index = node.log.offset + 1 && e.term < node.log.snapshotTerm
  | _ => false

theorem RaftDriver.after_wellFormed {ε α : Type} {d : RaftDriver T M} {x : NodeM T ε α}
    {a : α} {node : RaftNode T} (hrun : x.run d.node = .ok a node) (h : node.WellFormed) :
    (d.after x).node.WellFormed := by
  rwa [RaftDriver.after, hrun]

theorem RaftDriver.answering_wellFormed {ε α : Type} {d : RaftDriver T M} {sender : NodeId}
    {x : NodeM T ε α} {wrap : α → RaftMessage T} {a : α} {node : RaftNode T}
    (hrun : x.run d.node = .ok a node) (h : node.WellFormed) (hwrap : Orderly (wrap a)) :
    (d.answering sender x wrap).node.WellFormed := by
  rw [RaftDriver.answering, hrun]
  exact h.send hwrap

section Runs

variable [StateMachine T M] {cfg : ClusterConfig} {c : Cluster T M}

theorem handleInboundMessage_wellFormed {d : RaftDriver T M} (h : d.node.WellFormed)
    {msg : RaftMessage T} (hmsg : Orderly msg) (sender : NodeId)
    (hlow : ∀ req, msg = .appendEntries req → d.node.currentTerm ≤ req.term →
      req.prevLogIndex = 0 → ∀ e ∈ req.entries, e.index = d.node.log.offset + 1 →
      d.node.log.snapshotTerm ≤ e.term) :
    (d.handleInboundMessage sender msg).node.WellFormed := by
  cases msg with
  | requestVote req =>
    rcases handleRequestVote_cases h.reliable req with hrun | ⟨-, -, -, hrun⟩
    · exact RaftDriver.answering_wellFormed hrun (h.observe req.term) trivial
    · exact RaftDriver.answering_wellFormed hrun
        { h.observe req.term with reliable := h.reliable } trivial
  | requestVoteResponse resp =>
    exact RaftDriver.after_wellFormed (handleRequestVoteResponse_eq h.reliable sender resp)
      ((h.observe resp.term).countVote sender resp)
  | appendEntries req =>
    rcases handleAppendEntries_cases h.reliable req with
      ⟨-, hrun⟩ | ⟨-, -, hrun⟩ | ⟨log, hterm, hlog, hrun⟩
    · exact RaftDriver.answering_wellFormed hrun h trivial
    · exact RaftDriver.answering_wellFormed hrun { h.observe req.term with } trivial
    · have hmax : (d.node.observe req.term).currentTerm = req.term := by simp [hterm]
      refine RaftDriver.answering_wellFormed hrun { h.observe req.term with log := ?_ } trivial
      change log.WellFormed (d.node.observe req.term).currentTerm
      rw [hmax]
      exact h.log.appendEntries hterm hmsg (hlow req rfl hterm) hlog
  | appendEntriesResponse resp =>
    exact RaftDriver.after_wellFormed (handleAppendEntriesResponse_eq h.reliable sender resp)
      ((h.observe resp.term).updateProgress _)
  | installSnapshot req =>
    have hwf := h.handleInstallSnapshot hmsg d.stateMachine
    simp only [RaftDriver.handleInboundMessage]
    cases hrun : (handleInstallSnapshot req).run (d.node, d.stateMachine) with
    | ok resp out =>
      rw [hrun] at hwf
      exact hwf.send trivial
    | error e out =>
      rw [hrun] at hwf
      exact hwf
  | installSnapshotResponse resp =>
    exact RaftDriver.after_wellFormed (handleInstallSnapshotResponse_eq h.reliable sender resp)
      ((h.observe resp.term).updateProgress _)

theorem act_wellFormed {e : Event T} (en : e.Enabled cfg c)
    (hok : e.appendsBelowSnapshot c = false) (h : ∀ i ∈ cfg.members, (c i).node.WellFormed) :
    (e.act (c e.actor)).node.WellFormed := by
  obtain ⟨hi, en⟩ := en
  have hn := h _ hi
  cases e with
  | startElection i =>
    exact RaftDriver.after_wellFormed (startElection_eq hn.reliable) hn.savedCampaign.requestVotes
  | deliver src i msg =>
    refine handleInboundMessage_wellFormed hn ((h src en.1).sent _ en.2) src ?_
    rintro req rfl hterm hzero e he hidx
    simp only [Event.appendsBelowSnapshot] at hok
    by_contra hlt
    rw [Bool.and_eq_false_imp] at hok
    have hany := hok (by
      rw [Bool.and_eq_true]
      exact ⟨decide_eq_true hterm, decide_eq_true hzero⟩)
    rw [List.any_eq_false] at hany
    refine hany e he ?_
    rw [Bool.and_eq_true]
    exact ⟨decide_eq_true hidx, decide_eq_true (not_le.mp hlt)⟩
  | clientRequest i command => exact hn.clientRequest command
  | replicateToPeer i peer => exact hn.replicateToPeer peer
  | advanceCommitIndex i => exact hn.advanceCommitIndex
  | applyCommitted i =>
    change RaftNode.WellFormed (c i).applyCommittedEntries.node
    unfold RaftDriver.applyCommittedEntries
    split_ifs
    · exact hn
    · exact { hn with }
  | createSnapshot i =>
    rcases createSnapshot_cases hn.reliable (c i).stateMachine with hrun | ⟨hzero, hrun⟩
    · exact RaftDriver.after_wellFormed hrun hn
    · exact RaftDriver.after_wellFormed hrun (hn.createSnapshot _ hzero)

theorem steps_wellFormed {sm : M}
    (run : cfg.system.Steps (fun c e => e.appendsBelowSnapshot c = false) (cfg.initial sm) c) :
    ∀ i ∈ cfg.members, (c i).node.WellFormed := by
  refine run.invariant (I := fun c => ∀ i ∈ cfg.members, (c i).node.WellFormed) ?_ ?_
  · intro c e en hok h i hi
    by_cases hie : i = e.actor
    · subst hie
      simpa [ClusterConfig.system] using act_wellFormed en hok h
    · simpa [ClusterConfig.system, hie] using h i hi
  · intro i _
    exact
      { reliable := rfl
        log := RaftLog.WellFormed.empty 0 0 (fun _ => rfl) le_rfl
        snapshot := fun s hs => by cases hs
        sent := fun x hx => by simp [ClusterConfig.initial, RaftNode.new] at hx }

/-- **Well-formed logs**: in every state of a run that accepts no request below a snapshot, the
entries of every log carry consecutive indices, their terms do not decrease and are at least the
snapshot's, and the last term is at most the node's. -/
theorem log_wellFormed {sm : M}
    (run : cfg.system.Steps (fun c e => e.appendsBelowSnapshot c = false) (cfg.initial sm) c)
    {i : NodeId} (hi : i ∈ cfg.members) :
    let log := (c i).node.log
    (∀ p e, log.entries[p]? = some e → e.index = log.offset + p + 1) ∧
    (log.entries.map LogEntry.term).Pairwise (· ≤ ·) ∧
    (∀ e ∈ log.entries, log.snapshotTerm ≤ e.term) ∧
    log.lastTerm ≤ (c i).node.currentTerm := by
  have h := (steps_wellFormed run i hi).log
  obtain ⟨hlow, hsorted⟩ := List.pairwise_cons.mp h.sorted
  refine ⟨fun p e he => ?_, hsorted, fun e he => hlow _ (List.mem_map_of_mem he),
    h.le _ (RaftLog.lastTerm_mem_terms _)⟩
  rw [RaftLog.contiguous_iff.mp h.contiguous p e he]
  omega

end Runs

/-! ## Runs of three nodes -/

/-- Node 1 leads term 1, replicates a command, commits and applies it, and takes a snapshot. -/
def oneSnapshot : List (Event ℕ) :=
  [.startElection 1, .deliver 1 2 (.requestVote ⟨1, 1, 0, 0⟩),
    .deliver 2 1 (.requestVoteResponse ⟨1, true⟩), .clientRequest 1 10, .clientRequest 1 11,
    .deliver 1 2 (.appendEntries ⟨1, 1, 0, 0, [⟨1, 1, 10⟩], 0⟩),
    .deliver 2 1 (.appendEntriesResponse ⟨1, true, 1⟩), .applyCommitted 1, .createSnapshot 1]

/-- After its snapshot, node 1 keeps one entry, of the snapshot's own term. -/
theorem log_wellFormed_oneSnapshot :
    let c := threeNodes.system.exec (threeNodes.initial ()) oneSnapshot
    (c 1).node.log = ⟨[⟨1, 2, 11⟩], 1, 1⟩ ∧
    ∀ e ∈ (c 1).node.log.entries, (c 1).node.log.snapshotTerm ≤ e.term := by
  intro c
  have hlegal : System.Legal threeNodes.system (fun c e => e.appendsBelowSnapshot c = false)
      (threeNodes.initial ()) oneSnapshot := by
    decide +kernel
  exact ⟨by decide +kernel, (log_wellFormed hlegal.steps (by decide)).2.2.1⟩

/-- Node 2 commits a command of term 2 and takes a snapshot of it. Node 1, which never had that
command, is made leader of term 3 by a vote of term 1 and sends its log of term 1 from the
beginning. -/
def belowSnapshot : List (Event ℕ) :=
  [.startElection 1, .deliver 1 2 (.requestVote ⟨1, 1, 0, 0⟩),
    .deliver 1 3 (.requestVote ⟨1, 1, 0, 0⟩), .deliver 2 1 (.requestVoteResponse ⟨1, true⟩),
    .clientRequest 1 10, .clientRequest 1 11,
    .startElection 2, .deliver 2 3 (.requestVote ⟨2, 2, 0, 0⟩),
    .deliver 3 2 (.requestVoteResponse ⟨2, true⟩), .clientRequest 2 20,
    .deliver 2 3 (.appendEntries ⟨2, 2, 0, 0, [⟨2, 1, 20⟩], 0⟩),
    .deliver 3 2 (.appendEntriesResponse ⟨2, true, 1⟩), .applyCommitted 2, .createSnapshot 2,
    .startElection 1, .startElection 1, .deliver 3 1 (.requestVoteResponse ⟨1, true⟩),
    .deliver 1 2 (.appendEntries ⟨3, 1, 2, 1, [], 0⟩),
    .deliver 2 1 (.appendEntriesResponse ⟨3, false, 0⟩), .replicateToPeer 1 2,
    .deliver 1 2 (.appendEntries ⟨3, 1, 1, 1, [⟨1, 2, 11⟩], 0⟩),
    .deliver 2 1 (.appendEntriesResponse ⟨3, false, 0⟩), .replicateToPeer 1 2,
    .deliver 1 2 (.appendEntries ⟨3, 1, 0, 0, [⟨1, 1, 10⟩, ⟨1, 2, 11⟩], 0⟩)]

/-- Without the side condition a log can hold an entry of an earlier term than its snapshot. -/
theorem log_disordered :
    ¬ ∀ c : Cluster ℕ Unit,
      threeNodes.system.Steps System.Free (threeNodes.initial ()) c →
      ∀ i ∈ threeNodes.members, ∀ e ∈ (c i).node.log.entries,
        (c i).node.log.snapshotTerm ≤ e.term := by
  intro h
  have hlegal : System.Legal threeNodes.system System.Free (threeNodes.initial ())
      belowSnapshot := by
    decide +kernel
  exact absurd (h _ hlegal.steps 2 (by decide) ⟨1, 2, 11⟩ (by decide +kernel)) (by decide +kernel)

end Pirc.Raft
