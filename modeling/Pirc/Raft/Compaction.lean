import Pirc.Raft.CompactedLog

/-!
# Raft: compaction and replication

A follower may compact its log before a request arrives or after it. The prefix check, the skip at
the offset, the cut at a conflict and the append all turn absolute indices into positions after the
offset, and none of them sees where the offset is, as long as the request does not contradict what
was compacted.

## Main results

* `RaftLog.splice_of_agree`: agreeing entries may be left out of a splice
* `RaftLog.appended_compactTo`: **compaction commutes with replication**
-/

namespace Pirc.Raft

namespace RaftLog

variable {T : Type}

/-- What `append_entries` answers, and the log that it leaves. -/
def appended (log : RaftLog T) (prevLogIndex prevLogTerm : ℕ) (entries : List (LogEntry T)) :
    Bool × RaftLog T :=
  match log.appendEntries prevLogIndex prevLogTerm entries with
  | some log => (true, log)
  | none => (false, log)

/-! ## Splices -/

section Splices

variable {l es : List (LogEntry T)} {k d : ℕ}

theorem splice_of_agree (h : ∀ p e, p < d → es[p]? = some e →
    ∃ x, l[k + p]? = some x ∧ x.term = e.term) : splice l k es = splice l (k + d) (es.drop d) := by
  induction d generalizing k es with
  | zero => rfl
  | succ d ih =>
    cases es with
    | nil => rfl
    | cons e es =>
      obtain ⟨x, hx, hterm⟩ := h 0 e (Nat.succ_pos d) rfl
      rw [Nat.add_zero] at hx
      have hstep : splice l k (e :: es) = splice l (k + 1) es := by
        simp [splice, hx, hterm]
      rw [hstep, List.drop_succ_cons, ← Nat.add_assoc, Nat.add_right_comm]
      apply ih
      intro p e' hp he'
      obtain ⟨y, hy, hyterm⟩ := h (p + 1) e' (by omega) (by simpa using he')
      refine ⟨y, ?_, hyterm⟩
      rwa [Nat.add_right_comm, Nat.add_assoc]

theorem take_splice (hk : k ≤ l.length) : (splice l k es).take k = l.take k := by
  rcases splice_cases l k es with ⟨heq, -⟩ | ⟨j, -, heq, hbefore, -⟩
  · rw [heq]
  · rw [heq, List.take_append_of_le_length, List.take_take, min_eq_left (Nat.le_add_right k j)]
    · -- the entries before the conflict are there, so that the log reaches it
      rw [List.length_take]
      omega

theorem le_length_splice (hk : k ≤ l.length) : k ≤ (splice l k es).length := by
  have htake : (splice l k es).take k = l.take k := take_splice hk
  have hlen := congrArg List.length htake
  rw [List.length_take, List.length_take] at hlen
  omega

end Splices

/-! ## Compaction -/

section Compaction

variable {log : RaftLog T} {d : ℕ}

theorem compactTo_of_le {k : ℕ} (h : k ≤ log.offset) : log.compactTo k = log := if_pos h

theorem compactTo_offset_add (hd : 0 < d) (hlen : d ≤ log.entries.length) :
    log.compactTo (log.offset + d) =
      { entries := log.entries.drop d
        offset := log.offset + d
        snapshotTerm := (log.entries[d - 1]?.map LogEntry.term).getD log.snapshotTerm } := by
  have hget : log.get (log.offset + d) = log.entries[d - 1]? := by
    rw [← get_offset_add]
    congr 1
    omega
  unfold compactTo lastIndex
  rw [if_neg (by omega), if_neg (by omega), hget, Nat.add_sub_cancel_left]

theorem entries_compactTo (hd : 0 < d) (hlen : d ≤ log.entries.length) :
    (log.compactTo (log.offset + d)).entries = log.entries.drop d := by
  rw [compactTo_offset_add hd hlen]

theorem offset_compactTo (hd : 0 < d) (hlen : d ≤ log.entries.length) :
    (log.compactTo (log.offset + d)).offset = log.offset + d := by
  rw [compactTo_offset_add hd hlen]

theorem lastIndex_compactTo (hd : 0 < d) (hlen : d ≤ log.entries.length) :
    (log.compactTo (log.offset + d)).lastIndex = log.lastIndex := by
  unfold lastIndex
  rw [offset_compactTo hd hlen, entries_compactTo hd hlen, List.length_drop]
  omega

theorem termAt_compactTo (hd : 0 < d) (hlen : d ≤ log.entries.length) (p : ℕ) :
    (log.compactTo (log.offset + d)).termAt (log.offset + d + p) =
      log.termAt (log.offset + d + p) := by
  rw [compactTo_offset_add hd hlen]
  cases p with
  | zero =>
    -- the term at the point itself is the snapshot term now
    have hin : d - 1 < log.entries.length := by omega
    have hbefore := termAt_offset_add log (d - 1)
    rw [show log.offset + (d - 1) + 1 = log.offset + d by omega,
      List.getElem?_eq_getElem hin] at hbefore
    rw [Nat.add_zero, hbefore, List.getElem?_eq_getElem hin]
    have hpos : 0 < log.offset + d := by omega
    exact termAt_offset hpos
  | succ p =>
    have hbefore := termAt_offset_add log (d + p)
    have hafter := termAt_offset_add (T := T) ⟨log.entries.drop d, log.offset + d,
      (log.entries[d - 1]?.map LogEntry.term).getD log.snapshotTerm⟩ p
    rw [List.getElem?_drop] at hafter
    rw [← Nat.add_assoc, hafter, Nat.add_assoc log.offset, hbefore]

theorem compactTo_splice (hd : 0 < d) {j : ℕ} (es : List (LogEntry T))
    (hlen : d + j ≤ log.entries.length) :
    { log with entries := splice log.entries (d + j) es }.compactTo (log.offset + d) =
      { entries := splice (log.entries.drop d) j es
        offset := log.offset + d
        snapshotTerm := (log.compactTo (log.offset + d)).snapshotTerm } := by
  have hreach : d + j ≤ (splice log.entries (d + j) es).length := le_length_splice hlen
  -- the entry at the point is before the splice
  have hentry : (splice log.entries (d + j) es)[d - 1]? = log.entries[d - 1]? := by
    have hsplice : (splice log.entries (d + j) es).take (d + j) = log.entries.take (d + j) :=
      take_splice hlen
    have htake := congrArg (·[d - 1]?) hsplice
    rwa [List.getElem?_take_of_lt (by omega), List.getElem?_take_of_lt (by omega)] at htake
  rw [compactTo_offset_add hd (Nat.le_of_add_right_le hlen), ← hentry, splice_drop hlen]
  let spliced : RaftLog T := { log with entries := splice log.entries (d + j) es }
  have hspliced : d ≤ spliced.entries.length := Nat.le_of_add_right_le hreach
  exact compactTo_offset_add hd hspliced

theorem offset_foldl_appendEntry (es : List (LogEntry T)) :
    (es.foldl appendEntry log).offset = log.offset := by
  induction es generalizing log with
  | nil => rfl
  | cons e es ih =>
    rw [List.foldl_cons, ih]
    unfold appendEntry
    dsimp only
    split_ifs
    · rfl
    · split
      · split
        · rfl
        · rfl
      · rfl
    · rfl

variable {prevLogIndex prevLogTerm : ℕ} {es : List (LogEntry T)}

theorem foldl_appendEntry_splice (hes : Contiguous (prevLogIndex + 1) es)
    (hprev : prevLogIndex ≤ log.lastIndex) :
    es.foldl appendEntry log =
      { log with
        entries := splice log.entries (prevLogIndex - log.offset)
          (es.drop (log.offset - prevLogIndex)) } := by
  rw [foldl_appendEntry_drop hes, Nat.add_sub_add_right]
  apply foldl_appendEntry
  · unfold lastIndex at hprev
    omega
  · have hdrop := hes.drop (log.offset - prevLogIndex)
    rwa [show prevLogIndex + 1 + (log.offset - prevLogIndex) =
      log.offset + (prevLogIndex - log.offset) + 1 by omega] at hdrop

theorem foldl_compactTo_of_start (hd : 0 < d) (hlen : d ≤ log.entries.length)
    (hes : Contiguous 1 es)
    (hown : ∀ e ∈ es, log.offset < e.index → e.index ≤ log.offset + d → log.get e.index = some e) :
    es.foldl appendEntry (log.compactTo (log.offset + d)) =
      (es.foldl appendEntry log).compactTo (log.offset + d) := by
  have hfold (log : RaftLog T) : es.foldl appendEntry log =
      { log with entries := splice log.entries 0 (es.drop log.offset) } := by
    have hsplice := foldl_appendEntry_splice hes (Nat.zero_le log.lastIndex)
    rwa [Nat.zero_sub, Nat.sub_zero] at hsplice
  rw [hfold, hfold]
  have hagree : ∀ p e, p < d → (es.drop log.offset)[p]? = some e →
      ∃ x, log.entries[0 + p]? = some x ∧ x.term = e.term := by
    intro p e hp he
    rw [List.getElem?_drop] at he
    have hindex := contiguous_iff.mp hes _ _ he
    have hget := hown e (List.mem_of_getElem? he) (by omega) (by omega)
    rw [show e.index = log.offset + p + 1 by omega, get_offset_add] at hget
    exact ⟨e, by rwa [Nat.zero_add], rfl⟩
  rw [splice_of_agree hagree, Nat.zero_add, List.drop_drop, offset_compactTo hd hlen,
    entries_compactTo hd hlen]
  have hsplice := compactTo_splice (j := 0) hd (es.drop (log.offset + d)) hlen
  exact hsplice.symm

theorem foldl_compactTo_of_le (hd : 0 < d) (hprev : log.offset + d ≤ prevLogIndex)
    (hlast : prevLogIndex ≤ log.lastIndex) (hes : Contiguous (prevLogIndex + 1) es) :
    es.foldl appendEntry (log.compactTo (log.offset + d)) =
      (es.foldl appendEntry log).compactTo (log.offset + d) := by
  obtain ⟨j, rfl⟩ := Nat.exists_eq_add_of_le hprev
  have hlen : d + j ≤ log.entries.length := by
    unfold lastIndex at hlast
    omega
  have hcut : log.offset + d + j ≤ (log.compactTo (log.offset + d)).lastIndex := by
    rw [lastIndex_compactTo hd (by omega)]
    exact hlast
  have hsplice := compactTo_splice hd es hlen
  have hbefore : log.offset - (log.offset + d + j) = 0 := by omega
  have hafter : log.offset + d - (log.offset + d + j) = 0 := by omega
  rw [foldl_appendEntry_splice hes hlast, foldl_appendEntry_splice hes hcut, hbefore,
    offset_compactTo hd (by omega), entries_compactTo hd (by omega), hafter, List.drop_zero,
    Nat.add_sub_cancel_left, Nat.add_assoc log.offset d j, Nat.add_sub_cancel_left]
  exact hsplice.symm

/-- **Compaction commutes with replication**: a request that starts the log or continues it at the
compaction point or after it, and has the log's own entries up to there, gets the same answer from
the compacted log, and leaves the log that compaction makes of what it leaves without. -/
theorem appended_compactTo {k : ℕ} (hk : k ≤ log.lastIndex)
    (hes : Contiguous (prevLogIndex + 1) es) (hprev : prevLogIndex = 0 ∨ k ≤ prevLogIndex)
    (hown : ∀ e ∈ es, log.offset < e.index → e.index ≤ k → log.get e.index = some e) :
    (log.compactTo k).appended prevLogIndex prevLogTerm es =
      ((log.appended prevLogIndex prevLogTerm es).1,
        (log.appended prevLogIndex prevLogTerm es).2.compactTo k) := by
  unfold appended appendEntries
  rcases Nat.lt_or_ge log.offset k with hlt | hle
  · obtain ⟨d, rfl⟩ := Nat.exists_eq_add_of_le hlt.le
    have hd : 0 < d := by omega
    have hlen : d ≤ log.entries.length := by
      unfold lastIndex at hk
      omega
    -- the check sees the same term in both logs
    have hcheck : (0 < prevLogIndex ∧
          (log.compactTo (log.offset + d)).termAt prevLogIndex ≠ some prevLogTerm) ↔
        (0 < prevLogIndex ∧ log.termAt prevLogIndex ≠ some prevLogTerm) := by
      apply and_congr_right
      intro hpos
      obtain ⟨p, rfl⟩ := Nat.exists_eq_add_of_le (hprev.resolve_left hpos.ne')
      rw [termAt_compactTo hd hlen]
    by_cases hfail : 0 < prevLogIndex ∧ log.termAt prevLogIndex ≠ some prevLogTerm
    · rw [if_pos hfail, if_pos (hcheck.mpr hfail)]
    · rw [if_neg hfail, if_neg (mt hcheck.mp hfail)]
      dsimp only
      congr 1
      rcases hprev with rfl | hprev
      · exact foldl_compactTo_of_start hd hlen hes hown
      · -- a position with a term is within the log
        have hterm : log.termAt prevLogIndex = some prevLogTerm := by
          by_contra hne
          exact hfail ⟨by omega, hne⟩
        apply foldl_compactTo_of_le hd hprev _ hes
        rcases termAt_eq_some hterm with ⟨rfl, -, -⟩ | ⟨p, e, rfl, he, -⟩
        · exact Nat.le_add_right ..
        · have := (List.getElem?_eq_some_iff.mp he).1
          unfold lastIndex
          omega
  · -- a point at or below the offset: nothing is compacted, before or after
    rw [compactTo_of_le hle]
    split_ifs
    · dsimp only
      rw [compactTo_of_le hle]
    · dsimp only
      rw [compactTo_of_le]
      rwa [offset_foldl_appendEntry]

/-- A compacted log of four entries, compacted further, and a request that replaces its end. -/
theorem appended_compactTo_conflict :
    ((⟨[⟨1, 2, 20⟩, ⟨2, 3, 30⟩, ⟨2, 4, 40⟩], 1, 1⟩ : RaftLog ℕ).compactTo 3).appended 3 2
        [⟨3, 4, 41⟩, ⟨3, 5, 50⟩] = (true, ⟨[⟨3, 4, 41⟩, ⟨3, 5, 50⟩], 3, 2⟩) :=
  appended_compactTo (by decide) (by decide) (.inr (by decide)) (by decide)

end Compaction

end RaftLog

end Pirc.Raft
