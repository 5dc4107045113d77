import Pirc.Raft.Refinement

/-!
# Raft: compacted logs

A compacted log stands for a whole log: it keeps the entries after its offset, and the term of the
last one before. The operations of the compacted log are the operations of the whole log it stands
for, where they do not look below the offset.

## Main results

* `RaftLog.Represents.compactTo`, `RaftLog.represents_resetToSnapshot`: what is cut off stays known
-/

namespace Pirc.Raft

variable {T : Type}

/-- The logs agree up to every position where their terms do. -/
def TermsAgree (l l' : List (LogEntry T)) : Prop :=
  ∀ i x y, l[i]? = some x → l'[i]? = some y → x.term = y.term → l.take (i + 1) = l'.take (i + 1)

theorem TermsAgree.take_right {l l' : List (LogEntry T)} (h : TermsAgree l l') (n : ℕ) :
    TermsAgree l (l'.take n) := by
  intro i x y hx hy hterm
  have hin : i < n := by
    by_contra hge
    rw [List.getElem?_take_eq_none (Nat.le_of_not_lt hge)] at hy
    cases hy
  rw [List.getElem?_take_of_lt hin] at hy
  rw [List.take_take, min_eq_left hin]
  exact h i x y hx hy hterm

namespace RaftLog

variable {log log' : RaftLog T} {l l' : List (LogEntry T)}

structure Represents (log : RaftLog T) (l : List (LogEntry T)) : Prop where
  entries : log.entries = l.drop log.offset
  offset_le : log.offset ≤ l.length
  snapshotTerm : log.snapshotTerm = Ledger.lastTerm LogEntry.term (l.take log.offset)

theorem splice_drop {o : ℕ} {es : List (LogEntry T)} : ∀ {k : ℕ}, o + k ≤ l.length →
    splice (l.drop o) k es = (splice l (o + k) es).drop o := by
  induction es with
  | nil =>
    intro k _
    rfl
  | cons e es ih =>
    intro k hk
    have hcut : (l.drop o).take k ++ e :: es = (l.take (o + k) ++ e :: es).drop o := by
      rw [List.drop_append_of_le_length (by rw [List.length_take]; omega), List.drop_take,
        Nat.add_sub_cancel_left]
    rw [splice, splice, List.getElem?_drop]
    cases hx : l[o + k]? with
    | none => exact hcut
    | some x =>
      dsimp only
      split_ifs with hterm
      · have hlt := (List.getElem?_eq_some_iff.mp hx).1
        rw [ih (by omega), Nat.add_assoc]
      · exact hcut

/-- **Splicing in a log from an agreeing position on merges it.** -/
theorem splice_eq_merge {s : ℕ} (hagree : TermsAgree l l') (htake : l.take s = l'.take s) :
    splice l s (l'.drop s) = Ledger.merge l l' := by
  -- where the spliced entries agree up to a position, so do the logs
  have hlead : ∀ j, j ≤ (l'.drop s).length →
      (∀ i e, i < j → (l'.drop s)[i]? = some e → ∃ x, l[s + i]? = some x ∧ x.term = e.term) →
      l.take (s + j) = l'.take (s + j) := by
    intro j hj hall
    cases j with
    | zero => exact htake
    | succ j =>
      have he : (l'.drop s)[j]? = some (l'.drop s)[j] := List.getElem?_eq_getElem hj
      obtain ⟨x, hx, hterm⟩ := hall j _ (Nat.lt_succ_self j) he
      rw [List.getElem?_drop] at he
      exact hagree (s + j) x _ hx he hterm
  unfold Ledger.merge
  rcases splice_cases l s (l'.drop s) with ⟨heq, hall⟩ | ⟨j, hj, heq, hbefore, hat⟩
  · have hsame := hlead _ le_rfl fun i e _ => hall i e
    have hle : l'.length ≤ s + (l'.drop s).length := by
      rw [List.length_drop]
      omega
    rw [List.take_of_length_le hle] at hsame
    have hp : l' <+: l := hsame ▸ List.take_prefix _ _
    rw [heq, if_pos hp]
  · have hp : ¬ l' <+: l := by
      intro hp
      have he : (l'.drop s)[j]? = some (l'.drop s)[j] := List.getElem?_eq_getElem hj
      have hl := he
      rw [List.getElem?_drop] at hl
      exact hat _ _ (Ledger.getElem?_of_isPrefix hp hl) he rfl
    rw [heq, if_neg hp, hlead j hj.le hbefore, List.drop_drop, List.take_append_drop]

namespace Represents

/-! ### Reading -/

theorem lastIndex (h : log.Represents l) : log.lastIndex = l.length := by
  have hle := h.offset_le
  rw [RaftLog.lastIndex, h.entries, List.length_drop]
  omega

theorem get_succ (h : log.Represents l) {p : ℕ} (hp : log.offset ≤ p) :
    log.get (p + 1) = l[p]? := by
  obtain ⟨q, rfl⟩ := Nat.exists_eq_add_of_le hp
  rw [log.get_offset_add, h.entries, List.getElem?_drop]

theorem termAt_succ (h : log.Represents l) {p : ℕ} (hp : log.offset ≤ p + 1) :
    log.termAt (p + 1) = l[p]?.map LogEntry.term := by
  rcases Nat.eq_or_lt_of_le hp with heq | hlt
  · -- at the offset itself the term is the snapshot's
    have hpl : p < l.length := by
      have hle := h.offset_le
      omega
    have hlast : (l.take (p + 1)).getLast? = some l[p] := by
      rw [List.getLast?_eq_getElem?, List.length_take_of_le hpl, Nat.succ_sub_one,
        List.getElem?_take_of_lt (Nat.lt_succ_self p), List.getElem?_eq_getElem hpl]
    rw [← heq, termAt_offset (by omega), h.snapshotTerm, heq, List.getElem?_eq_getElem hpl,
      Ledger.lastTerm, hlast]
    rfl
  · rw [RaftLog.termAt, if_neg (by omega), h.get_succ (by omega)]

theorem termAt_of_lt {i : ℕ} (hi : i < log.offset) : log.termAt i = none := by
  rw [termAt, if_neg (by omega), get_eq_none_of_le hi.le]
  rfl

/-! ### Writing -/

theorem append (h : log.Represents l) (e : LogEntry T) : (log.append e).Represents (l ++ [e]) where
  entries := by
    have hle := h.offset_le
    show log.entries ++ [e] = (l ++ [e]).drop log.offset
    rw [List.drop_append_of_le_length hle, h.entries]
  offset_le := by
    have hle := h.offset_le
    show log.offset ≤ (l ++ [e]).length
    rw [List.length_append]
    omega
  snapshotTerm := by
    show log.snapshotTerm = Ledger.lastTerm LogEntry.term ((l ++ [e]).take log.offset)
    rw [List.take_append_of_le_length h.offset_le, h.snapshotTerm]

theorem compactTo (h : log.Represents l) (i : ℕ) : (log.compactTo i).Represents l := by
  unfold RaftLog.compactTo
  split_ifs with hlow hhigh
  · exact h
  · exact h
  · obtain ⟨p, rfl⟩ : ∃ p, i = p + 1 := ⟨i - 1, by omega⟩
    rw [h.lastIndex, not_lt] at hhigh
    have hget : log.get (p + 1) = some l[p] := by
      rw [h.get_succ (by omega), List.getElem?_eq_getElem hhigh]
    refine ⟨?_, hhigh, ?_⟩
    · show log.entries.drop (p + 1 - log.offset) = l.drop (p + 1)
      rw [h.entries, List.drop_drop]
      congr 1
      omega
    · show ((log.get (p + 1)).map LogEntry.term).getD log.snapshotTerm = _
      rw [hget, Ledger.lastTerm, List.getLast?_eq_getElem?, List.length_take_of_le hhigh,
        Nat.succ_sub_one, List.getElem?_take_of_lt (Nat.lt_succ_self p),
        List.getElem?_eq_getElem hhigh]
      rfl

theorem foldl_appendEntry (h : log.Represents l) {s : ℕ} (hagree : TermsAgree l l')
    (hidx : Contiguous 1 l') (hos : log.offset ≤ s) (hsl : s ≤ l.length)
    (htake : l.take s = l'.take s) :
    ((l'.drop s).foldl appendEntry log).Represents (Ledger.merge l l') ∧
      ((l'.drop s).foldl appendEntry log).offset = log.offset := by
  have hcont : Contiguous (log.offset + (s - log.offset) + 1) (l'.drop s) := by
    have hdrop := hidx.drop s
    rwa [show 1 + s = log.offset + (s - log.offset) + 1 by omega] at hdrop
  have hlen : s - log.offset ≤ log.entries.length := by
    rw [h.entries, List.length_drop]
    omega
  have hsame : (Ledger.merge l l').take log.offset = l.take log.offset := by
    unfold Ledger.merge
    split_ifs
    · rfl
    · have hcut := congrArg (List.take log.offset) htake
      rw [List.take_take, List.take_take, min_eq_left hos] at hcut
      exact hcut.symm
  rw [RaftLog.foldl_appendEntry hlen hcont]
  refine ⟨⟨?_, ?_, ?_⟩, rfl⟩
  · show splice log.entries (s - log.offset) (l'.drop s) = (Ledger.merge l l').drop log.offset
    rw [h.entries, splice_drop (by omega), show log.offset + (s - log.offset) = s by omega,
      splice_eq_merge hagree htake]
  · have hcut := congrArg List.length hsame
    have hle := h.offset_le
    rw [List.length_take, List.length_take] at hcut
    show log.offset ≤ (Ledger.merge l l').length
    omega
  · show log.snapshotTerm = _
    rw [h.snapshotTerm, hsame]

/-- The position a request names agrees with the leader's log, unless it lies below the offset. -/
theorem take_prev_eq (h : log.Represents l) {req : AppendEntries T} (hagree : TermsAgree l l')
    (hseg : Segment l' req) (hos : log.offset ≤ req.prevLogIndex)
    (hprev : ¬ (0 < req.prevLogIndex ∧ log.termAt req.prevLogIndex ≠ some req.prevLogTerm)) :
    req.prevLogIndex ≤ l.length ∧ l.take req.prevLogIndex = l'.take req.prevLogIndex := by
  cases hp : req.prevLogIndex with
  | zero => exact ⟨Nat.zero_le _, by rw [List.take_zero, List.take_zero]⟩
  | succ p =>
    obtain ⟨e, he, hterm⟩ := hseg.prevTerm p hp
    have hat : log.termAt (p + 1) = some req.prevLogTerm := by
      by_contra hne
      exact hprev ⟨by omega, by rwa [hp]⟩
    rw [h.termAt_succ (by omega)] at hat
    obtain ⟨x, hx, hxterm⟩ := Option.map_eq_some_iff.mp hat
    exact ⟨(List.getElem?_eq_some_iff.mp hx).1, hagree p x e hx he (hxterm.trans hterm.symm)⟩

/-- **An accepted request merges a prefix of the leader's log**, where what lies below the offset
agrees with it. -/
theorem appendEntries (h : log.Represents l) {req : AppendEntries T} (hagree : TermsAgree l l')
    (hidx : Contiguous 1 l') (hseg : Segment l' req)
    (hlow : req.prevLogIndex < log.offset →
      (l'.take (req.prevLogIndex + req.entries.length)).take log.offset <+: l)
    (hlog : log.appendEntries req.prevLogIndex req.prevLogTerm req.entries = some log') :
    log'.Represents (Ledger.merge l (l'.take (req.prevLogIndex + req.entries.length))) ∧
      log'.offset = log.offset := by
  unfold RaftLog.appendEntries at hlog
  split_ifs at hlog with hprev
  obtain rfl := Option.some_inj.mp hlog
  have hle := h.offset_le
  have hes : req.entries =
      (l'.take (req.prevLogIndex + req.entries.length)).drop req.prevLogIndex := by
    rw [List.drop_take, Nat.add_sub_cancel_left]
    exact List.prefix_iff_eq_take.mp hseg.entries
  have hagree' := hagree.take_right (req.prevLogIndex + req.entries.length)
  have hidx' := hidx.take (req.prevLogIndex + req.entries.length)
  rcases Nat.lt_or_ge req.prevLogIndex log.offset with hbelow | hos
  · -- only a request from the beginning of the log passes the check below the offset
    have hzero : req.prevLogIndex = 0 := by
      by_contra hne
      refine hprev ⟨Nat.pos_of_ne_zero hne, ?_⟩
      rw [termAt_of_lt hbelow]
      exact Option.some_ne_none _ |>.symm
    specialize hlow hbelow
    rw [hzero, List.drop_zero] at hes
    rw [hzero] at hlow hagree' hidx' ⊢
    generalize l'.take (0 + req.entries.length) = p at hes hlow hagree' hidx' ⊢
    rw [hes, foldl_appendEntry_drop hidx', Nat.add_sub_cancel]
    rcases Nat.lt_or_ge log.offset p.length with hlt | hge
    · refine h.foldl_appendEntry hagree' hidx' le_rfl hle ?_
      rw [List.prefix_iff_eq_take.mp hlow, List.length_take_of_le hlt.le]
    · -- all of the request lies below the offset
      rw [List.take_of_length_le hge] at hlow
      rw [List.drop_eq_nil_of_le hge, Ledger.merge, if_pos hlow]
      exact ⟨h, rfl⟩
  · obtain ⟨hpl, htake⟩ := h.take_prev_eq hagree hseg hos hprev
    have htake' : l.take req.prevLogIndex =
        (l'.take (req.prevLogIndex + req.entries.length)).take req.prevLogIndex := by
      rw [List.take_take, min_eq_left (Nat.le_add_right _ _), htake]
    have hmerge := h.foldl_appendEntry hagree' hidx' hos hpl htake'
    rwa [← hes] at hmerge

theorem appendEntries_beyondEnd (h : log.Represents l) (hpos : ∀ e ∈ l, 0 < e.term)
    {req : AppendEntries T} (hreq : BeyondEnd req) :
    log.appendEntries req.prevLogIndex req.prevLogTerm req.entries = none := by
  obtain ⟨hprev, hterm, -⟩ := hreq
  refine if_pos ⟨hprev, ?_⟩
  intro hat
  rcases Nat.lt_or_ge req.prevLogIndex log.offset with hbelow | hos
  · rw [termAt_of_lt hbelow] at hat
    cases hat
  · obtain ⟨p, hp⟩ : ∃ p, req.prevLogIndex = p + 1 := ⟨req.prevLogIndex - 1, by omega⟩
    rw [hp, h.termAt_succ (by omega)] at hat
    obtain ⟨e, he, heterm⟩ := Option.map_eq_some_iff.mp hat
    have hposterm := hpos e (List.mem_of_getElem? he)
    omega

end Represents

theorem represents_resetToSnapshot (log : RaftLog T) {k t : ℕ} (hk : k ≤ l.length)
    (ht : t = Ledger.lastTerm LogEntry.term (l.take k)) :
    (log.resetToSnapshot k t).Represents (l.take k) where
  entries := by
    show [] = (l.take k).drop k
    rw [List.drop_eq_nil_of_le (List.length_take_le _ _)]
  offset_le := by
    show k ≤ (l.take k).length
    rw [List.length_take_of_le hk]
  snapshotTerm := by
    show t = Ledger.lastTerm LogEntry.term ((l.take k).take k)
    rw [List.take_take, min_self, ht]

end RaftLog

end Pirc.Raft
