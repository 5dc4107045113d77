import Pirc.Raft.Types

/-!
# Raft: the in-memory log

`raft/log.rs`. The log keeps the entries after its compaction point `offset`, so `entries[0]`
has log index `offset + 1`; `snapshotTerm` is the term of the entry at `offset`.

## Main results

* `RaftLog.foldl_appendEntry`: the conflict loop on a contiguous request is a splice
-/

namespace Pirc.Raft

/-- In-memory replicated log: the entries after `offset`, and the term of the entry at `offset`. -/
structure RaftLog (T : Type) where
  entries : List (LogEntry T) := []
  offset : ℕ := 0
  snapshotTerm : ℕ := 0
  deriving DecidableEq

namespace RaftLog

variable {T : Type}

/-- The internal position of a log index; `none` at or below the offset and beyond the end. -/
def toInternal (log : RaftLog T) (index : ℕ) : Option ℕ :=
  if index ≤ log.offset then none
  else
    let internal := index - log.offset - 1
    if log.entries.length ≤ internal then none else some internal

def append (log : RaftLog T) (entry : LogEntry T) : RaftLog T :=
  { log with entries := log.entries ++ [entry] }

def get (log : RaftLog T) (index : ℕ) : Option (LogEntry T) :=
  (log.toInternal index).bind (log.entries[·]?)

def lastIndex (log : RaftLog T) : ℕ := log.offset + log.entries.length

def lastTerm (log : RaftLog T) : ℕ := (log.entries.getLast?.map LogEntry.term).getD log.snapshotTerm

/-- All entries from a log index on; empty at or below the offset and beyond the end. -/
def entriesFrom (log : RaftLog T) (index : ℕ) : List (LogEntry T) :=
  if index ≤ log.offset ∨ log.offset + log.entries.length < index then []
  else log.entries.drop (index - log.offset - 1)

def termAt (log : RaftLog T) (index : ℕ) : Option ℕ :=
  if index = log.offset ∧ 0 < log.offset then some log.snapshotTerm
  else (log.get index).map LogEntry.term

def appendEntry (log : RaftLog T) (entry : LogEntry T) : RaftLog T :=
  -- entries at or below the compacted offset are skipped, whatever their term
  if entry.index ≤ log.offset then log
  else
    let internalPos := entry.index - log.offset
    if internalPos ≤ log.entries.length then
      match log.entries[internalPos - 1]? with
      | some existing =>
        if existing.term ≠ entry.term then
          { log with entries := log.entries.take (internalPos - 1) ++ [entry] }
        else log
      | none => log
    else { log with entries := log.entries ++ [entry] }

/-- Append entries from a leader: `none` when the log does not hold `prevLogTerm` at
`prevLogIndex`, in which case the source leaves the log as it was. -/
def appendEntries (log : RaftLog T) (prevLogIndex : ℕ) (prevLogTerm : ℕ)
    (entries : List (LogEntry T)) : Option (RaftLog T) :=
  if 0 < prevLogIndex ∧ log.termAt prevLogIndex ≠ some prevLogTerm then none
  else some (entries.foldl appendEntry log)

def fromEntries (entries : List (LogEntry T)) : RaftLog T := { entries := entries }

/-- Compact the log up to an index; a no-op at or below the offset and beyond the end. -/
def compactTo (log : RaftLog T) (upToIndex : ℕ) : RaftLog T :=
  if upToIndex ≤ log.offset then log
  else if log.lastIndex < upToIndex then log
  else
    { entries := log.entries.drop (upToIndex - log.offset)
      offset := upToIndex
      snapshotTerm := ((log.get upToIndex).map LogEntry.term).getD log.snapshotTerm }

/-- Discard the whole log and continue from a snapshot point. -/
def resetToSnapshot (_log : RaftLog T) (lastIncludedIndex : ℕ) (lastIncludedTerm : ℕ) :
    RaftLog T :=
  { entries := [], offset := lastIncludedIndex, snapshotTerm := lastIncludedTerm }

/-! ## Reading the log by position -/

theorem get_offset_add (log : RaftLog T) (p : ℕ) : log.get (log.offset + p + 1) = log.entries[p]? := by
  have hsub : log.offset + p + 1 - log.offset - 1 = p := by omega
  unfold get toInternal
  rw [if_neg (by omega), hsub]
  by_cases hp : log.entries.length ≤ p
  · simp [hp]
  · simp [hp]

theorem get_eq_none_of_le {log : RaftLog T} {i : ℕ} (h : i ≤ log.offset) :
    log.get i = none := by
  simp [get, toInternal, h]

theorem get_eq_some {log : RaftLog T} {i : ℕ} {e : LogEntry T} (h : log.get i = some e) :
    ∃ p, i = log.offset + p + 1 ∧ log.entries[p]? = some e := by
  by_cases hi : i ≤ log.offset
  · rw [get_eq_none_of_le hi] at h
    cases h
  · refine ⟨i - log.offset - 1, by omega, ?_⟩
    rwa [show i = log.offset + (i - log.offset - 1) + 1 by omega, get_offset_add] at h

theorem termAt_offset_add (log : RaftLog T) (p : ℕ) :
    log.termAt (log.offset + p + 1) = log.entries[p]?.map LogEntry.term := by
  unfold termAt
  rw [if_neg (by omega), get_offset_add]

theorem termAt_offset {log : RaftLog T} (h : 0 < log.offset) :
    log.termAt log.offset = some log.snapshotTerm := by
  simp [termAt, h]

theorem termAt_eq_some {log : RaftLog T} {i : ℕ} {t : ℕ} (h : log.termAt i = some t) :
    (i = log.offset ∧ 0 < log.offset ∧ t = log.snapshotTerm) ∨
      ∃ p e, i = log.offset + p + 1 ∧ log.entries[p]? = some e ∧ e.term = t := by
  unfold termAt at h
  split_ifs at h with hi
  · exact .inl ⟨hi.1, hi.2, by simpa using h.symm⟩
  · obtain ⟨e, he, rfl⟩ := Option.map_eq_some_iff.mp h
    obtain ⟨p, rfl, hp⟩ := get_eq_some he
    exact .inr ⟨p, e, rfl, hp, rfl⟩

theorem entriesFrom_offset_add (log : RaftLog T) (p : ℕ) :
    log.entriesFrom (log.offset + p + 1) = log.entries.drop p := by
  unfold entriesFrom
  by_cases hp : p < log.entries.length
  · rw [if_neg (by omega)]
    congr 1
    omega
  · rw [if_pos (by omega), List.drop_eq_nil_of_le (by omega)]

/-! ## The conflict loop as a splice -/

/-- Keep the entries of `l` that agree with `es` from position `k` on, and from the first
conflict, or from the end, continue with `es`. -/
def splice (l : List (LogEntry T)) (k : ℕ) : List (LogEntry T) → List (LogEntry T)
  | [] => l
  | e :: es =>
    match l[k]? with
    | some x => if x.term = e.term then splice l (k + 1) es else l.take k ++ e :: es
    | none => l.take k ++ e :: es

/-- The entries carry consecutive indices from `i` on. -/
def Contiguous : ℕ → List (LogEntry T) → Prop
  | _, [] => True
  | i, e :: es => e.index = i ∧ Contiguous (i + 1) es

instance Contiguous.decidable : ∀ (i : ℕ) (es : List (LogEntry T)), Decidable (Contiguous i es)
  | _, [] => .isTrue trivial
  | i, _ :: es =>
    have := Contiguous.decidable (i + 1) es
    inferInstanceAs (Decidable (_ ∧ _))

theorem contiguous_iff : ∀ {i : ℕ} {es : List (LogEntry T)},
    Contiguous i es ↔ ∀ p e, es[p]? = some e → e.index = i + p
  | _, [] => by simp [Contiguous]
  | i, e :: es => by
    rw [Contiguous, contiguous_iff]
    constructor
    · rintro ⟨he, hes⟩ (_ | p) x hx
      · simp_all
      · rw [hes p x (by simpa using hx)]
        omega
    · intro h
      refine ⟨by simpa using h 0 e rfl, fun p x hx => ?_⟩
      rw [h (p + 1) x (by simpa using hx)]
      omega

theorem Contiguous.drop {i : ℕ} {es : List (LogEntry T)} (h : Contiguous i es) (k : ℕ) :
    Contiguous (i + k) (es.drop k) := by
  rw [contiguous_iff] at h ⊢
  intro p e he
  rw [h (k + p) e (by simpa using he)]
  omega

theorem Contiguous.take {i : ℕ} {es : List (LogEntry T)} (h : Contiguous i es) (k : ℕ) :
    Contiguous i (es.take k) := by
  rw [contiguous_iff] at h ⊢
  intro p e he
  have hpk : p < k := by
    by_contra hpk
    simp [List.getElem?_take_eq_none (Nat.le_of_not_lt hpk)] at he
  rw [List.getElem?_take_of_lt hpk] at he
  exact h p e he

theorem Contiguous.append {i : ℕ} : ∀ {l₁ l₂ : List (LogEntry T)}, Contiguous i l₁ →
    Contiguous (i + l₁.length) l₂ → Contiguous i (l₁ ++ l₂)
  | [], _, _, h₂ => h₂
  | _ :: l₁, _, h₁, h₂ =>
    ⟨h₁.1, Contiguous.append h₁.2 (by rwa [List.length_cons, ← Nat.add_assoc, Nat.add_right_comm] at h₂)⟩

@[simp] theorem splice_length (l es : List (LogEntry T)) : splice l l.length es = l ++ es := by
  cases es <;> simp [splice]

theorem foldl_appendEntry : ∀ {es : List (LogEntry T)} {log : RaftLog T} {k : ℕ},
    k ≤ log.entries.length → Contiguous (log.offset + k + 1) es →
    es.foldl appendEntry log = { log with entries := splice log.entries k es }
  | [], _, _, _, _ => rfl
  | e :: es, log, k, hk, ⟨he, hes⟩ => by
    rw [List.foldl_cons]
    have hidx : ¬ e.index ≤ log.offset := by omega
    have hpos : e.index - log.offset = k + 1 := by omega
    rcases Nat.lt_or_ge k log.entries.length with hlt | hge
    · -- the position exists: either it agrees and stays, or everything from it on is replaced
      have hget : log.entries[k]? = some log.entries[k] := List.getElem?_eq_getElem hlt
      by_cases hterm : (log.entries[k]).term = e.term
      · have hstep : appendEntry log e = log := by
          simp [appendEntry, hidx, hpos, hget, hterm, Nat.succ_le_of_lt hlt]
        rw [hstep, foldl_appendEntry (k := k + 1) hlt (by rwa [← Nat.add_assoc])]
        simp [splice, hget, hterm]
      · have hstep : appendEntry log e = { log with entries := log.entries.take k ++ [e] } := by
          simp [appendEntry, hidx, hpos, hget, hterm, Nat.succ_le_of_lt hlt]
        have hlen : (log.entries.take k ++ [e]).length = k + 1 := by simp [hk]
        rw [hstep, foldl_appendEntry (k := k + 1) hlen.ge (by rwa [← Nat.add_assoc])]
        simp only [splice, hget, hterm, if_false]
        rw [← hlen, splice_length]
        simp
    · -- past the end: the rest is appended as it is
      obtain rfl : k = log.entries.length := le_antisymm hk hge
      have hstep : appendEntry log e = log.append e := by
        simp [appendEntry, append, hidx, hpos]
      have hlen : (log.append e).entries.length = log.entries.length + 1 := by simp [append]
      rw [hstep, foldl_appendEntry (k := log.entries.length + 1) hlen.ge
        (by rwa [← Nat.add_assoc]), ← hlen, splice_length, splice_length]
      simp [append]

theorem foldl_appendEntry_drop : ∀ {es : List (LogEntry T)} {log : RaftLog T} {i : ℕ},
    Contiguous i es →
    es.foldl appendEntry log = (es.drop (log.offset + 1 - i)).foldl appendEntry log
  | [], _, _, _ => by simp
  | e :: es, log, i, ⟨he, hes⟩ => by
    by_cases hi : i ≤ log.offset
    · have hstep : appendEntry log e = log := by simp [appendEntry, he, hi]
      rw [List.foldl_cons, hstep, foldl_appendEntry_drop hes,
        show log.offset + 1 - i = (log.offset + 1 - (i + 1)) + 1 by omega, List.drop_succ_cons]
    · rw [show log.offset + 1 - i = 0 by omega, List.drop_zero]

/-- **What a splice can do**: keep the list, when every entry of the request is there, or cut it
at the first conflict (or at its end) and continue with the request. -/
theorem splice_cases : ∀ (l : List (LogEntry T)) (k : ℕ) (es : List (LogEntry T)),
    (splice l k es = l ∧ ∀ i e, es[i]? = some e → ∃ x, l[k + i]? = some x ∧ x.term = e.term) ∨
    ∃ j, j < es.length ∧ splice l k es = l.take (k + j) ++ es.drop j ∧
      (∀ i e, i < j → es[i]? = some e → ∃ x, l[k + i]? = some x ∧ x.term = e.term) ∧
      ∀ x e, l[k + j]? = some x → es[j]? = some e → x.term ≠ e.term
  | l, k, [] => by simp [splice]
  | l, k, e :: es => by
    cases hx : l[k]? with
    | none =>
      refine .inr ⟨0, by simp, by simp [splice, hx], by simp, fun x e' hx' => ?_⟩
      simp [hx] at hx'
    | some x =>
      by_cases hterm : x.term = e.term
      · have hsplice : splice l k (e :: es) = splice l (k + 1) es := by simp [splice, hx, hterm]
        rw [hsplice]
        have hcons : ∀ {P : ℕ → Prop}, (∀ i e', P i → es[i]? = some e' →
            ∃ x, l[k + 1 + i]? = some x ∧ x.term = e'.term) →
            ∀ i e', (∀ i', i = i' + 1 → P i') → (e :: es)[i]? = some e' →
            ∃ x, l[k + i]? = some x ∧ x.term = e'.term := by
          rintro P h (_ | i) e' hP he'
          · exact ⟨x, by simpa using hx, by simp_all⟩
          · obtain ⟨y, hy, hye⟩ := h i e' (hP i rfl) (by simpa using he')
            exact ⟨y, by rwa [Nat.add_assoc, Nat.add_comm 1] at hy, hye⟩
        rcases splice_cases l (k + 1) es with ⟨heq, hall⟩ | ⟨j, hj, heq, hbefore, hat⟩
        · exact .inl ⟨heq, fun i e' => hcons (P := fun _ => True) (fun i e' _ => hall i e') i e'
            fun _ _ => trivial⟩
        · refine .inr ⟨j + 1, by simpa using hj, ?_, ?_, ?_⟩
          · rw [heq]
            simp [Nat.add_assoc, Nat.add_comm 1]
          · intro i e' hi
            exact hcons (P := (· < j)) (fun i e' hi => hbefore i e' hi) i e' fun i' hi' => by omega
          · intro y e' hy he'
            exact hat y e' (by rwa [Nat.add_assoc, Nat.add_comm 1]) (by simpa using he')
      · refine .inr ⟨0, by simp, by simp [splice, hx, hterm], by simp, fun y e' hy he' => ?_⟩
        simp_all

end RaftLog

end Pirc.Raft
