import Pirc.Raft.Compaction
import Pirc.Raft.HandlerFrames

/-!
# Raft: what a follower acknowledges

A request verifies the follower's log up to its own last entry: the prefix check vouches for what
comes before, and the entries are the leader's. The follower acknowledges its whole log, and commits
up to the end of it. The two agree when the follower has nothing behind the last entry, or drops it
because an entry before contradicts the leader's.
-/

namespace Pirc.Raft

variable {T : Type}

/-- The last index that a request speaks about. -/
def AppendEntries.verified (req : AppendEntries T) : ℕ := req.prevLogIndex + req.entries.length

/-- The log has nothing behind the last entry of the request, or an entry that the request
contradicts. -/
def EndsVerified (log : RaftLog T) (req : AppendEntries T) : Prop :=
  log.lastIndex ≤ req.verified ∨
    ∃ e ∈ req.entries, ∃ existing, log.get e.index = some existing ∧ existing.term ≠ e.term

/-! ## Where the log ends -/

namespace RaftLog

variable {log log' : RaftLog T} {req : AppendEntries T}

theorem prevLogIndex_le_lastIndex {i t : ℕ} (h : ¬ (0 < i ∧ log.termAt i ≠ some t)) :
    i ≤ log.lastIndex := by
  rcases Nat.eq_zero_or_pos i with rfl | hpos
  · exact Nat.zero_le _
  · have hterm : log.termAt i = some t := by
      by_contra hne
      exact h ⟨hpos, hne⟩
    rcases termAt_eq_some hterm with ⟨rfl, -, -⟩ | ⟨p, e, rfl, he, -⟩
    · exact Nat.le_add_right ..
    · have := (List.getElem?_eq_some_iff.mp he).1
      unfold lastIndex
      omega

/-- **The log ends with the request** after it exactly if it ended there before, or an entry of the
request contradicts one of the log's. -/
theorem lastIndex_appendEntries_le_iff
    (hes : Contiguous (req.prevLogIndex + 1) req.entries)
    (h : log.appendEntries req.prevLogIndex req.prevLogTerm req.entries = some log') :
    log'.lastIndex ≤ req.verified ↔ EndsVerified log req := by
  unfold appendEntries at h
  split_ifs at h with hcheck
  obtain rfl := Option.some_inj.mp h
  have hprev := prevLogIndex_le_lastIndex hcheck
  rw [foldl_appendEntry_splice hes hprev]
  generalize hskip : log.offset - req.prevLogIndex = skip
  generalize hstart : req.prevLogIndex - log.offset = start
  unfold EndsVerified AppendEntries.verified
  unfold lastIndex at hprev ⊢
  dsimp only
  -- the entries of the request that the splice looks at, by their position in the log
  have hentry : ∀ {i : ℕ} {e : LogEntry T}, (req.entries.drop skip)[i]? = some e →
      e ∈ req.entries ∧ log.get e.index = log.entries[start + i]? := by
    intro i e he
    rw [List.getElem?_drop] at he
    have hindex := contiguous_iff.mp hes _ _ he
    refine ⟨List.mem_of_getElem? he, ?_⟩
    rw [← get_offset_add]
    congr 1
    omega
  rcases splice_cases log.entries start (req.entries.drop skip) with
    ⟨heq, hall⟩ | ⟨j, hj, heq, hbefore, hat⟩
  · -- the log stays as it is, and nothing contradicts it
    rw [heq]
    refine (or_iff_left ?_).symm
    rintro ⟨e, he, existing, hget, hne⟩
    obtain ⟨p, hp⟩ := List.getElem?_of_mem he
    obtain ⟨q, hq, hqget⟩ := get_eq_some hget
    have hindex := contiguous_iff.mp hes _ _ hp
    have hdrop : (req.entries.drop skip)[p - skip]? = some e := by
      rw [List.getElem?_drop, Nat.add_sub_cancel' (by omega)]
      exact hp
    obtain ⟨x, hx, hterm⟩ := hall _ _ hdrop
    rw [← (hentry hdrop).2, hget] at hx
    obtain rfl := Option.some_inj.mp hx
    exact hne hterm
  · -- the log is cut, and ends with the request
    rw [List.length_drop] at hj
    have hlast : log.offset + (splice log.entries start (req.entries.drop skip)).length =
        req.prevLogIndex + req.entries.length := by
      have hreach : start + j ≤ log.entries.length := by
        cases j with
        | zero => omega
        | succ j =>
          have hin : j < (req.entries.drop skip).length := by
            rw [List.length_drop]
            omega
          obtain ⟨x, hx, -⟩ := hbefore j _ (Nat.lt_succ_self j) (List.getElem?_eq_getElem hin)
          have := (List.getElem?_eq_some_iff.mp hx).1
          omega
      rw [heq, List.length_append, List.length_take, List.length_drop, List.length_drop]
      omega
    refine iff_of_true hlast.le ?_
    have hin : j < (req.entries.drop skip).length := by rwa [List.length_drop]
    cases hx : log.entries[start + j]? with
    | some x =>
      -- at a contradiction
      obtain ⟨hmem, hget⟩ := hentry (List.getElem?_eq_getElem hin)
      exact .inr ⟨_, hmem, x, hget.trans hx, hat x _ hx (List.getElem?_eq_getElem hin)⟩
    | none =>
      -- or at its end
      have := List.getElem?_eq_none_iff.mp hx
      left
      omega

end RaftLog

/-! ## What the follower answers -/

section Answers

variable {node node' : RaftNode T} {req : AppendEntries T} {resp : AppendEntriesResponse}

theorem unchanged_handleTermUpdate (t : ℕ) :
    Within (Unchanged fun node : RaftNode T => (node.log, node.volatile))
      (handleTermUpdate t : NodeM T StorageError Bool) := by
  have hwrite : ∀ f : Disk T → Disk T,
      Within (Unchanged fun node : RaftNode T => (node.log, node.volatile)) (writing (·.write f)) := by
    intro f node
    apply wp_write
    · intro rest
      rfl
    · intro e rest
      rfl
  unfold handleTermUpdate
  apply within_get
  intro node
  rw [wp_ite]
  split_ifs
  · rw [wp_bind, wp_set]
    have hsave := (hwrite fun d => { d with term := t }).bind fun _ =>
      (hwrite fun d => { d with votedFor := none }).bind fun _ => within_pure true
    exact hsave.resume rfl
  · rfl

theorem handleAppendEntries_success (node : RaftNode T) (req : AppendEntries T) :
    wp (handleAppendEntries req)
      (fun resp node' => resp.success = true →
        ∃ log, node.log.appendEntries req.prevLogIndex req.prevLogTerm req.entries = some log ∧
          resp.matchIndex = log.lastIndex ∧
          node'.volatile.commitIndex = node.followerCommit req.leaderCommit log)
      (fun _ _ => True) node := by
  unfold handleAppendEntries
  rw [wp_bind]
  refine wp_mono ?_ (fun _ _ _ => trivial) (unchanged_handleTermUpdate req.term node)
  intro b seen hsame
  -- seeing the term touches neither the log nor the commit index
  obtain ⟨hlog, hvolatile⟩ := Prod.mk.inj hsame
  rw [wp_bind, wp_get, wp_ite]
  split_ifs
  · rintro ⟨⟩
  · dsimp only
    split
    · rintro ⟨⟩
    · next log happend =>
      intro _
      refine ⟨log, ?_, rfl, ?_⟩
      · rw [← hlog]
        exact happend
      · show seen.followerCommit req.leaderCommit log = node.followerCommit req.leaderCommit log
        unfold RaftNode.followerCommit
        rw [hvolatile]

/-- **What a follower acknowledges and commits.** On a request whose entries continue its position,
as leaders send them, a success acknowledges no more than the request verified, and commits nothing
new behind it, exactly when the follower's log ends there. -/
theorem acknowledged_iff (hes : RaftLog.Contiguous (req.prevLogIndex + 1) req.entries)
    (hrun : (handleAppendEntries req).run node = .ok resp node') (hsuccess : resp.success = true) :
    (resp.matchIndex ≤ req.verified ∧
        (node.volatile.commitIndex < node'.volatile.commitIndex →
          node'.volatile.commitIndex ≤ req.verified)) ↔
      EndsVerified node.log req := by
  obtain ⟨log, happend, hmatch, hcommit⟩ :=
    wp_ok (handleAppendEntries_success node req) hrun hsuccess
  rw [← RaftLog.lastIndex_appendEntries_le_iff hes happend, hmatch]
  refine and_iff_left_of_imp ?_
  intro hlast hraised
  -- a commit index that is raised is within the log
  rw [hcommit] at hraised ⊢
  unfold RaftNode.followerCommit at hraised ⊢
  split_ifs at hraised ⊢
  · exact (min_le_right _ _).trans hlast
  · exact absurd hraised (lt_irrefl _)

/-- A follower with an entry of term one behind what the leader of term two sends. -/
def trailing : RaftNode ℕ :=
  { config := { nodeId := 2, peers := [1, 3] }
    currentTerm := 2
    log := { entries := [⟨1, 1, 10⟩, ⟨1, 2, 20⟩] }
    electionTracker := { clusterSize := 3 }
    membership := ClusterMembership.new 2 [1, 3] }

/-- The leader of term two sends its first entry, which is all that it has committed. -/
def firstEntry : AppendEntries ℕ where
  term := 2
  leaderId := 1
  prevLogIndex := 0
  prevLogTerm := 0
  entries := [⟨1, 1, 10⟩]
  leaderCommit := 1

/-- A request of two entries, of which the second contradicts what the follower has. -/
def twoEntries : AppendEntries ℕ :=
  { firstEntry with entries := [⟨1, 1, 10⟩, ⟨2, 2, 21⟩] }

theorem acknowledged_iff_twoEntries :
    ∃ node' : RaftNode ℕ, (handleAppendEntries twoEntries).run trailing = .ok ⟨2, true, 2⟩ node' ∧
      2 ≤ twoEntries.verified ∧ node'.volatile.commitIndex ≤ twoEntries.verified := by
  have hrun : (handleAppendEntries twoEntries).run trailing = .ok ⟨2, true, 2⟩
      { trailing.follow 1 with
        log := { entries := [⟨1, 1, 10⟩, ⟨2, 2, 21⟩] }, volatile := { commitIndex := 1 } } := rfl
  obtain ⟨hmatch, hcommit⟩ := (acknowledged_iff (by decide) hrun rfl).mpr
    (.inr ⟨⟨2, 2, 21⟩, by simp [twoEntries], ⟨1, 2, 20⟩, rfl, by decide⟩)
  exact ⟨_, hrun, hmatch, hcommit Nat.zero_lt_one⟩

/-- **An entry that nobody verified is acknowledged**: the answer is about the entry of term one
that the leader does not have. -/
theorem acknowledged_beyond :
    ∃ node' : RaftNode ℕ, (handleAppendEntries firstEntry).run trailing = .ok ⟨2, true, 2⟩ node' ∧
      RaftLog.Contiguous (firstEntry.prevLogIndex + 1) firstEntry.entries ∧
      firstEntry.verified < 2 :=
  ⟨{ trailing.follow 1 with volatile := { commitIndex := 1 } }, rfl, by decide, by decide⟩

end Answers

end Pirc.Raft
