import Mathlib.Tactic
import Mathlib.Logic.Relation

/-!
# Elected replicated logs

The abstract protocol behind leader-based log replication, over arbitrary parties and entries. A
`Ledger` keeps the log of every party next to the history that makes the argument go through:
who voted for whom in which term, with which log a candidate ran, which log each term's leader
built, and which prefixes of it a party acknowledged.

## Main results

* `Ledger.Inv.committed_agree`: two committed prefixes agree wherever both are defined
-/

universe u v

/-! ## Quorums -/

/-- A choice of quorums, any two of which share a member. -/
structure Quorums (N : Type u) where
  IsQuorum : Finset N → Prop
  inter : ∀ {Q Q' : Finset N}, IsQuorum Q → IsQuorum Q' → ∃ n ∈ Q, n ∈ Q'

/-- The majorities of a finite set of parties. -/
def Quorums.majority {N : Type u} [DecidableEq N] (members : Finset N) : Quorums N where
  IsQuorum Q := Q ⊆ members ∧ members.card < 2 * Q.card
  inter {Q Q'} hQ hQ' := by
    have hunion : (Q ∪ Q').card ≤ members.card :=
      Finset.card_le_card (Finset.union_subset hQ.1 hQ'.1)
    have hsum := Finset.card_union_add_card_inter Q Q'
    have hpos : 0 < (Q ∩ Q').card := by
      have h := hQ.2
      have h' := hQ'.2
      omega
    obtain ⟨n, hn⟩ := Finset.card_pos.mp hpos
    exact ⟨n, (Finset.mem_inter.mp hn).1, (Finset.mem_inter.mp hn).2⟩

/-! ## The protocol -/

structure Ledger (N : Type u) (α : Type v) where
  /-- The latest term a party has seen. -/
  term : N → ℕ
  log : N → List α
  /-- The vote of a party in a term. -/
  vote : N → ℕ → Option N
  /-- The log a party stood for election with in a term. -/
  campaign : N → ℕ → Option (List α)
  winner : ℕ → Option N
  /-- The log of a term's leader; it only grows. -/
  leaderLog : ℕ → List α
  /-- `(n, t, k)`: in term `t`, party `n` acknowledged the first `k` entries of its leader. -/
  acks : Set (N × ℕ × ℕ)

namespace Ledger

variable {N : Type u} {α : Type v} {τ : α → ℕ} {𝒬 : Quorums N} {L L' : Ledger N α}

def lastTerm (τ : α → ℕ) (l : List α) : ℕ := (l.getLast?.map τ).getD 0

/-- The log `c` is at least as up-to-date as `l`: last terms first, then lengths. -/
def UpToDate (τ : α → ℕ) (c l : List α) : Prop :=
  lastTerm τ l < lastTerm τ c ∨ lastTerm τ c = lastTerm τ l ∧ l.length ≤ c.length

open Classical in
/-- A log after it accepts the prefix `p` of a leader's log: nothing changes when `p` is there
already, and everything that `p` does not confirm goes when it is not. -/
noncomputable def merge (l p : List α) : List α := if p <+: l then l else p

def record [DecidableEq N] {β : Type*} (f : N → ℕ → β) (n : N) (t : ℕ) (b : β) : N → ℕ → β :=
  fun m r => if m = n ∧ r = t then b else f m r

inductive Step [DecidableEq N] (τ : α → ℕ) (𝒬 : Quorums N) (n : N) (L : Ledger N α) :
    Ledger N α → Prop
  | observe (t : ℕ) (h : L.term n ≤ t) :
      Step τ 𝒬 n L { L with term := Function.update L.term n t }
  | campaign :
      Step τ 𝒬 n L
        { L with
          term := Function.update L.term n (L.term n + 1)
          vote := record L.vote n (L.term n + 1) (some n)
          campaign := record L.campaign n (L.term n + 1) (some (L.log n)) }
  | grant (c : N) (lc : List α) (hc : L.campaign c (L.term n) = some lc)
      (hv : L.vote n (L.term n) = none ∨ L.vote n (L.term n) = some c)
      (hlog : UpToDate τ lc (L.log n)) :
      Step τ 𝒬 n L { L with vote := record L.vote n (L.term n) (some c) }
  | elect (lc : List α) (Q : Finset N) (hc : L.campaign n (L.term n) = some lc)
      (hw : L.winner (L.term n) = none) (hQ : 𝒬.IsQuorum Q)
      (hvotes : ∀ m ∈ Q, L.vote m (L.term n) = some n) :
      Step τ 𝒬 n L
        { L with
          winner := Function.update L.winner (L.term n) (some n)
          leaderLog := Function.update L.leaderLog (L.term n) lc }
  | extend (e : α) (hw : L.winner (L.term n) = some n) (he : τ e = L.term n)
      (hl : L.log n = L.leaderLog (L.term n)) :
      Step τ 𝒬 n L
        { L with
          log := Function.update L.log n (L.log n ++ [e])
          leaderLog := Function.update L.leaderLog (L.term n) (L.log n ++ [e]) }
  | accept (p : List α) (hw : L.winner (L.term n) ≠ none)
      (hp : p <+: L.leaderLog (L.term n)) :
      Step τ 𝒬 n L { L with log := Function.update L.log n (merge (L.log n) p) }
  | ack (k : ℕ) (hw : L.winner (L.term n) ≠ none)
      (hk : k ≤ (L.leaderLog (L.term n)).length)
      (hl : (L.leaderLog (L.term n)).take k <+: L.log n) :
      Step τ 𝒬 n L { L with acks := L.acks ∪ {a | ∃ j ≤ k, a = (n, L.term n, j)} }

/-! ## The invariant -/

/-- Each entry was created by the leader of its term, and what precedes it is what preceded it
there. -/
def Valid (τ : α → ℕ) (L : Ledger N α) (l : List α) : Prop :=
  ∀ i e, l[i]? = some e → L.winner (τ e) ≠ none ∧ l.take (i + 1) <+: L.leaderLog (τ e)

/-- The leader of the term `t` was elected without the prefix `p`. -/
def Lacks (L : Ledger N α) (t : ℕ) (p : List α) : Prop :=
  ∃ w lc, L.winner t = some w ∧ L.campaign w t = some lc ∧ ¬ p <+: lc

def Ends (τ : α → ℕ) (p : List α) (t : ℕ) : Prop := ∃ e, p.getLast? = some e ∧ τ e = t

abbrev acked (L : Ledger N α) (t k : ℕ) : List α := (L.leaderLog t).take k

/-- The acknowledged prefix is in `l`, unless some leader after `t` and up to the term `bound` was
elected without it. -/
def HeldUntil (L : Ledger N α) (t k bound : ℕ) (l : List α) : Prop :=
  L.acked t k <+: l ∨ ∃ t'', t < t'' ∧ t'' ≤ bound ∧ L.Lacks t'' (L.acked t k)

/-- **The invariant.** What a party acknowledged, it keeps, and votes only for candidates that
have it, until some leader was elected without it. -/
structure Inv (τ : α → ℕ) (𝒬 : Quorums N) (L : Ledger N α) : Prop where
  log_le : ∀ n, ∀ e ∈ L.log n, τ e ≤ L.term n
  log_valid : ∀ n, L.Valid τ (L.log n)
  vote_le : ∀ {n t c}, L.vote n t = some c → t ≤ L.term n
  vote_campaign : ∀ {n t c}, L.vote n t = some c → ∃ lc, L.campaign c t = some lc
  campaign_le : ∀ {c t lc}, L.campaign c t = some lc → t ≤ L.term c
  campaign_lt : ∀ {c t lc}, L.campaign c t = some lc → ∀ e ∈ lc, τ e < t
  campaign_valid : ∀ {c t lc}, L.campaign c t = some lc → L.Valid τ lc
  leaderLog_eq : ∀ {t w}, L.winner t = some w →
    ∃ lc es, L.campaign w t = some lc ∧ L.leaderLog t = lc ++ es ∧ ∀ e ∈ es, τ e = t
  ack_le : ∀ {n t k}, (n, t, k) ∈ L.acks →
    t ≤ L.term n ∧ L.winner t ≠ none ∧ k ≤ (L.leaderLog t).length
  ack_kept : ∀ {n t k}, (n, t, k) ∈ L.acks → L.HeldUntil t k (L.term n) (L.log n)
  voted : ∀ {n t k t' c lc}, (n, t, k) ∈ L.acks → L.vote n t' = some c → t < t' →
    L.campaign c t' = some lc → Ends τ (L.acked t k) t → L.HeldUntil t k t' lc
  elected : ∀ {t' w}, L.winner t' = some w → ∃ Q, 𝒬.IsQuorum Q ∧
    ∀ n ∈ Q, L.vote n t' = some w ∧ ∀ t k lc, (n, t, k) ∈ L.acks → t < t' →
      L.campaign w t' = some lc → Ends τ (L.acked t k) t → L.HeldUntil t k (t' - 1) lc

/-- Nobody has seen a term, and nothing has happened. -/
def empty : Ledger N α where
  term _ := 0
  log _ := []
  vote _ _ := none
  campaign _ _ := none
  winner _ := none
  leaderLog _ := []
  acks := ∅

theorem Inv.empty : (Ledger.empty : Ledger N α).Inv τ 𝒬 where
  log_le _ e he := by cases he
  log_valid _ i e he := by simp [Ledger.empty] at he
  vote_le hv := by cases hv
  vote_campaign hv := by cases hv
  campaign_le hc := by cases hc
  campaign_lt hc := by cases hc
  campaign_valid hc := by cases hc
  leaderLog_eq hw := by cases hw
  ack_le ha := ha.elim
  ack_kept ha := ha.elim
  voted ha := ha.elim
  elected hw := by cases hw

/-! ### Monotonicity -/

structure Le (L L' : Ledger N α) : Prop where
  term : ∀ n, L.term n ≤ L'.term n
  vote : ∀ {n t c}, L.vote n t = some c → L'.vote n t = some c
  campaign : ∀ {c t lc}, L.campaign c t = some lc → L'.campaign c t = some lc
  winner : ∀ {t w}, L.winner t = some w → L'.winner t = some w
  leaderLog : ∀ {t}, L.winner t ≠ none → L.leaderLog t <+: L'.leaderLog t
  acks : L.acks ⊆ L'.acks

namespace Le

theorem refl (L : Ledger N α) : L.Le L :=
  ⟨fun _ => le_rfl, id, id, id, fun _ => List.prefix_rfl, subset_rfl⟩

theorem winner_ne (h : L.Le L') {t : ℕ} (hw : L.winner t ≠ none) : L'.winner t ≠ none := by
  obtain ⟨w, hw⟩ := Option.ne_none_iff_exists'.mp hw
  rw [h.winner hw]
  exact Option.some_ne_none w

theorem trans {L'' : Ledger N α} (h : L.Le L') (h' : L'.Le L'') : L.Le L'' where
  term n := (h.term n).trans (h'.term n)
  vote := h'.vote ∘ h.vote
  campaign := h'.campaign ∘ h.campaign
  winner := h'.winner ∘ h.winner
  leaderLog hw := (h.leaderLog hw).trans (h'.leaderLog (h.winner_ne hw))
  acks := h.acks.trans h'.acks

theorem valid (h : L.Le L') {l : List α} (hl : L.Valid τ l) : L'.Valid τ l := fun i e he =>
  ⟨h.winner_ne (hl i e he).1, (hl i e he).2.trans (h.leaderLog (hl i e he).1)⟩

theorem lacks (h : L.Le L') {t : ℕ} {p : List α} (hl : L.Lacks t p) : L'.Lacks t p := by
  obtain ⟨w, lc, hw, hc, hp⟩ := hl
  exact ⟨w, lc, h.winner hw, h.campaign hc, hp⟩

theorem acked_eq (h : L.Le L') {t k : ℕ} (hw : L.winner t ≠ none)
    (hk : k ≤ (L.leaderLog t).length) : L'.acked t k = L.acked t k := by
  obtain ⟨es, hes⟩ := h.leaderLog hw
  rw [acked, ← hes, List.take_append_of_le_length hk]

theorem heldUntil (h : L.Le L') {t k b b' : ℕ} {l : List α} (hw : L.winner t ≠ none)
    (hk : k ≤ (L.leaderLog t).length) (hb : b ≤ b') (hl : L.HeldUntil t k b l) :
    L'.HeldUntil t k b' l := by
  unfold HeldUntil at hl ⊢
  rw [h.acked_eq hw hk]
  rcases hl with hl | ⟨t'', ht, hb'', hl⟩
  · exact .inl hl
  · exact .inr ⟨t'', ht, hb''.trans hb, h.lacks hl⟩

end Le

structure Frame (n : N) (L L' : Ledger N α) : Prop where
  term : ∀ m, m ≠ n → L'.term m = L.term m
  log : ∀ m, m ≠ n → L'.log m = L.log m
  vote : ∀ m t, m ≠ n → L'.vote m t = L.vote m t
  winner : ∀ {t m}, m ≠ n → L'.winner t = some m → L.winner t = some m
  leaderLog : ∀ {t m}, m ≠ n → L.winner t = some m → L'.leaderLog t = L.leaderLog t

theorem Frame.refl (n : N) (L : Ledger N α) : L.Frame n L :=
  ⟨fun _ _ => rfl, fun _ _ => rfl, fun _ _ _ => rfl, fun _ hw => hw, fun _ _ => rfl⟩

theorem Frame.trans {n : N} {L'' : Ledger N α} (h : L.Frame n L') (hle : L.Le L')
    (h' : L'.Frame n L'') : L.Frame n L'' where
  term m hm := (h'.term m hm).trans (h.term m hm)
  log m hm := (h'.log m hm).trans (h.log m hm)
  vote m t hm := (h'.vote m t hm).trans (h.vote m t hm)
  winner hm hw := h.winner hm (h'.winner hm hw)
  leaderLog hm hw := (h'.leaderLog hm (hle.winner hw)).trans (h.leaderLog hm hw)

theorem Step.frame [DecidableEq N] {n : N} (hs : Step τ 𝒬 n L L') : L.Frame n L' := by
  cases hs with
  | observe t ht => exact { Frame.refl n L with term := fun m hm => by simp [hm] }
  | campaign =>
    exact
      { Frame.refl n L with
        term := fun m hm => by simp [hm]
        vote := fun m t hm => by simp [record, hm] }
  | grant c lc hc hv hlog =>
    exact { Frame.refl n L with vote := fun m t hm => by simp [record, hm] }
  | elect lc Q hc hw hQ hvotes =>
    refine { Frame.refl n L with winner := ?_, leaderLog := ?_ }
    · intro t m hm hwt
      by_cases ht : t = L.term n
      · exact absurd (by simpa [ht] using hwt) hm.symm
      · simpa [ht] using hwt
    · intro t m hm hwt
      have ht : t ≠ L.term n := by
        rintro rfl
        simp [hw] at hwt
      simp [ht]
  | extend e hw he hl =>
    refine { Frame.refl n L with log := fun m hm => by simp [hm], leaderLog := ?_ }
    intro t m hm hwt
    have ht : t ≠ L.term n := by
      rintro rfl
      exact hm (Option.some_inj.mp (hwt.symm.trans hw))
    simp [ht]
  | accept p hw hp => exact { Frame.refl n L with log := fun m hm => by simp [hm] }
  | ack k hw hk hl => exact { Frame.refl n L with }

/-! ### Logs of the invariant -/

theorem getElem?_of_isPrefix {l p : List α} {i : ℕ} {e : α} (hp : p <+: l) (he : p[i]? = some e) :
    l[i]? = some e := by
  obtain ⟨r, rfl⟩ := hp
  rwa [List.getElem?_append_left (List.getElem?_eq_some_iff.mp he).1]

theorem Valid.of_isPrefix {l p : List α} (h : L.Valid τ l) (hp : p <+: l) : L.Valid τ p := by
  intro i e he
  obtain ⟨r, rfl⟩ := hp
  have hi : i < p.length := (List.getElem?_eq_some_iff.mp he).1
  have := h i e (by rw [List.getElem?_append_left hi, he])
  rwa [List.take_append_of_le_length (by omega)] at this

theorem Valid.last {l : List α} {e : α} (h : L.Valid τ l) (he : l.getLast? = some e) :
    L.winner (τ e) ≠ none ∧ l <+: L.leaderLog (τ e) := by
  rw [List.getLast?_eq_getElem?] at he
  have hlen : l.length - 1 < l.length := (List.getElem?_eq_some_iff.mp he).1
  have := h _ e he
  rwa [show l.length - 1 + 1 = l.length by omega, List.take_length] at this

/-- **Log matching**: valid logs with entries of one term at one position agree up to it. -/
theorem Valid.take_eq {l l' : List α} {i : ℕ} {x y : α} (h : L.Valid τ l) (h' : L.Valid τ l')
    (hx : l[i]? = some x) (hy : l'[i]? = some y) (hterm : τ x = τ y) :
    l.take (i + 1) = l'.take (i + 1) := by
  have hi := (List.getElem?_eq_some_iff.mp hx).1
  have hi' := (List.getElem?_eq_some_iff.mp hy).1
  have hp := (h i x hx).2
  have hp' := (h' i y hy).2
  rw [← hterm] at hp'
  have hlen : (l.take (i + 1)).length = (l'.take (i + 1)).length := by
    rw [List.length_take_of_le hi, List.length_take_of_le hi']
  exact (List.prefix_of_prefix_length_le hp hp' hlen.le).eq_of_length hlen

namespace Inv

variable {n c w : N} {t t' k : ℕ} {l lc p : List α} {e : α}

theorem leaderLog_le (h : L.Inv τ 𝒬) (hw : L.winner t ≠ none) (he : e ∈ L.leaderLog t) :
    τ e ≤ t := by
  obtain ⟨w, hw⟩ := Option.ne_none_iff_exists'.mp hw
  obtain ⟨lc, es, hc, hl, hes⟩ := h.leaderLog_eq hw
  rw [hl] at he
  rcases List.mem_append.mp he with he | he
  · exact (h.campaign_lt hc e he).le
  · exact (hes e he).le

theorem leaderLog_valid (h : L.Inv τ 𝒬) (hw : L.winner t ≠ none) :
    L.Valid τ (L.leaderLog t) := by
  obtain ⟨w, hw'⟩ := Option.ne_none_iff_exists'.mp hw
  obtain ⟨lc, es, hc, hl, hes⟩ := h.leaderLog_eq hw'
  intro i e he
  rw [hl] at he
  rcases Nat.lt_or_ge i lc.length with hi | hi
  · rw [List.getElem?_append_left hi] at he
    rw [hl, List.take_append_of_le_length (by omega)]
    exact h.campaign_valid hc i e he
  · rw [List.getElem?_append_right hi] at he
    rw [hes e (List.mem_of_getElem? he)]
    exact ⟨hw, List.take_prefix _ _⟩

theorem term_le_last (h : L.Inv τ 𝒬) (hl : L.Valid τ l) {x y : α} (hx : x ∈ l)
    (hy : l.getLast? = some y) : τ x ≤ τ y :=
  h.leaderLog_le (hl.last hy).1 ((hl.last hy).2.subset hx)

/-- The leader's starting log is part of every log that ends in its term. -/
theorem campaign_isPrefix (h : L.Inv τ 𝒬) (hl : L.Valid τ l) (he : l.getLast? = some e)
    (hw : L.winner (τ e) = some w) (hc : L.campaign w (τ e) = some lc) : lc <+: l := by
  obtain ⟨lc', es, hc', hlog, -⟩ := h.leaderLog_eq hw
  obtain rfl : lc' = lc := Option.some_inj.mp (hc'.symm.trans hc)
  have hlc : lc' <+: L.leaderLog (τ e) := ⟨es, hlog.symm⟩
  rcases List.prefix_or_prefix_of_prefix hlc (hl.last he).2 with hp | hp
  · exact hp
  · have hmem : e ∈ lc' := hp.subset (List.mem_of_getLast? he)
    exact absurd (h.campaign_lt hc e hmem) (lt_irrefl _)

/-- **The vote rule**: a candidate at least as up-to-date as a log that holds `p` holds `p`, or
has entries of a leader elected without `p`. -/
theorem prefix_of_upToDate (h : L.Inv τ 𝒬) (hlc : L.Valid τ lc) (hl : L.Valid τ l)
    (hup : UpToDate τ lc l) (hp : p <+: l) (hends : Ends τ p t) :
    p <+: lc ∨ ∃ y ∈ lc, t < τ y ∧ L.Lacks (τ y) p := by
  obtain ⟨e, he, rfl⟩ := hends
  have hel : e ∈ l := hp.subset (List.mem_of_getLast? he)
  obtain ⟨x, hx⟩ := Option.ne_none_iff_exists'.mp
    (mt List.getLast?_eq_none_iff.mp (List.ne_nil_of_mem hel))
  have hex : τ e ≤ τ x := h.term_le_last hl hel hx
  have hlx : lastTerm τ l = τ x := by simp [lastTerm, hx]
  have hne : lc ≠ [] := by
    rintro rfl
    rcases hup with hup | hup
    · simp [lastTerm] at hup
    · exact absurd hup.2 (by simpa using List.ne_nil_of_mem hel)
  obtain ⟨y, hy⟩ := Option.ne_none_iff_exists'.mp (mt List.getLast?_eq_none_iff.mp hne)
  have hly : lastTerm τ lc = τ y := by simp [lastTerm, hy]
  rw [UpToDate, hlx, hly] at hup
  rcases Nat.eq_or_lt_of_le (show τ e ≤ τ y by omega) with hey | hey
  · -- both logs end in the term of `p`: they are prefixes of one leader's log
    have hlog : l <+: L.leaderLog (τ y) := by
      rw [show τ y = τ x by omega]
      exact (hl.last hx).2
    have hlen : l.length ≤ lc.length := by omega
    exact .inl (hp.trans (List.prefix_of_prefix_length_le hlog (hlc.last hy).2 hlen))
  · -- the candidate ends in a later term, so it holds all that its leader started with
    obtain ⟨w, hw⟩ := Option.ne_none_iff_exists'.mp (hlc.last hy).1
    obtain ⟨lw, -, hcw, -, -⟩ := h.leaderLog_eq hw
    by_cases hlack : p <+: lw
    · exact .inl (hlack.trans (h.campaign_isPrefix hlc hy hw hcw))
    · exact .inr ⟨y, List.mem_of_getLast? hy, hey, w, lw, hw, hcw, hlack⟩

end Inv

/-! ### The moves keep the invariant -/

namespace Inv

variable {n c w : N} {t t' k : ℕ} {l lc p : List α}

theorem vote_fresh (h : L.Inv τ 𝒬) (ht : L.term n < t) : L.vote n t = none := by
  by_contra hv
  obtain ⟨c, hc⟩ := Option.ne_none_iff_exists'.mp hv
  exact absurd (h.vote_le hc) (by omega)

theorem campaign_fresh (h : L.Inv τ 𝒬) (ht : L.term n < t) : L.campaign n t = none := by
  by_contra hv
  obtain ⟨lc, hc⟩ := Option.ne_none_iff_exists'.mp hv
  exact absurd (h.campaign_le hc) (by omega)

/-- A log that still holds what an acknowledgement promised goes on holding it. -/
theorem kept_mono (h : L.Inv τ 𝒬) (hle : L.Le L') (ha : (n, t, k) ∈ L.acks)
    (hl : L.HeldUntil t k (L.term n) l) : L'.HeldUntil t k (L'.term n) l :=
  hle.heldUntil (h.ack_le ha).2.1 (h.ack_le ha).2.2 (hle.term n) hl

/-- What is known about an earlier vote survives: an acknowledgement made after it is of no
earlier term. -/
theorem voted_mono (h : L.Inv τ 𝒬) (hle : L.Le L')
    (hacks : ∀ {n t k}, (n, t, k) ∈ L'.acks → (n, t, k) ∈ L.acks ∨ t = L.term n)
    (ha : (n, t, k) ∈ L'.acks) (hv : L.vote n t' = some c) (ht : t < t')
    (hc : L'.campaign c t' = some lc) (he : Ends τ (L'.acked t k) t) :
    L'.HeldUntil t k t' lc := by
  have hvle := h.vote_le hv
  rcases hacks ha with ha | rfl
  · have hack := h.ack_le ha
    obtain ⟨lc', hc'⟩ := h.vote_campaign hv
    obtain rfl : lc' = lc := Option.some_inj.mp ((hle.campaign hc').symm.trans hc)
    rw [hle.acked_eq hack.2.1 hack.2.2] at he
    exact hle.heldUntil hack.2.1 hack.2.2 le_rfl (h.voted ha hv ht hc' he)
  · omega

theorem elected_mono (h : L.Inv τ 𝒬) (hle : L.Le L')
    (hacks : ∀ {n t k}, (n, t, k) ∈ L'.acks → (n, t, k) ∈ L.acks ∨ t = L.term n)
    (hw : L.winner t' = some w) : ∃ Q, 𝒬.IsQuorum Q ∧
      ∀ n ∈ Q, L'.vote n t' = some w ∧ ∀ t k lc, (n, t, k) ∈ L'.acks → t < t' →
        L'.campaign w t' = some lc → Ends τ (L'.acked t k) t → L'.HeldUntil t k (t' - 1) lc := by
  obtain ⟨Q, hQ, hQ'⟩ := h.elected hw
  refine ⟨Q, hQ, fun n hn => ⟨hle.vote (hQ' n hn).1, fun t k lc ha ht hc he => ?_⟩⟩
  have hvle := h.vote_le (hQ' n hn).1
  rcases hacks ha with ha | rfl
  · have hack := h.ack_le ha
    obtain ⟨lc', -, hc', -, -⟩ := h.leaderLog_eq hw
    obtain rfl : lc' = lc := Option.some_inj.mp ((hle.campaign hc').symm.trans hc)
    rw [hle.acked_eq hack.2.1 hack.2.2] at he
    exact hle.heldUntil hack.2.1 hack.2.2 le_rfl ((hQ' n hn).2 t k lc' ha ht hc' he)
  · omega

theorem heldUntil_merge (h : L.Inv τ 𝒬) (hw : L.winner (L.term n) ≠ none)
    (hp : p <+: L.leaderLog (L.term n)) (ha : (n, t, k) ∈ L.acks) :
    L.HeldUntil t k (L.term n) (merge (L.log n) p) := by
  unfold merge
  split_ifs with hpl
  · exact h.ack_kept ha
  rcases h.ack_kept ha with hkept | hlack
  · by_cases hq : L.acked t k <+: L.leaderLog (L.term n)
    · rcases List.prefix_or_prefix_of_prefix hq hp with hqp | hpq
      · exact .inl hqp
      · exact absurd (hpq.trans hkept) hpl
    · obtain ⟨w, hw⟩ := Option.ne_none_iff_exists'.mp hw
      obtain ⟨lc, es, hc, hlog, -⟩ := h.leaderLog_eq hw
      have hne : t ≠ L.term n := by
        rintro rfl
        exact hq (List.take_prefix _ _)
      have hlc : ¬ L.acked t k <+: lc := fun hlc => hq (hlc.trans ⟨es, hlog.symm⟩)
      exact .inr ⟨L.term n, lt_of_le_of_ne (h.ack_le ha).1 hne, le_rfl, w, lc, hw, hc, hlc⟩
  · exact .inr hlack

end Inv

section Moves

variable [DecidableEq N] {n c : N} {t k : ℕ} {l lc p : List α} {e : α}

theorem Step.le (h : L.Inv τ 𝒬) (hs : Step τ 𝒬 n L L') : L.Le L' := by
  cases hs with
  | observe t ht =>
    refine { Le.refl L with term := fun m => ?_ }
    by_cases hm : m = n <;> simp [hm, ht]
  | campaign =>
    refine { Le.refl L with term := fun m => ?_, vote := ?_, campaign := ?_ }
    · by_cases hm : m = n <;> simp [hm]
    · intro m r c hv
      refine (if_neg ?_).trans hv
      rintro ⟨rfl, rfl⟩
      rw [h.vote_fresh (Nat.lt_succ_self _)] at hv
      cases hv
    · intro m r lc hv
      refine (if_neg ?_).trans hv
      rintro ⟨rfl, rfl⟩
      rw [h.campaign_fresh (Nat.lt_succ_self _)] at hv
      cases hv
  | grant c lc hc hv hlog =>
    refine { Le.refl L with vote := ?_ }
    intro m r d hd
    dsimp only [record]
    split_ifs with heq
    · obtain ⟨rfl, rfl⟩ := heq
      rcases hv with hv | hv
      · simp [hv] at hd
      · rw [← hd, hv]
    · exact hd
  | elect lc Q hc hw hQ hvotes =>
    refine { Le.refl L with winner := ?_, leaderLog := ?_ }
    · intro t w hwt
      by_cases ht : t = L.term n
      · simp [ht, hw] at hwt
      · simpa [ht] using hwt
    · intro t hwt
      have ht : t ≠ L.term n := fun ht => hwt (ht ▸ hw)
      simp [ht]
  | extend e hw he hl =>
    refine { Le.refl L with leaderLog := ?_ }
    intro t _
    by_cases ht : t = L.term n
    · simp [ht, hl]
    · simp [ht]
  | accept p hw hp => exact { Le.refl L with }
  | ack k hw hk hl => exact { Le.refl L with acks := Set.subset_union_left }

namespace Inv

theorem observe (h : L.Inv τ 𝒬) (ht : L.term n ≤ t) :
    Inv τ 𝒬 { L with term := Function.update L.term n t } := by
  have hle := Step.le h (.observe t ht)
  have hterm := hle.term
  exact
    { h with
      log_le := fun m e he => (h.log_le m e he).trans (hterm m)
      vote_le := fun hv => (h.vote_le hv).trans (hterm _)
      campaign_le := fun hc => (h.campaign_le hc).trans (hterm _)
      ack_le := fun ha => ⟨(h.ack_le ha).1.trans (hterm _), (h.ack_le ha).2⟩
      ack_kept := fun ha => h.kept_mono hle ha (h.ack_kept ha) }

theorem campaign (h : L.Inv τ 𝒬) (n : N) :
    Inv τ 𝒬
      { L with
        term := Function.update L.term n (L.term n + 1)
        vote := record L.vote n (L.term n + 1) (some n)
        campaign := record L.campaign n (L.term n + 1) (some (L.log n)) } := by
  have hle := Step.le h (n := n) .campaign
  have hterm := hle.term
  refine
    { log_le := fun m e he => (h.log_le m e he).trans (hterm m)
      log_valid := fun m => hle.valid (h.log_valid m)
      vote_le := fun {m r c} hv => ?_
      vote_campaign := fun {m r c} hv => ?_
      campaign_le := fun {c r lc} hc => ?_
      campaign_lt := fun {c r lc} hc e he => ?_
      campaign_valid := fun {c r lc} hc => ?_
      leaderLog_eq := fun {r w} hw => ?_
      ack_le := fun ha => ⟨(h.ack_le ha).1.trans (hterm _), (h.ack_le ha).2⟩
      ack_kept := fun ha => h.kept_mono hle ha (h.ack_kept ha)
      voted := fun {m r k t' c lc} ha hv ht hc he => ?_
      elected := fun hw => h.elected_mono hle .inl hw }
  · dsimp only [record] at hv
    split_ifs at hv with heq
    · obtain ⟨rfl, rfl⟩ := heq
      simp
    · exact (h.vote_le hv).trans (hterm m)
  · dsimp only [record] at hv
    split_ifs at hv with heq
    · obtain ⟨rfl, rfl⟩ := heq
      obtain rfl : m = c := Option.some_inj.mp hv
      exact ⟨L.log m, if_pos ⟨rfl, rfl⟩⟩
    · obtain ⟨lc, hc⟩ := h.vote_campaign hv
      exact ⟨lc, hle.campaign hc⟩
  · dsimp only [record] at hc
    split_ifs at hc with heq
    · obtain ⟨rfl, rfl⟩ := heq
      simp
    · exact (h.campaign_le hc).trans (hterm c)
  · dsimp only [record] at hc
    split_ifs at hc with heq
    · obtain ⟨rfl, rfl⟩ := heq
      obtain rfl : L.log c = lc := Option.some_inj.mp hc
      exact Nat.lt_succ_of_le (h.log_le c e he)
    · exact h.campaign_lt hc e he
  · dsimp only [record] at hc
    split_ifs at hc with heq
    · obtain rfl : L.log n = lc := Option.some_inj.mp hc
      exact hle.valid (h.log_valid n)
    · exact hle.valid (h.campaign_valid hc)
  · obtain ⟨lc, es, hc, hl, hes⟩ := h.leaderLog_eq hw
    exact ⟨lc, es, hle.campaign hc, hl, hes⟩
  · by_cases heq : m = n ∧ t' = L.term n + 1
    · -- the candidate's own vote: it runs with the log that keeps what it acknowledged
      obtain ⟨rfl, rfl⟩ := heq
      obtain rfl : m = c := Option.some_inj.mp ((if_pos ⟨rfl, rfl⟩).symm.trans hv)
      obtain rfl : L.log m = lc := Option.some_inj.mp ((if_pos ⟨rfl, rfl⟩).symm.trans hc)
      exact hle.heldUntil (h.ack_le ha).2.1 (h.ack_le ha).2.2 (Nat.le_succ _) (h.ack_kept ha)
    · exact h.voted_mono hle .inl ha ((if_neg heq).symm.trans hv) ht hc he

theorem grant (h : L.Inv τ 𝒬) (hc : L.campaign c (L.term n) = some lc)
    (hv : L.vote n (L.term n) = none ∨ L.vote n (L.term n) = some c)
    (hlog : UpToDate τ lc (L.log n)) :
    Inv τ 𝒬 { L with vote := record L.vote n (L.term n) (some c) } := by
  have hle := Step.le h (.grant c lc hc hv hlog)
  refine
    { h with
      vote_le := fun {m r d} hd => ?_
      vote_campaign := fun {m r d} hd => ?_
      voted := fun {m r k t' d ld} ha hd ht hld he => ?_
      elected := fun hw => h.elected_mono hle .inl hw }
  · dsimp only [record] at hd
    split_ifs at hd with heq
    · obtain ⟨rfl, rfl⟩ := heq
      exact le_rfl
    · exact h.vote_le hd
  · dsimp only [record] at hd
    split_ifs at hd with heq
    · obtain ⟨rfl, rfl⟩ := heq
      obtain rfl : c = d := Option.some_inj.mp hd
      exact ⟨lc, hc⟩
    · exact h.vote_campaign hd
  · by_cases heq : m = n ∧ t' = L.term n
    · obtain ⟨rfl, rfl⟩ := heq
      obtain rfl : c = d := Option.some_inj.mp ((if_pos ⟨rfl, rfl⟩).symm.trans hd)
      obtain rfl : lc = ld := Option.some_inj.mp (hc.symm.trans hld)
      rcases h.ack_kept ha with hkept | ⟨t'', htt, hle', hlack⟩
      · rcases h.prefix_of_upToDate (h.campaign_valid hc) (h.log_valid m) hlog hkept he with
          hp | ⟨y, hy, hty, hlack⟩
        · exact .inl hp
        · exact .inr ⟨τ y, hty, (h.campaign_lt hc y hy).le, hle.lacks hlack⟩
      · exact .inr ⟨t'', htt, hle', hle.lacks hlack⟩
    · exact h.voted_mono hle .inl ha ((if_neg heq).symm.trans hd) ht hld he

theorem elect (h : L.Inv τ 𝒬) {Q : Finset N} (hc : L.campaign c (L.term c) = some lc)
    (hw : L.winner (L.term c) = none) (hQ : 𝒬.IsQuorum Q)
    (hvotes : ∀ n ∈ Q, L.vote n (L.term c) = some c) :
    Inv τ 𝒬
      { L with
        winner := Function.update L.winner (L.term c) (some c)
        leaderLog := Function.update L.leaderLog (L.term c) lc } := by
  have hle := Step.le h (.elect lc Q hc hw hQ hvotes)
  refine
    { h with
      log_valid := fun m => hle.valid (h.log_valid m)
      campaign_valid := fun hc => hle.valid (h.campaign_valid hc)
      leaderLog_eq := fun {r w} hr => ?_
      ack_le := fun {m r k} ha => ?_
      ack_kept := fun ha => h.kept_mono hle ha (h.ack_kept ha)
      voted := fun ha hv ht hc he => h.voted_mono hle .inl ha hv ht hc he
      elected := fun {r w} hr => ?_ }
  · by_cases heq : r = L.term c
    · subst heq
      obtain rfl : c = w := by simpa using hr
      exact ⟨lc, [], hc, by simp, by simp⟩
    · have hr' : L.winner r = some w := by simpa [heq] using hr
      simpa [heq] using h.leaderLog_eq hr'
  · have hack := h.ack_le ha
    have heq : r ≠ L.term c := fun heq => hack.2.1 (heq ▸ hw)
    simpa [heq] using hack
  · by_cases heq : r = L.term c
    · subst heq
      obtain rfl : c = w := by simpa using hr
      refine ⟨Q, hQ, fun m hm => ⟨hvotes m hm, fun t k ld ha ht hld he => ?_⟩⟩
      have hack := h.ack_le ha
      rw [hle.acked_eq hack.2.1 hack.2.2] at he
      refine hle.heldUntil hack.2.1 hack.2.2 le_rfl ?_
      rcases h.voted ha (hvotes m hm) ht hld he with hp | ⟨t'', htt, hle', hlack⟩
      · exact .inl hp
      · -- the term had no winner, so the leader that lacks the prefix is an earlier one
        have hne : t'' ≠ L.term c := by
          rintro rfl
          obtain ⟨w, -, hw', -⟩ := hlack
          simp [hw] at hw'
        exact .inr ⟨t'', htt, by omega, hlack⟩
    · have hr' : L.winner r = some w := by simpa [heq] using hr
      exact h.elected_mono hle .inl hr'

theorem extend (h : L.Inv τ 𝒬) (hw : L.winner (L.term c) = some c) (he : τ e = L.term c)
    (hl : L.log c = L.leaderLog (L.term c)) :
    Inv τ 𝒬
      { L with
        log := Function.update L.log c (L.log c ++ [e])
        leaderLog := Function.update L.leaderLog (L.term c) (L.log c ++ [e]) } := by
  have hle := Step.le h (.extend e hw he hl)
  refine
    { h with
      log_le := fun m x hx => ?_
      log_valid := fun m => ?_
      campaign_valid := fun hc => hle.valid (h.campaign_valid hc)
      leaderLog_eq := fun {r w} hr => ?_
      ack_le := fun {m r k} ha => ?_
      ack_kept := fun {m r k} ha => ?_
      voted := fun ha hv ht hc he => h.voted_mono hle .inl ha hv ht hc he
      elected := fun hw => h.elected_mono hle .inl hw }
  · by_cases hm : m = c
    · subst hm
      rcases (by simpa using hx : x ∈ L.log m ∨ x = e) with hx | rfl
      · exact h.log_le m x hx
      · exact he.le
    · exact h.log_le m x (by simpa [hm] using hx)
  · by_cases hm : m = c
    · subst hm
      intro i x hx
      simp only [Function.update_self] at hx ⊢
      rcases Nat.lt_or_ge i (L.log m).length with hi | hi
      · rw [List.getElem?_append_left hi] at hx
        rw [List.take_append_of_le_length (by omega)]
        exact hle.valid (h.log_valid m) i x hx
      · obtain rfl : x = e := by
          rw [List.getElem?_append_right hi] at hx
          simpa using List.mem_of_getElem? hx
        rw [he, Function.update_self]
        exact ⟨by simp [hw], List.take_prefix _ _⟩
    · simpa [hm] using hle.valid (h.log_valid m)
  · obtain ⟨lc, es, hc, hlog, hes⟩ := h.leaderLog_eq hr
    by_cases hrc : r = L.term c
    · subst hrc
      refine ⟨lc, es ++ [e], hc, by simp [hl, hlog], fun x hx => ?_⟩
      rcases List.mem_append.mp hx with hx | hx
      · exact hes x hx
      · obtain rfl := List.mem_singleton.mp hx
        exact he
    · exact ⟨lc, es, hc, by simpa [hrc] using hlog, hes⟩
  · have hack := h.ack_le ha
    exact ⟨hack.1, hack.2.1, hack.2.2.trans (hle.leaderLog hack.2.1).length_le⟩
  · refine h.kept_mono hle ha ?_
    by_cases hm : m = c
    · subst hm
      simp only [Function.update_self]
      exact (h.ack_kept ha).imp_left fun hp => hp.trans (List.prefix_append _ _)
    · simpa [hm] using h.ack_kept ha

theorem accept (h : L.Inv τ 𝒬) (hw : L.winner (L.term n) ≠ none)
    (hp : p <+: L.leaderLog (L.term n)) :
    Inv τ 𝒬 { L with log := Function.update L.log n (merge (L.log n) p) } := by
  have hle := Step.le h (.accept p hw hp)
  refine
    { h with
      log_le := fun m x hx => ?_
      log_valid := fun m => ?_
      ack_kept := fun {m r k} ha => ?_ }
  · by_cases hm : m = n
    · subst hm
      simp only [Function.update_self, merge] at hx
      split_ifs at hx
      · exact h.log_le m x hx
      · exact h.leaderLog_le hw (hp.subset hx)
    · exact h.log_le m x (by simpa [hm] using hx)
  · by_cases hm : m = n
    · subst hm
      simp only [Function.update_self, merge]
      split_ifs
      · exact hle.valid (h.log_valid m)
      · exact hle.valid ((h.leaderLog_valid hw).of_isPrefix hp)
    · simpa [hm] using hle.valid (h.log_valid m)
  · refine h.kept_mono hle ha ?_
    by_cases hm : m = n
    · subst hm
      simp only [Function.update_self]
      exact h.heldUntil_merge hw hp ha
    · simpa [hm] using h.ack_kept ha

theorem ack (h : L.Inv τ 𝒬) (hw : L.winner (L.term n) ≠ none)
    (hk : k ≤ (L.leaderLog (L.term n)).length)
    (hl : (L.leaderLog (L.term n)).take k <+: L.log n) :
    Inv τ 𝒬 { L with acks := L.acks ∪ {a | ∃ j ≤ k, a = (n, L.term n, j)} } := by
  have hle := Step.le h (.ack k hw hk hl)
  have hacks : ∀ {m r j}, (m, r, j) ∈ L.acks ∪ {a | ∃ j ≤ k, a = (n, L.term n, j)} →
      (m, r, j) ∈ L.acks ∨ r = L.term m := by
    rintro m r j (hm | ⟨j, hj, hm⟩)
    · exact .inl hm
    · cases hm
      exact .inr rfl
  refine
    { h with
      ack_le := fun {m r j} ha => ?_
      ack_kept := fun {m r j} ha => ?_
      voted := fun ha hv ht hc he => h.voted_mono hle hacks ha hv ht hc he
      elected := fun hw => h.elected_mono hle hacks hw }
  · rcases ha with ha | ⟨j, hj, ha⟩
    · exact h.ack_le ha
    · cases ha
      exact ⟨le_rfl, hw, hj.trans hk⟩
  · rcases ha with ha | ⟨j, hj, ha⟩
    · exact h.ack_kept ha
    · cases ha
      exact .inl ((List.take_prefix_take_left hj).trans hl)

end Inv

/-- **Every move keeps the invariant.** -/
theorem Step.inv (h : L.Inv τ 𝒬) (hs : Step τ 𝒬 n L L') : L'.Inv τ 𝒬 := by
  cases hs with
  | observe t ht => exact h.observe ht
  | campaign => exact h.campaign n
  | grant c lc hc hv hlog => exact h.grant hc hv hlog
  | elect lc Q hc hw hQ hvotes => exact h.elect hc hw hQ hvotes
  | extend e hw he hl => exact h.extend hw he hl
  | accept p hw hp => exact h.accept hw hp
  | ack k hw hk hl => exact h.ack hw hk hl

/-- A run of moves of one party keeps the invariant, takes nothing back, and touches nothing of
the others. -/
theorem Inv.steps (h : L.Inv τ 𝒬) (hs : Relation.ReflTransGen (Step τ 𝒬 n) L L') :
    L'.Inv τ 𝒬 ∧ L.Le L' ∧ L.Frame n L' := by
  induction hs with
  | refl => exact ⟨h, Le.refl L, Frame.refl n L⟩
  | tail _ hstep ih =>
    obtain ⟨hinv, hle, hframe⟩ := ih
    exact ⟨hstep.inv hinv, hle.trans (hstep.le hinv), hframe.trans hle hstep.frame⟩

end Moves

/-! ## Safety -/

/-- The first `k` entries of the leader's log of the term `t` are committed: the last of them is
of the term, and a quorum acknowledged them. -/
def Committed (τ : α → ℕ) (𝒬 : Quorums N) (L : Ledger N α) (t k : ℕ) : Prop :=
  Ends τ (L.acked t k) t ∧ ∃ Q, 𝒬.IsQuorum Q ∧ ∀ n ∈ Q, (n, t, k) ∈ L.acks

namespace Inv

variable {n c w : N} {t t' k k' : ℕ} {lc : List α}

/-- **Election safety**: a quorum of votes in a term that has a winner is for the winner. -/
theorem winner_eq (h : L.Inv τ 𝒬) (hw : L.winner t = some w) {Q : Finset N}
    (hQ : 𝒬.IsQuorum Q) (hvotes : ∀ n ∈ Q, L.vote n t = some c) : w = c := by
  obtain ⟨Q', hQ', hvotes'⟩ := h.elected hw
  obtain ⟨n, hn, hn'⟩ := 𝒬.inter hQ hQ'
  exact Option.some_inj.mp ((hvotes' n hn').1.symm.trans (hvotes n hn))

/-- **Leader completeness**: every later leader is elected with all that is committed. -/
theorem committed_prefix_campaign (h : L.Inv τ 𝒬) (hcom : L.Committed τ 𝒬 t k) :
    ∀ {t' w lc}, t < t' → L.winner t' = some w → L.campaign w t' = some lc →
      L.acked t k <+: lc := by
  obtain ⟨hends, Q, hQ, hacks⟩ := hcom
  intro t'
  induction t' using Nat.strong_induction_on with
  | _ t' ih =>
    intro w lc ht hw hc
    obtain ⟨Q', hQ', hvotes⟩ := h.elected hw
    obtain ⟨n, hn, hn'⟩ := 𝒬.inter hQ hQ'
    rcases (hvotes n hn').2 t k lc (hacks n hn) ht hc hends with hp | ⟨t'', htt, hle, hlack⟩
    · exact hp
    · obtain ⟨w', lc', hw', hc', hlc'⟩ := hlack
      exact absurd (ih t'' (by omega) htt hw' hc') hlc'

theorem committed_winner_ne (h : L.Inv τ 𝒬) (hcom : L.Committed τ 𝒬 t k) :
    L.winner t ≠ none := by
  obtain ⟨-, Q, hQ, hacks⟩ := hcom
  obtain ⟨n, hn, -⟩ := 𝒬.inter hQ hQ
  exact (h.ack_le (hacks n hn)).2.1

theorem committed_prefix_leaderLog (h : L.Inv τ 𝒬) (hcom : L.Committed τ 𝒬 t k)
    (ht : t ≤ t') (hw : L.winner t' ≠ none) : L.acked t k <+: L.leaderLog t' := by
  rcases Nat.eq_or_lt_of_le ht with rfl | ht
  · exact List.take_prefix _ _
  · obtain ⟨w, hw⟩ := Option.ne_none_iff_exists'.mp hw
    obtain ⟨lc, es, hc, hlog, -⟩ := h.leaderLog_eq hw
    exact (h.committed_prefix_campaign hcom ht hw hc).trans ⟨es, hlog.symm⟩

/-- **State-machine safety**: two committed prefixes agree wherever both are defined. -/
theorem committed_agree (h : L.Inv τ 𝒬) (hcom : L.Committed τ 𝒬 t k)
    (hcom' : L.Committed τ 𝒬 t' k') {i : ℕ} {x y : α} (hx : (L.acked t k)[i]? = some x)
    (hy : (L.acked t' k')[i]? = some y) : x = y := by
  wlog ht : t ≤ t' generalizing t t' k k' x y
  · exact (this hcom' hcom hy hx (by omega)).symm
  have hp := h.committed_prefix_leaderLog hcom ht (h.committed_winner_ne hcom')
  have hp' : L.acked t' k' <+: L.leaderLog t' := List.take_prefix _ _
  have hx' := getElem?_of_isPrefix hp hx
  have hy' := getElem?_of_isPrefix hp' hy
  exact Option.some_inj.mp (hx'.symm.trans hy')

end Inv

theorem Le.committed (h : L.Inv τ 𝒬) (hle : L.Le L') {t k : ℕ} (hcom : L.Committed τ 𝒬 t k) :
    L'.Committed τ 𝒬 t k := by
  obtain ⟨hends, Q, hQ, hacks⟩ := hcom
  obtain ⟨n, hn, -⟩ := 𝒬.inter hQ hQ
  have hack := h.ack_le (hacks n hn)
  refine ⟨?_, Q, hQ, fun m hm => hle.acks (hacks m hm)⟩
  rwa [hle.acked_eq hack.2.1 hack.2.2]

end Ledger
