import Pirc.Crypto.KeySchedule
import Pirc.Lib.Slots

/-!
# Crypto: skipped message keys

What a session does with the keys of messages that have not arrived: a chain is advanced past them,
and their keys are cached under the public key of their turn and their number. Numbers have 32 bits,
so a turn is taken to have fewer messages than that wherever its messages are told apart by number.
-/

namespace Pirc.Crypto

namespace KeySchedule

variable (S : KeySchedule)

/-! ## Ranges of messages -/

/-- The messages of turn `e` from number `k` up to `n`. -/
def span (e k n : ℕ) : Finset (ℕ × ℕ) := {e} ×ˢ Finset.Ico k n

@[simp] theorem mem_span {e k n : ℕ} {p : ℕ × ℕ} : p ∈ span e k n ↔ p.1 = e ∧ k ≤ p.2 ∧ p.2 < n := by
  rw [span, Finset.mem_product, Finset.mem_singleton, Finset.mem_Ico]

@[simp] theorem span_self (e k : ℕ) : span e k k = ∅ := by
  simp [span]

theorem card_span (e k n : ℕ) : (span e k n).card = n - k := by
  simp [span]

theorem span_cons {e k n : ℕ} (h : k < n) : span e k n = insert (e, k) (span e (k + 1) n) := by
  ext ⟨a, i⟩
  simp only [mem_span, Finset.mem_insert, Prod.mk.injEq]
  omega

/-- The numbered keys of some messages of a turn. -/
def keys (e k n : ℕ) : List (UInt32 × Key) :=
  (List.range' k (n - k)).map fun i => (UInt32.ofNat i, S.messageKey e i)

@[simp] theorem keys_self (e k : ℕ) : S.keys e k k = [] := by
  simp [keys]

theorem keys_cons {e k n : ℕ} (h : k < n) :
    S.keys e k n = (UInt32.ofNat k, S.messageKey e k) :: S.keys e (k + 1) n := by
  have hlen : n - k = n - (k + 1) + 1 := by omega
  rw [keys, hlen, List.range'_succ]
  rfl

theorem keys_snoc {e k n : ℕ} (h : k ≤ n) :
    S.keys e k (n + 1) = S.keys e k n ++ [(UInt32.ofNat n, S.messageKey e n)] := by
  have hlen : n + 1 - k = n - k + 1 := by omega
  have hlast : k + (n - k) = n := by omega
  rw [keys, hlen, List.range'_concat]
  simp [keys, hlast]

/-! ## Advancing a chain -/

/-- **Advancing** gives the keys of the messages passed. -/
theorem advanceN_chain (e k c : ℕ) :
    S.P.advanceN c (S.chain e k) = (S.keys e k (k + c), S.chain e (k + c)) := by
  induction c generalizing k with
  | zero => simp [Primitives.advanceN]
  | succ c ih =>
    have hnext : k + 1 + c = k + (c + 1) := by omega
    have hkeys : S.keys e k (k + (c + 1)) =
        (UInt32.ofNat k, S.messageKey e k) :: S.keys e (k + 1) (k + (c + 1)) :=
      S.keys_cons (by omega)
    rw [Primitives.advanceN, advance_chain, hkeys, messageNumber_chain]
    simp only [ih, hnext]

variable {S} {ratchet : DhRatchetState} {rng : OsRng} {m n k i : ℕ}

theorem toNat_number {i : ℕ} (h : i < 2 ^ 32) : (UInt32.ofNat i).toNat = i :=
  UInt32.toNat_ofNat_of_lt' h

theorem skipCount_toNat {k t : ℕ} (hkt : k ≤ t) (ht : t + 1 < 2 ^ 32) :
    ¬ UInt32.ofNat t < UInt32.ofNat k ∧ (UInt32.ofNat t - UInt32.ofNat k + 1).toNat = t + 1 - k := by
  have htn : (UInt32.ofNat t).toNat = t := toNat_number (by omega)
  have hkn : (UInt32.ofNat k).toNat = k := toNat_number (by omega)
  constructor
  · rw [UInt32.lt_iff_toNat_lt, htn, hkn]
    omega
  · rw [UInt32.toNat_add, UInt32.toNat_sub, htn, hkn]
    have hone : (1 : UInt32).toNat = 1 := rfl
    rw [hone]
    omega

/-- **Skipping** to a message gives the keys up to its own. -/
theorem skipTo_run {e t : ℕ} (hkt : k ≤ t) (ht : t + 1 < 2 ^ 32) (hskip : t + 1 - k ≤ 1000)
    (rng : OsRng) :
    (S.P.skipTo (UInt32.ofNat t)).run (S.chain e k, rng) =
      .ok (S.keys e k (t + 1)) (S.chain e (t + 1), rng) := by
  obtain ⟨hnot, hcount⟩ := skipCount_toNat hkt ht
  have hwithin : ¬ maxSkip < UInt32.ofNat t - UInt32.ofNat k + 1 := by
    rw [UInt32.lt_iff_toNat_lt, hcount]
    have hmax : maxSkip.toNat = 1000 := rfl
    omega
  have hend : k + (t + 1 - k) = t + 1 := by omega
  simp only [Primitives.skipTo, EStateM.run_bind, EStateM.run_get, messageNumber_chain, hnot,
    if_false, hwithin, hcount, advanceN_chain, hend]
  rfl

/-! ## The receiving chain of the DH ratchet -/

/-- **The key of a message ahead**, and those of the messages before it. -/
theorem DhAt.receiveMessageKey_skip (hat : S.DhAt ratchet (m + 2) n k) (hki : k ≤ i)
    (hskip : k < i → i + 1 < 2 ^ 32 ∧ i + 1 - k ≤ 1000) (rng : OsRng) :
    ∃ ratchet', (S.P.receiveMessageKey (UInt32.ofNat i)).run (ratchet, rng) =
        .ok (S.messageKey (m + 1) i, S.keys (m + 1) k i) (ratchet', rng) ∧
      S.DhAt ratchet' (m + 2) n (i + 1) := by
  rcases hki.eq_or_lt with rfl | hlt
  · obtain ⟨ratchet', hrun, hat'⟩ := hat.receiveMessageKey_run rng
    rw [keys_self]
    exact ⟨ratchet', hrun, hat'⟩
  · obtain ⟨hbound, hcount⟩ := hskip hlt
    have hreceiving : ratchet.receivingChain = some (S.chain (m + 1) k) := hat.receiving
    obtain ⟨hnot, -⟩ := skipCount_toNat hki hbound
    have hne : UInt32.ofNat i ≠ UInt32.ofNat k := by
      intro heq
      have hnat := congrArg UInt32.toNat heq
      rw [toNat_number (by omega), toNat_number (by omega)] at hnat
      omega
    refine ⟨{ ratchet with receivingChain := some (S.chain (m + 1) (i + 1)) }, ?_,
      hat.pair, hat.remote, hat.root, hat.sending, rfl⟩
    simp only [Primitives.receiveMessageKey, EStateM.run_bind, EStateM.run_get, hreceiving,
      messageNumber_chain, hnot, if_false, hne, Primitives.onReceivingChain, run_onPart,
      skipTo_run hki hbound hcount, S.keys_snoc hki, List.getLast?_concat, List.dropLast_concat]
    rfl

/-- **The rest of a turn**, when its sender has gone on to its next one. -/
theorem DhAt.skipRemainingReceivingKeys_skip {n' : ℕ} (hat : S.DhAt ratchet m n k) (hle : k ≤ n')
    (hskip : k < n' → 2 ≤ m ∧ n' < 2 ^ 32 ∧ n' - k ≤ 1000) (rng : OsRng) :
    ∃ ratchet', (S.P.skipRemainingReceivingKeys (UInt32.ofNat n')).run (ratchet, rng) =
        .ok (S.keys (m - 1) k n') (ratchet', rng) ∧
      S.DhAt ratchet' m n n' := by
  rcases hle.eq_or_lt with rfl | hlt
  · rw [keys_self]
    exact ⟨ratchet, hat.skipRemainingReceivingKeys_run rng, hat⟩
  · obtain ⟨htwo, hbound, hcount⟩ := hskip hlt
    obtain ⟨m, rfl⟩ : ∃ j, m = j + 2 := ⟨m - 2, by omega⟩
    have hreceiving : ratchet.receivingChain = some (S.chain (m + 1) k) := hat.receiving
    have hpred : UInt32.ofNat n' - 1 = UInt32.ofNat (n' - 1) := by
      apply UInt32.toNat_inj.mp
      rw [UInt32.toNat_sub, toNat_number hbound, toNat_number (by omega)]
      have hone : (1 : UInt32).toNat = 1 := rfl
      rw [hone]
      omega
    have hnot : ¬ UInt32.ofNat n' ≤ UInt32.ofNat k := by
      rw [UInt32.le_iff_toNat_le, toNat_number hbound,
        toNat_number (by omega)]
      omega
    have hend : n' - 1 + 1 = n' := by omega
    have hrun := skipTo_run (S := S) (e := m + 1) (k := k) (t := n' - 1) (by omega) (by omega)
      (by omega) rng
    rw [hend] at hrun
    refine ⟨{ ratchet with receivingChain := some (S.chain (m + 1) n') }, ?_,
      hat.pair, hat.remote, hat.root, hat.sending, rfl⟩
    simp only [Primitives.skipRemainingReceivingKeys, EStateM.run_bind, EStateM.run_get, hreceiving,
      messageNumber_chain]
    change EStateM.run (if _ then _ else _) _ = _
    rw [if_neg hnot, hpred, Primitives.onReceivingChain, run_onPart, hrun]
    rfl

/-! ## The cache -/

variable (S) in
def slot (p : ℕ × ℕ) : PublicKey × UInt32 := (S.dhPublic p.1, UInt32.ofNat p.2)

variable (S) in

/-- The cache holds the keys of a set of messages. -/
abbrev Caches (table : SkippedKeys) (cached : Finset (ℕ × ℕ)) : Prop :=
  Stores S.slot (fun p skipped => skipped.key = S.messageKey p.1 p.2) table cached

variable (S) in
/-- **Distinct keys**: no two turns before turn `N` have the same header key or the same public
key. -/
structure DistinctBelow (N : ℕ) : Prop where
  header : ∀ a < N, ∀ b < N, S.header a = S.header b → a = b
  dhPublic : ∀ a < N, ∀ b < N, S.dhPublic a = S.dhPublic b → a = b

theorem DistinctBelow.mono {M N : ℕ} (h : S.DistinctBelow N) (hle : M ≤ N) : S.DistinctBelow M where
  header a ha b hb := h.header a (by omega) b (by omega)
  dhPublic a ha b hb := h.dhPublic a (by omega) b (by omega)

def Numbered (N : ℕ) (items : Finset (ℕ × ℕ)) : Prop := ∀ p ∈ items, p.1 < N ∧ p.2 < 2 ^ 32

theorem slot_inj {N : ℕ} (hd : S.DistinctBelow N) {p q : ℕ × ℕ} (hp : p.1 < N ∧ p.2 < 2 ^ 32)
    (hq : q.1 < N ∧ q.2 < 2 ^ 32) (heq : S.slot p = S.slot q) : p = q := by
  obtain ⟨hpublic, hnumber⟩ := Prod.mk.inj heq
  have hnat := congrArg UInt32.toNat hnumber
  rw [toNat_number hp.2, toNat_number hq.2] at hnat
  exact Prod.ext (hd.dhPublic _ hp.1 _ hq.1 hpublic) hnat

theorem storeSkippedKey_eq {session : TripleRatchetSession} (dhPublic : PublicKey) (number : UInt32)
    (key : Key) (hroom : session.skippedKeys.keys.length < maxSkippedKeys) :
    session.storeSkippedKey dhPublic number key =
      { session with
        skippedKeys := session.skippedKeys.insert (dhPublic, number)
          { key := key, dhStep := session.dhRatchet.stepCount } } := by
  unfold TripleRatchetSession.storeSkippedKey
  rw [if_neg (by omega)]

/-- **Caching the keys** of a range of messages, while there is room for all. -/
theorem Caches.storeSkippedKeys {N e k n : ℕ} {session : TripleRatchetSession}
    {cached : Finset (ℕ × ℕ)} (h : S.Caches session.skippedKeys cached) (hd : S.DistinctBelow N)
    (hnumbered : Numbered N (cached ∪ span e k n))
    (hroom : (cached ∪ span e k n).card ≤ maxSkippedKeys) (hnew : Disjoint cached (span e k n)) :
    ∃ table, session.storeSkippedKeys (S.dhPublic e) (S.keys e k n) =
        { session with skippedKeys := table } ∧
      S.Caches table (cached ∪ span e k n) := by
  induction hc : n - k generalizing k session cached with
  | zero =>
    have hkeys : S.keys e k n = [] := by simp [keys, hc]
    have hspan : span e k n = ∅ := by
      rw [← Finset.card_eq_zero, card_span, hc]
    rw [hkeys, hspan, Finset.union_empty]
    exact ⟨session.skippedKeys, rfl, h⟩
  | succ c ih =>
    have hlt : k < n := by omega
    rw [span_cons hlt] at hnumbered hroom hnew ⊢
    have hmem : (e, k) ∈ cached ∪ insert (e, k) (span e (k + 1) n) := by simp
    have hfresh : (e, k) ∉ cached :=
      Finset.disjoint_right.mp hnew (Finset.mem_insert_self _ _)
    have hsplit : cached ∪ insert (e, k) (span e (k + 1) n) =
        insert (e, k) cached ∪ span e (k + 1) n := by
      rw [Finset.union_insert, Finset.insert_union]
    -- there is room for one more
    have hone : session.skippedKeys.keys.length < maxSkippedKeys := by
      have hinsert := Finset.card_insert_of_notMem hfresh
      have hle := Finset.card_le_card
        (@Finset.subset_union_left _ _ (insert (e, k) cached) (span e (k + 1) n))
      have hlength := h.length_le
      rw [hsplit] at hroom
      omega
    have hstore := storeSkippedKey_eq (S.dhPublic e) (UInt32.ofNat k) (S.messageKey e k) hone
    have hinsert : S.Caches (session.storeSkippedKey (S.dhPublic e) (UInt32.ofNat k)
        (S.messageKey e k)).skippedKeys (insert (e, k) cached) := by
      rw [hstore]
      refine Stores.insert (i := (e, k)) h ?_ rfl
      intro q hq heq
      exact slot_inj hd (hnumbered q (Finset.mem_union_left _ hq)) (hnumbered _ hmem) heq
    rw [hsplit] at hnumbered hroom ⊢
    have hdisjoint : Disjoint (insert (e, k) cached) (span e (k + 1) n) := by
      rw [Finset.disjoint_insert_left]
      refine ⟨by simp, ?_⟩
      exact hnew.mono_right (Finset.subset_insert _ _)
    obtain ⟨table, htable, hcaches⟩ := ih hinsert hnumbered hroom hdisjoint (by omega)
    refine ⟨table, ?_, hcaches⟩
    rw [S.keys_cons hlt]
    change TripleRatchetSession.storeSkippedKeys (session.storeSkippedKey _ _ _) _ _ = _
    rw [htable, hstore]

end KeySchedule

end Pirc.Crypto
