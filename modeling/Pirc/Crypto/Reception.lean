import Pirc.Crypto.SkippedKeys
import Pirc.Crypto.Turns

/-!
# Crypto: messages that arrive late

What `decrypt` does in a session in a turn with any message of its peer. A session opens a header
with the key of the peer's next turn, of its turn, of the turn before that, or of one of the first
ten turns of its own that it went through: those keys are retained and never given up for newer
ones.
-/

namespace Pirc.Crypto

/-! ## The header keys of a turn -/

/-- The turn whose header key is the receiving one in a turn. The sender's first is never used, and
the receiver's second is the one it writes with. -/
def receivingTurn : ℕ → ℕ
  | 0 => 1
  | 1 => 0
  | m + 2 => max (m + 1) 2

/-- The turn whose header key is kept as the previous one. -/
def previousTurn : ℕ → Option ℕ
  | 0 => none
  | 1 => none
  | m + 2 => some (receivingTurn m)

/-- The turns whose header keys are kept for later messages. -/
def retainedTurns : ℕ → List ℕ
  | 0 => []
  | 1 => []
  | m + 2 =>
    match previousTurn m with
    | some e =>
      if (retainedTurns m).length < maxRetainedHeaderKeys then retainedTurns m ++ [e]
      else retainedTurns m
    | none => retainedTurns m

/-- The turns whose header keys are tried, in order. -/
def heldTurns (m : ℕ) : List ℕ :=
  [receivingTurn m, max m 1 + 1] ++ (previousTurn m).toList ++ retainedTurns m

theorem retainedTurns_eq (m : ℕ) :
    retainedTurns m =
      (List.range (min maxRetainedHeaderKeys (m / 2 - 1))).map
        fun j => receivingTurn (m % 2 + 2 * j) := by
  induction m using retainedTurns.induct with
  | case1 => rfl
  | case2 => rfl
  | case3 m e hprevious hroom ih =>
    obtain ⟨m, rfl⟩ : ∃ j, m = j + 2 := by
      match m with
      | 0 => cases hprevious
      | 1 => cases hprevious
      | m + 2 => exact ⟨m, rfl⟩
    obtain rfl : receivingTurn m = e := Option.some.inj hprevious
    rw [ih, List.length_map, List.length_range] at hroom
    have hcount : min maxRetainedHeaderKeys ((m + 2 + 2) / 2 - 1) =
        min maxRetainedHeaderKeys ((m + 2) / 2 - 1) + 1 := by omega
    have hparity : (m + 2 + 2) % 2 = (m + 2) % 2 := by omega
    have hlast : (m + 2) % 2 + 2 * min maxRetainedHeaderKeys ((m + 2) / 2 - 1) = m := by omega
    rw [retainedTurns, hprevious, hcount, hparity, List.range_succ, List.map_append, ih]
    simp only [List.length_map, List.length_range, if_pos hroom, List.map_cons, List.map_nil, hlast]
  | case4 m e hprevious hfull ih =>
    -- there is no room any more
    rw [ih, List.length_map, List.length_range] at hfull
    have hcount : min maxRetainedHeaderKeys ((m + 2) / 2 - 1) =
        min maxRetainedHeaderKeys (m / 2 - 1) := by omega
    have hparity : (m + 2) % 2 = m % 2 := by omega
    rw [retainedTurns, hprevious, hcount, hparity, ih]
    simp only [List.length_map, List.length_range, if_neg hfull]
  | case5 m hprevious ih =>
    have hfirst : m < 2 := by
      match m with
      | 0 => omega
      | 1 => omega
      | m + 2 => cases hprevious
    have hcount : (m + 2) / 2 - 1 = m / 2 - 1 := by omega
    have hparity : (m + 2) % 2 = m % 2 := by omega
    rw [retainedTurns, hprevious, hcount, hparity, ih]

theorem mem_retainedTurns {m e : ℕ} :
    e ∈ retainedTurns m ↔ ∃ j < 10, m % 2 + 2 * j + 4 ≤ m ∧ receivingTurn (m % 2 + 2 * j) = e := by
  rw [retainedTurns_eq, List.mem_map]
  constructor
  · rintro ⟨j, hj, rfl⟩
    rw [List.mem_range, maxRetainedHeaderKeys] at hj
    exact ⟨j, by omega, by omega, rfl⟩
  · rintro ⟨j, hj, hle, rfl⟩
    refine ⟨j, ?_, rfl⟩
    rw [List.mem_range, maxRetainedHeaderKeys]
    omega

/-- **The header key of an old turn** of the peer is held if at most one of its turns came after
that, or if the turn is one of its first nine. -/
theorem mem_heldTurns_iff {m e : ℕ} (hfirst : 0 < e) (hlt : e + 1 < m) (hpeer : (m + e) % 2 = 1) :
    e ∈ heldTurns m ↔ m ≤ e + 3 ∨ (e + 1) / 2 ≤ 9 := by
  have hreceiving : ∀ t, receivingTurn (t + 2) = max (t + 1) 2 := fun _ => rfl
  obtain ⟨m, rfl⟩ : ∃ t, m = t + 2 := ⟨m - 2, by omega⟩
  have hsplit : e ∈ heldTurns (m + 2) ↔ receivingTurn m = e ∨ e ∈ retainedTurns (m + 2) := by
    have hnext : e ≠ m + 2 + 1 := by omega
    have hcurrent : e ≠ receivingTurn (m + 2) := by
      rw [hreceiving]
      omega
    simp [heldTurns, previousTurn, hnext, hcurrent, eq_comm]
  rw [hsplit, mem_retainedTurns]
  constructor
  · rintro (heq | ⟨j, hj, hle, heq⟩)
    · left
      match m, heq with
      | 0, _ => omega
      | 1, heq =>
        have hzero : receivingTurn 1 = 0 := rfl
        omega
      | m + 2, heq =>
        rw [hreceiving] at heq
        omega
    · right
      match j, (m + 2) % 2, Nat.mod_lt (m + 2) Nat.two_pos, heq with
      | 0, 0, _, heq =>
        have hone : receivingTurn (0 + 2 * 0) = 1 := rfl
        omega
      | 0, 1, _, heq =>
        have hzero : receivingTurn (1 + 2 * 0) = 0 := rfl
        omega
      | j + 1, r, hr, heq =>
        have hstep : r + 2 * (j + 1) = r + 2 * j + 2 := by omega
        rw [hstep, hreceiving] at heq
        omega
  · intro hheld
    by_cases hone : e = 1
    · subst hone
      by_cases hm : m = 0
      · left
        subst hm
        rfl
      · refine .inr ⟨0, by omega, by omega, ?_⟩
        have heven : (m + 2) % 2 = 0 := by omega
        rw [heven]
        rfl
    · by_cases hm : m = e + 1
      · left
        obtain ⟨e, rfl⟩ : ∃ t, e = t + 1 := ⟨e - 1, by omega⟩
        rw [hm, hreceiving]
        omega
      · refine .inr ⟨(e + 1) / 2, by omega, by omega, ?_⟩
        have hstep : (m + 2) % 2 + 2 * ((e + 1) / 2) = e - 1 + 2 := by omega
        rw [hstep, hreceiving]
        omega

namespace KeySchedule

variable {S : KeySchedule}

/-! ## Sessions -/

/-- **A session of a party in turn `m`**, which sent `n` messages in it and `prev` in its turn
before, passed `k` messages of its peer's turn, and has the keys of `cached` in its cache. -/
structure InTurn (S : KeySchedule) (session : TripleRatchetSession) (m n prev k : ℕ)
    (cached : Finset (ℕ × ℕ)) : Prop where
  dhAt : S.DhAt session.dhRatchet m n k
  sendingKey : 0 < m → session.sendingHeaderKey = S.header m
  nextSending : session.nextSendingHeaderKey = S.header (m + 2)
  receivingKey : session.receivingHeaderKey = S.header (receivingTurn m)
  nextReceiving : session.nextReceivingHeaderKey = S.header (max m 1 + 1)
  previousKey : session.previousReceivingHeaderKey = (previousTurn m).map S.header
  retained : session.retainedHeaderKeys = (retainedTurns m).map S.header
  caches : S.Caches session.skippedKeys cached
  passed : ∀ p ∈ cached, p.1 + 1 < m ∨ p.1 + 1 = m ∧ p.2 < k
  sent : session.sendingMessageNumber = UInt32.ofNat n
  sentBefore : session.previousChainLength = UInt32.ofNat prev

variable {session : TripleRatchetSession} {rng : OsRng} {m n prev k e i before N : ℕ}
  {cached : Finset (ℕ × ℕ)} {message : EncryptedMessage} {plaintext : List UInt8}

/-- **Encrypting** in a turn other than the receiver's first. -/
theorem InTurn.encryptMessage_run (h : S.P.Correct) (hat : S.InTurn session (m + 1) n prev k cached)
    (hdue : session.pqDue = false) (plaintext : List UInt8) (rng : OsRng) :
    ∃ message session' rng', (S.P.encryptMessage plaintext).run (session, rng) =
        .ok message (session', rng') ∧
      rng'.x25519 = rng.x25519 ∧ S.InTurn session' (m + 1) (n + 1) prev k cached ∧
      S.Genuine (m + 1) n prev message plaintext ∧ SamePq session session' := by
  have hsending := hat.sendingKey (Nat.succ_pos m)
  obtain ⟨message, ratchet', nonces, hrun, hdh, hg⟩ :=
    encryptMessage_eq h hat.dhAt hsending hat.sentBefore hdue plaintext rng
  refine ⟨message, _, _, hrun, rfl, ?_, hg, rfl, rfl⟩
  exact { hat with
    dhAt := hdh
    sent := rfl }

/-! ## Which header key opens a message -/

theorem Genuine.tryDecrypt_ite (h : S.P.Committing) (hg : S.Genuine e i before message plaintext)
    (key : Key) :
    S.P.tryDecryptHeaderWithKey key message =
      if key = S.header e then some (S.headerAt e i before) else none := by
  split_ifs with hkey
  · rw [hkey]
    exact hg.tryDecrypt_eq h
  · exact hg.tryDecrypt_other h hkey

theorem Genuine.findSome_eq (h : S.P.Committing) (hd : S.DistinctBelow N)
    (hg : S.Genuine e i before message plaintext) (he : e < N) {turns : List ℕ}
    (hturns : ∀ t ∈ turns, t < N) :
    (turns.map S.header).findSome? (S.P.tryDecryptHeaderWithKey · message) =
      if e ∈ turns then some (S.headerAt e i before) else none := by
  induction turns with
  | nil => rfl
  | cons t turns ih =>
    obtain ⟨ht, hrest⟩ := List.forall_mem_cons.mp hturns
    rw [List.map_cons, List.findSome?_cons, hg.tryDecrypt_ite h]
    by_cases heq : t = e
    · simp [heq]
    · have hne : S.header t ≠ S.header e := fun hheader => heq (hd.header t ht e he hheader)
      have hmem : e ∈ t :: turns ↔ e ∈ turns := by simp [Ne.symm heq]
      simp only [if_neg hne, ih hrest, hmem]

theorem lt_of_mem_heldTurns {t : ℕ} (ht : t ∈ heldTurns m) : t < m + 3 := by
  have hreceiving : ∀ j, receivingTurn j < j + 3 := by
    intro j
    match j with
    | 0 => exact Nat.lt_of_sub_eq_succ rfl
    | 1 => exact Nat.lt_of_sub_eq_succ rfl
    | j + 2 =>
      have hstep : receivingTurn (j + 2) = max (j + 1) 2 := rfl
      omega
  simp only [heldTurns, List.mem_append, List.mem_cons, Option.mem_toList, List.not_mem_nil,
    or_false] at ht
  rcases ht with ((rfl | rfl) | hprevious) | hretained
  · exact hreceiving m
  · omega
  · match m, hprevious with
    | m + 2, hprevious =>
      obtain rfl : receivingTurn m = t := Option.some.inj hprevious
      have hlt := hreceiving m
      omega
  · obtain ⟨j, -, hle, rfl⟩ := mem_retainedTurns.mp hretained
    have hlt := hreceiving (m % 2 + 2 * j)
    omega

namespace InTurn

variable (h : S.P.Committing) (hd : S.DistinctBelow N) (hat : S.InTurn session m n prev k cached)
  (hm : m + 3 ≤ N)

section Opening

include h hd hat hm

theorem tryHeaderKeys_eq (hg : S.Genuine e i before message plaintext) (he : e < N) :
    S.P.tryHeaderKeys session message =
      if e ∈ heldTurns m then some (S.headerAt e i before) else none := by
  have hkeys : [session.receivingHeaderKey, session.nextReceivingHeaderKey] ++
      session.previousReceivingHeaderKey.toList ++ session.retainedHeaderKeys =
        (heldTurns m).map S.header := by
    rw [hat.receivingKey, hat.nextReceiving, hat.previousKey, hat.retained, heldTurns]
    cases previousTurn m <;> simp
  unfold Primitives.tryHeaderKeys
  rw [hkeys]
  refine hg.findSome_eq h hd he ?_
  intro t ht
  have hlt := lt_of_mem_heldTurns ht
  omega

/-- **A message whose key is not cached** is not found in the cache. -/
theorem trySkippedKeys_miss (hg : S.Genuine e i before message plaintext) (he : e < N)
    (hmiss : ∀ p ∈ cached, e ∈ heldTurns m → S.slot p ≠ S.slot (e, i)) (rng : OsRng) :
    (S.P.trySkippedKeys message).run (session, rng) = .ok none (session, rng) := by
  have hheader := hat.tryHeaderKeys_eq h hd hm hg he
  simp only [Primitives.trySkippedKeys, EStateM.run_bind, EStateM.run_get, hheader]
  by_cases hempty : session.skippedKeys.keys.isEmpty = true
  · rw [if_pos hempty]
    rfl
  · rw [if_neg hempty]
    by_cases hheld : e ∈ heldTurns m
    · have hnone : session.skippedKeys.lookup (S.slot (e, i)) = none :=
        hat.caches.lookup_eq_none fun p hp => hmiss p hp hheld
      have hlookup : session.skippedKeys.lookup
          ((S.headerAt e i before).dhPublic, (S.headerAt e i before).messageNumber) = none := hnone
      simp only [if_pos hheld, hlookup]
      rfl
    · simp only [if_neg hheld]
      rfl

/-- **A cached message** whose header opens is decrypted with its key, which is used up. -/
theorem trySkippedKeys_hit (hg : S.Genuine e i before message plaintext) (he : e < N)
    (hmem : (e, i) ∈ cached) (hheld : e ∈ heldTurns m) (rng : OsRng) :
    (S.P.trySkippedKeys message).run (session, rng) =
      .ok (some plaintext)
        ({ session with skippedKeys := session.skippedKeys.erase (S.slot (e, i)) }, rng) := by
  have hheader := hat.tryHeaderKeys_eq h hd hm hg he
  rw [if_pos hheld] at hheader
  obtain ⟨skipped, hlookup, hkey⟩ := hat.caches.lookup _ hmem
  have hnonempty : session.skippedKeys.keys.isEmpty = false := by
    have hkeys : S.slot (e, i) ∈ session.skippedKeys.keys := by
      rw [← AList.mem_keys, ← AList.lookup_isSome, hlookup]
      rfl
    rw [List.isEmpty_eq_false_iff]
    exact List.ne_nil_of_mem hkeys
  have hbody := Primitives.decrypt_encrypt h hg.body
  change skipped.key = S.messageKey e i at hkey
  have hheaderLookup : session.skippedKeys.lookup
      ((S.headerAt e i before).dhPublic, (S.headerAt e i before).messageNumber) = some skipped := hlookup
  simp only [Primitives.trySkippedKeys, EStateM.run_bind, EStateM.run_get, hheader, hnonempty,
    Bool.false_eq_true, if_false, hheaderLookup, run_modifySession, hkey, hbody, run_check]
  rfl

theorem detect_eq (hg : S.Genuine e i before message plaintext) (he : e < N) :
    S.P.tryDecryptHeaderAndDetectRatchet session message =
      if e = max m 1 + 1 then .ok (S.headerAt e i before, true)
      else if e = receivingTurn m then
        .ok (S.headerAt e i before, session.dhRatchet.remotePublic ≠ some (S.dhPublic e))
      else if previousTurn m = some e then .ok (S.headerAt e i before, false)
      else .error (.headerEncryption "no header key could decrypt the header") := by
  have hopens : ∀ t ∈ heldTurns m, S.P.tryDecryptHeaderWithKey (S.header t) message =
      if e = t then some (S.headerAt e i before) else none := by
    intro t ht
    rw [hg.tryDecrypt_ite h]
    have hlt := lt_of_mem_heldTurns ht
    have hiff : S.header t = S.header e ↔ e = t := by
      constructor
      · intro heq
        exact (hd.header t (by omega) e he heq).symm
      · rintro rfl
        rfl
    simp only [hiff]
  have hnext := hopens (max m 1 + 1) (by simp [heldTurns])
  have hcurrent := hopens (receivingTurn m) (by simp [heldTurns])
  unfold Primitives.tryDecryptHeaderAndDetectRatchet
  rw [hat.nextReceiving, hnext, hat.receivingKey, hcurrent, hat.previousKey]
  by_cases hisNext : e = max m 1 + 1
  · rw [if_pos hisNext, if_pos hisNext]
  by_cases hisCurrent : e = receivingTurn m
  · simp only [if_neg hisNext, if_pos hisCurrent]
    rfl
  -- only the previous key is left
  by_cases hisPrevious : previousTurn m = some e
  · have hprevious := hopens e (by simp [heldTurns, hisPrevious])
    simp only [if_neg hisNext, if_neg hisCurrent, if_pos hisPrevious]
    rw [hisPrevious, Option.map_some, Option.bind_some, hprevious, if_pos rfl]
  · simp only [if_neg hisNext, if_neg hisCurrent, if_neg hisPrevious]
    cases hp : previousTurn m with
    | none => rfl
    | some t =>
      have hne : e ≠ t := by
        rintro rfl
        exact hisPrevious hp
      have hprevious := hopens t (by simp [heldTurns, hp])
      rw [Option.map_some, Option.bind_some, hprevious, if_neg hne]

end Opening

/-! ## Messages ahead -/

theorem disjoint_span (hat : S.InTurn session (m + 1) n prev k cached) :
    Disjoint cached (span m k i) := by
  rw [Finset.disjoint_left]
  intro p hp hspan
  obtain ⟨hturn, hlow, -⟩ := mem_span.mp hspan
  rcases hat.passed p hp with hlt | ⟨-, hlt⟩
  · omega
  · omega

section Ahead

include hd hat

/-- **Keeping the rest of a turn**, when the peer has gone on to its next one. -/
theorem saveRemainingKeys_skip {n' : ℕ} (hle : k ≤ n')
    (hskip : k < n' → 2 ≤ m ∧ n' < 2 ^ 32 ∧ n' - k ≤ 1000)
    (hnumbered : Numbered N (cached ∪ span (m - 1) k n'))
    (hroom : (cached ∪ span (m - 1) k n').card ≤ maxSkippedKeys) (rng : OsRng) :
    ∃ session', (S.P.saveRemainingKeys (S.headerAt (m + 1) i n')).run (session, rng) =
        .ok () (session', rng) ∧
      S.InTurn session' m n prev n' (cached ∪ span (m - 1) k n') ∧ SamePq session session' := by
  obtain ⟨ratchet', hskipped, hdh⟩ := hat.dhAt.skipRemainingReceivingKeys_skip hle hskip rng
  cases m with
  | zero =>
    -- the receiver has not heard anything
    have hremote : session.dhRatchet.remotePublic = none := hat.dhAt.remote
    obtain rfl : k = n' := by
      rcases hle.eq_or_lt with heq | hlt
      · exact heq
      · obtain ⟨htwo, -⟩ := hskip hlt
        omega
    refine ⟨session, ?_, ?_, rfl, rfl⟩
    · simp only [Primitives.saveRemainingKeys, EStateM.run_bind, EStateM.run_get, hremote]
      rfl
    · rw [span_self, Finset.union_empty]
      exact hat
  | succ m =>
    rw [Nat.add_sub_cancel] at hskipped hnumbered hroom ⊢
    have hremote : session.dhRatchet.remotePublic = some (S.dhPublic m) := hat.dhAt.remote
    have hnew : Disjoint cached (span m k n') := hat.disjoint_span
    have hcaches : S.Caches { session with dhRatchet := ratchet' }.skippedKeys cached := hat.caches
    obtain ⟨table, hstore, htable⟩ := hcaches.storeSkippedKeys hd hnumbered hroom hnew
    refine ⟨{ session with dhRatchet := ratchet', skippedKeys := table }, ?_, ?_, rfl, rfl⟩
    · simp only [Primitives.saveRemainingKeys, EStateM.run_bind, EStateM.run_get, hremote,
        onDhRatchet, run_onPart, headerAt, hskipped, run_modifySession, hstore]
    · exact { hat with
        dhAt := hdh
        caches := htable
        passed := by
          intro p hp
          rcases Finset.mem_union.mp hp with hold | hspan
          · rcases hat.passed p hold with hlt | ⟨hturn, hlt⟩
            · exact .inl hlt
            · exact .inr ⟨hturn, by omega⟩
          · obtain ⟨hturn, -, hlt⟩ := mem_span.mp hspan
            exact .inr ⟨by omega, hlt⟩ }

include h

/-- **Following the peer** into its next turn. -/
theorem followRatchet_skip {n' : ℕ} (hle : k ≤ n')
    (hskip : k < n' → 2 ≤ m ∧ n' < 2 ^ 32 ∧ n' - k ≤ 1000)
    (hnumbered : Numbered N (cached ∪ span (m - 1) k n'))
    (hroom : (cached ∪ span (m - 1) k n').card ≤ maxSkippedKeys)
    (hrng : rng.x25519 = S.secrets.drop (m + 2)) :
    ∃ session', (S.P.followRatchet (S.headerAt (m + 1) i n')).run (session, rng) =
        .ok () (session', { rng with x25519 := S.secrets.drop (m + 3) }) ∧
      S.InTurn session' (m + 2) 0 n 0 (cached ∪ span (m - 1) k n') ∧
      session'.pqRatchet = session.pqRatchet ∧ session'.pqStepInterval = session.pqStepInterval := by
  obtain ⟨session₁, hsave, hat₁, hpq⟩ :=
    hat.saveRemainingKeys_skip (i := i) hd hle hskip hnumbered hroom rng
  obtain ⟨ratchet', hstep, hdh⟩ := hat₁.dhAt.ratchetStep_run h hrng
  refine ⟨
    { session₁.rotateHeaderKeys with
      dhRatchet := ratchet'
      dhStepsSincePq := session₁.dhStepsSincePq + 1
      nextReceivingHeaderKey := S.header (m + 3)
      nextSendingHeaderKey := S.header (m + 4)
      previousChainLength := session₁.sendingMessageNumber
      sendingMessageNumber := 0 }, ?_, ?_, hpq.1, hpq.2⟩
  · rw [Primitives.followRatchet, run_bind_ok hsave]
    have hrotate : session₁.rotateHeaderKeys.dhRatchet = session₁.dhRatchet := rfl
    simp only [EStateM.run_bind, run_modifySession, onDhRatchet, run_onPart, hrotate, headerAt,
      hstep]
    rfl
  · have hmax : receivingTurn (m + 2) = max m 1 + 1 := by
      change max (m + 1) 2 = max m 1 + 1
      omega
    have hnext : max (m + 2) 1 + 1 = m + 3 := by omega
    exact {
      dhAt := hdh
      sendingKey := fun _ => hat₁.nextSending
      nextSending := rfl
      receivingKey := by
        rw [hmax]
        exact hat₁.nextReceiving
      nextReceiving := by
        rw [hnext]
      previousKey := congrArg some hat₁.receivingKey
      retained := by
        change session₁.rotateHeaderKeys.retainedHeaderKeys = _
        unfold TripleRatchetSession.rotateHeaderKeys
        dsimp only
        rw [hat₁.previousKey, hat₁.retained, retainedTurns]
        cases previousTurn m with
        | none => rfl
        | some t =>
          simp only [Option.map_some, List.length_map]
          split_ifs
          · rw [List.map_append, List.map_singleton]
          · rfl
      caches := hat₁.caches
      passed := by
        intro p hp
        have hold := hat₁.passed p hp
        left
        omega
      sent := rfl
      sentBefore := hat₁.sent }

end Ahead

/-- **The body** of a message that was not passed yet. -/
theorem decryptBody_skip (h : S.P.Committing) (hd : S.DistinctBelow N)
    (hat : S.InTurn session (m + 2) n prev k cached)
    (hg : S.Genuine (m + 1) i before message plaintext) (hki : k ≤ i)
    (hskip : k < i → i + 1 < 2 ^ 32 ∧ i + 1 - k ≤ 1000)
    (hnumbered : Numbered N (cached ∪ span (m + 1) k i))
    (hroom : (cached ∪ span (m + 1) k i).card ≤ maxSkippedKeys) (rng : OsRng) :
    ∃ session', (S.P.decryptBody (S.headerAt (m + 1) i before) message).run (session, rng) =
        .ok plaintext (session', rng) ∧
      S.InTurn session' (m + 2) n prev (i + 1) (cached ∪ span (m + 1) k i) ∧
      SamePq session session' := by
  obtain ⟨ratchet', hkey, hdh⟩ := hat.dhAt.receiveMessageKey_skip hki hskip rng
  have hnew : Disjoint cached (span (m + 1) k i) := hat.disjoint_span
  have hcaches : S.Caches { session with dhRatchet := ratchet' }.skippedKeys cached := hat.caches
  obtain ⟨table, hstore, htable⟩ := hcaches.storeSkippedKeys hd hnumbered hroom hnew
  have hbody := Primitives.decrypt_encrypt h hg.body
  refine ⟨{ session with dhRatchet := ratchet', skippedKeys := table }, ?_, ?_, rfl, rfl⟩
  · simp only [Primitives.decryptBody, EStateM.run_bind, onDhRatchet, run_onPart, headerAt, hkey,
      run_modifySession, hstore, run_check, hbody]
  · exact { hat with
      dhAt := hdh
      caches := htable
      passed := by
        intro p hp
        rcases Finset.mem_union.mp hp with hold | hspan
        · rcases hat.passed p hold with hlt | ⟨hturn, hlt⟩
          · exact .inl hlt
          · exact .inr ⟨hturn, by omega⟩
        · obtain ⟨hturn, -, hlt⟩ := mem_span.mp hspan
          exact .inr ⟨by omega, by omega⟩ }

theorem detect_current (h : S.P.Committing) (hd : S.DistinctBelow N)
    (hat : S.InTurn session (m + 2) n prev k cached) (hm : m + 5 ≤ N)
    (hg : S.Genuine (m + 1) i before message plaintext) :
    S.P.tryDecryptHeaderAndDetectRatchet session message =
      .ok (S.headerAt (m + 1) i before, false) := by
  rw [hat.detect_eq h hd hm hg (by omega), if_neg (by omega)]
  cases m with
  | zero => rfl
  | succ m =>
    have hcurrent : m + 1 + 1 = receivingTurn (m + 1 + 2) := by
      change m + 1 + 1 = max (m + 1 + 1) 2
      omega
    have hremote : session.dhRatchet.remotePublic = some (S.dhPublic (m + 1 + 1)) := hat.dhAt.remote
    rw [if_pos hcurrent, hremote]
    simp

/-- **Decrypting a message of the peer's turn** that was not passed yet; the ones it passes are
cached. -/
theorem decryptMessage_current (h : S.P.Committing) (hd : S.DistinctBelow N)
    (hat : S.InTurn session (m + 2) n prev k cached) (hm : m + 5 ≤ N)
    (hg : S.Genuine (m + 1) i before message plaintext) (hki : k ≤ i)
    (hmiss : ∀ p ∈ cached, S.slot p ≠ S.slot (m + 1, i))
    (hskip : k < i → i + 1 < 2 ^ 32 ∧ i + 1 - k ≤ 1000)
    (hnumbered : Numbered N (cached ∪ span (m + 1) k i))
    (hroom : (cached ∪ span (m + 1) k i).card ≤ maxSkippedKeys) (rng : OsRng) :
    ∃ session', (S.P.decryptMessage message).run (session, rng) = .ok plaintext (session', rng) ∧
      S.InTurn session' (m + 2) n prev (i + 1) (cached ∪ span (m + 1) k i) ∧
      SamePq session session' := by
  obtain ⟨session', hbody, hat', hpq⟩ :=
    hat.decryptBody_skip h hd hg hki hskip hnumbered hroom rng
  have hsearch := hat.trySkippedKeys_miss h hd hm hg (by omega) (fun p hp _ => hmiss p hp) rng
  refine ⟨session', ?_, hat', hpq⟩
  rw [Primitives.decryptMessage, run_bind_ok hsearch]
  simp only [EStateM.run_bind, EStateM.run_get, hat.detect_current h hd hm hg, run_check]
  exact hbody

theorem detect_next (h : S.P.Committing) (hd : S.DistinctBelow N)
    (hat : S.InTurn session m n prev k cached) (hm : m + 3 ≤ N)
    (hg : S.Genuine (m + 1) i before message plaintext) :
    S.P.tryDecryptHeaderAndDetectRatchet session message =
      .ok (S.headerAt (m + 1) i before, true) := by
  rw [hat.detect_eq h hd hm hg (by omega)]
  cases m with
  | zero =>
    -- the first header key is the current one, and there was no public key yet
    have hremote : session.dhRatchet.remotePublic = none := hat.dhAt.remote
    have hother : (0 + 1 : ℕ) ≠ max 0 1 + 1 := by omega
    have hcurrent : 0 + 1 = receivingTurn 0 := rfl
    rw [if_neg hother, if_pos hcurrent, hremote]
    simp
  | succ m =>
    have hnext : m + 1 + 1 = max (m + 1) 1 + 1 := by omega
    rw [if_pos hnext]

/-- **Decrypting a message of the peer's next turn**; the rest of its turn before, and the messages
before this one, are cached. -/
theorem decryptMessage_next {n' : ℕ} (h : S.P.Committing) (hd : S.DistinctBelow N)
    (hat : S.InTurn session m n prev k cached) (hm : m + 5 ≤ N)
    (hg : S.Genuine (m + 1) i n' message plaintext) (hle : k ≤ n')
    (hrest : k < n' → 2 ≤ m ∧ n' < 2 ^ 32 ∧ n' - k ≤ 1000)
    (hskip : 0 < i → i + 1 < 2 ^ 32 ∧ i + 1 ≤ 1000)
    (hnumbered : Numbered N (cached ∪ span (m - 1) k n' ∪ span (m + 1) 0 i))
    (hroom : (cached ∪ span (m - 1) k n' ∪ span (m + 1) 0 i).card ≤ maxSkippedKeys)
    (hrng : rng.x25519 = S.secrets.drop (m + 2)) :
    ∃ session' rng', (S.P.decryptMessage message).run (session, rng) =
        .ok plaintext (session', rng') ∧
      rng'.x25519 = S.secrets.drop (m + 3) ∧
      S.InTurn session' (m + 2) 0 n (i + 1) (cached ∪ span (m - 1) k n' ∪ span (m + 1) 0 i) ∧
      session'.pqStepInterval = session.pqStepInterval := by
  have hsearch := hat.trySkippedKeys_miss h hd (by omega) hg (by omega)
    (fun p hp _ heq => by
      -- cached keys belong to older turns
      have hold := hat.passed p hp
      have hturn : p.1 = m + 1 :=
        hd.dhPublic p.1 (by omega) (m + 1) (by omega) (congrArg Prod.fst heq)
      omega) rng
  have hsubset : cached ∪ span (m - 1) k n' ⊆
      cached ∪ span (m - 1) k n' ∪ span (m + 1) 0 i := Finset.subset_union_left
  obtain ⟨session₁, hfollow, hat₁, hpq₁⟩ := hat.followRatchet_skip (i := i) h hd hle hrest
    (fun p hp => hnumbered p (hsubset hp)) ((Finset.card_le_card hsubset).trans hroom) hrng
  obtain ⟨session₂, hbody, hat₂, hpq₂⟩ := hat₁.decryptBody_skip h hd hg (Nat.zero_le i) hskip
    hnumbered hroom { rng with x25519 := S.secrets.drop (m + 3) }
  refine ⟨session₂, { rng with x25519 := S.secrets.drop (m + 3) }, ?_, rfl, hat₂,
    hpq₂.2.trans hpq₁.2⟩
  rw [Primitives.decryptMessage, run_bind_ok hsearch]
  simp only [EStateM.run_bind, EStateM.run_get, hat.detect_next h hd (by omega) hg, run_check,
    if_true, hfollow]
  exact hbody

/-! ## Messages that were passed -/

/-- **Decrypting a late message** whose header key is still held. -/
theorem decryptMessage_cached (h : S.P.Committing) (hd : S.DistinctBelow N)
    (hat : S.InTurn session m n prev k cached) (hm : m + 3 ≤ N)
    (hg : S.Genuine e i before message plaintext) (he : e < N) (hmem : (e, i) ∈ cached)
    (hheld : e ∈ heldTurns m) (hslot : ∀ p ∈ cached, S.slot p = S.slot (e, i) → p = (e, i))
    (rng : OsRng) :
    ∃ session', (S.P.decryptMessage message).run (session, rng) = .ok plaintext (session', rng) ∧
      S.InTurn session' m n prev k (cached.erase (e, i)) ∧ SamePq session session' := by
  have hsearch := hat.trySkippedKeys_hit h hd hm hg he hmem hheld rng
  refine ⟨{ session with skippedKeys := session.skippedKeys.erase (S.slot (e, i)) }, ?_, ?_,
    rfl, rfl⟩
  · rw [Primitives.decryptMessage, run_bind_ok hsearch]
    rfl
  · exact { hat with
      caches := hat.caches.erase hslot
      passed := fun p hp => hat.passed p (Finset.mem_of_mem_erase hp) }

/-- **A late message is lost** when its header key is not held any more. -/
theorem decryptMessage_lost (h : S.P.Committing) (hd : S.DistinctBelow N)
    (hat : S.InTurn session m n prev k cached) (hm : m + 3 ≤ N)
    (hg : S.Genuine e i before message plaintext) (he : e < N) (hlost : e ∉ heldTurns m)
    (rng : OsRng) :
    (S.P.decryptMessage message).run (session, rng) =
      .error (.headerEncryption "no header key could decrypt the header") (session, rng) := by
  have hsearch := hat.trySkippedKeys_miss h hd hm hg he
    (fun p _ hheld => absurd hheld hlost) rng
  have hnext : e ≠ max m 1 + 1 := by
    rintro rfl
    exact hlost (by simp [heldTurns])
  have hcurrent : e ≠ receivingTurn m := by
    rintro rfl
    exact hlost (by simp [heldTurns])
  have hprevious : previousTurn m ≠ some e := by
    intro heq
    exact hlost (by simp [heldTurns, heq])
  have hdetect := hat.detect_eq h hd hm hg he
  rw [if_neg hnext, if_neg hcurrent, if_neg hprevious] at hdetect
  rw [Primitives.decryptMessage, run_bind_ok hsearch]
  simp only [EStateM.run_bind, EStateM.run_get, hdetect, run_check]

end InTurn

/-! ## Messages that were opened -/

/-- **A chain refuses a number** that it used, or that is too far ahead. -/
def Refuses (k i : ℕ) : Prop :=
  UInt32.ofNat i < UInt32.ofNat k ∨ maxSkip < UInt32.ofNat i - UInt32.ofNat k + 1

instance (k i : ℕ) : Decidable (Refuses k i) := inferInstanceAs (Decidable (_ ∨ _))

theorem DhAt.receiveMessageKey_refused {ratchet : DhRatchetState}
    (hat : S.DhAt ratchet (m + 2) n k) (hrefuses : Refuses k i) (rng : OsRng) :
    ∃ error, (S.P.receiveMessageKey (UInt32.ofNat i)).run (ratchet, rng) =
      .error error (ratchet, rng) := by
  have hreceiving : ratchet.receivingChain = some (S.chain (m + 1) k) := hat.receiving
  simp only [Primitives.receiveMessageKey, EStateM.run_bind, EStateM.run_get, hreceiving,
    messageNumber_chain]
  by_cases hused : UInt32.ofNat i < UInt32.ofNat k
  · rw [if_pos hused]
    exact ⟨_, rfl⟩
  · have hfar : maxSkip < UInt32.ofNat i - UInt32.ofNat k + 1 := hrefuses.resolve_left hused
    have hne : UInt32.ofNat i ≠ UInt32.ofNat k := by
      intro heq
      rw [heq, UInt32.sub_self] at hfar
      exact absurd hfar (by decide)
    have hskip : ∃ error, (S.P.skipTo (UInt32.ofNat i)).run (S.chain (m + 1) k, rng) =
        .error error (S.chain (m + 1) k, rng) := by
      simp only [Primitives.skipTo, EStateM.run_bind, EStateM.run_get, messageNumber_chain,
        if_neg hused, if_pos hfar]
      exact ⟨_, rfl⟩
    obtain ⟨error, hskip⟩ := hskip
    refine ⟨error, ?_⟩
    simp only [if_neg hused, if_neg hne, Primitives.onReceivingChain, EStateM.run_bind, run_onPart,
      hskip]
    rw [← hreceiving]

namespace InTurn

/-- **A message that was opened before is refused**, and the session stays as it was, if its number
is refused by the chain it would be tried on. That is the chain of the peer's turn, also for a
message of the peer's turn before, whose header opens with the previous key. -/
theorem decryptMessage_opened (h : S.P.Committing) (hd : S.DistinctBelow N)
    (hat : S.InTurn session m n prev k cached) (hm : m + 3 ≤ N)
    (hg : S.Genuine e i before message plaintext) (hfirst : 0 < e) (he : e < m)
    (hpeer : (m + e) % 2 = 1) (hmiss : ∀ p ∈ cached, S.slot p ≠ S.slot (e, i))
    (hrefuses : e + 1 = m ∨ e + 3 = m ∧ 5 ≤ m → Refuses k i) (rng : OsRng) :
    ∃ error, (S.P.decryptMessage message).run (session, rng) = .error error (session, rng) := by
  obtain ⟨m, rfl⟩ : ∃ t, m = t + 2 := ⟨m - 2, by omega⟩
  have hreceiving : ∀ t, receivingTurn (t + 2) = max (t + 1) 2 := fun _ => rfl
  have hsearch := hat.trySkippedKeys_miss h hd hm hg (by omega) (fun p hp _ => hmiss p hp) rng
  -- a header that opens leads to the receiving chain
  have htried : Refuses k i →
      S.P.tryDecryptHeaderAndDetectRatchet session message = .ok (S.headerAt e i before, false) →
      ∃ error, (S.P.decryptMessage message).run (session, rng) = .error error (session, rng) := by
    intro hnumber hdetect
    obtain ⟨error, hkey⟩ := hat.dhAt.receiveMessageKey_refused hnumber rng
    have hbody : (S.P.decryptBody (S.headerAt e i before) message).run (session, rng) =
        .error error (session, rng) := by
      simp only [Primitives.decryptBody, EStateM.run_bind, onDhRatchet, run_onPart, headerAt, hkey]
    refine ⟨error, ?_⟩
    rw [Primitives.decryptMessage, run_bind_ok hsearch]
    simp only [EStateM.run_bind, EStateM.run_get, hdetect, run_check]
    exact hbody
  by_cases hcurrent : e = m + 1
  · subst hcurrent
    exact htried (hrefuses (.inl rfl)) (hat.detect_current h hd hm hg)
  · have hdetect := hat.detect_eq h hd hm hg (by omega)
    have hnotNext : e ≠ max (m + 2) 1 + 1 := by omega
    have hnotCurrent : e ≠ receivingTurn (m + 2) := by
      rw [hreceiving]
      omega
    rw [if_neg hnotNext, if_neg hnotCurrent] at hdetect
    by_cases hprevious : previousTurn (m + 2) = some e
    · rw [if_pos hprevious] at hdetect
      refine htried (hrefuses (.inr ?_)) hdetect
      have hturn : receivingTurn m = e := Option.some.inj hprevious
      obtain - | - | m := m
      · have hone : receivingTurn 0 = 1 := rfl
        omega
      · have hzero : receivingTurn (0 + 1) = 0 := rfl
        omega
      · rw [hreceiving] at hturn
        omega
    · rw [if_neg hprevious] at hdetect
      refine ⟨.headerEncryption "no header key could decrypt the header", ?_⟩
      rw [Primitives.decryptMessage, run_bind_ok hsearch]
      simp only [EStateM.run_bind, EStateM.run_get, hdetect, run_check]

end InTurn

end KeySchedule

end Pirc.Crypto
