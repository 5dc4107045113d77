import Pirc.Crypto.KeySchedule

/-!
# Crypto: sessions that take turns

What `encrypt` and `decrypt` do in a session whose keys are those of a turn, as long as no
post-quantum step is due: messages of a turn are encrypted with the keys of its chain, and the first
message of the peer's next turn takes a session to the turn after that.
-/

namespace Pirc.Crypto

namespace KeySchedule

variable {S : KeySchedule} {ratchet : DhRatchetState} {rng : OsRng} {m n k : ℕ}

/-! ## Sessions and messages -/

/-- A session of a party in turn `m`, which sent `n` messages in it and `prev` in its turn before,
and received `k` messages of its peer's turn. -/
structure At (S : KeySchedule) (session : TripleRatchetSession) (m n prev k : ℕ) : Prop where
  dhAt : S.DhAt session.dhRatchet m n k
  sendingKey : 0 < m → session.sendingHeaderKey = S.header m
  nextSending : session.nextSendingHeaderKey = S.header (m + 2)
  nextReceiving : session.nextReceivingHeaderKey = S.header (max m 1 + 1)
  /-- The sender's first receiving key is never used. -/
  receivingKey : m ≠ 1 → session.receivingHeaderKey = S.header (if m = 0 then 1 else max (m - 1) 2)
  /-- The receiver still needs the first header key in its first turn. -/
  previousKey : m = 2 → session.previousReceivingHeaderKey = some (S.header 1)
  skipped : session.skippedKeys = ∅
  sent : session.sendingMessageNumber = UInt32.ofNat n
  sentBefore : session.previousChainLength = UInt32.ofNat prev
  steps : session.dhStepsSincePq = UInt32.ofNat (m / 2)
  start : m = 0 → n = 0
  unheard : m ≤ 1 → k = 0
  fresh : m ≤ 2 → prev = 0

/-- The header of message `k` of a turn whose sender sent `prev` messages in its turn before. -/
def headerAt (S : KeySchedule) (m k prev : ℕ) : MessageHeader where
  dhPublic := S.dhPublic m
  messageNumber := UInt32.ofNat k
  previousChainLength := UInt32.ofNat prev
  kemCiphertext := none
  kemPublic := none

/-- **A genuine message**: the `k`-th of turn `m`, without a post-quantum step. -/
structure Genuine (S : KeySchedule) (m k prev : ℕ) (message : EncryptedMessage)
    (plaintext : List UInt8) : Prop where
  header : S.P.encrypt (S.header m) message.headerNonce (S.headerAt m k prev).toBytes [] =
    .ok message.encryptedHeader
  body : S.P.encrypt (S.messageKey m k) message.bodyNonce plaintext message.encryptedHeader =
    .ok message.ciphertext

variable {session : TripleRatchetSession} {prev : ℕ} {plaintext : List UInt8}

/-- Nothing of the post-quantum ratchet changes. -/
def SamePq (session session' : TripleRatchetSession) : Prop :=
  session'.pqRatchet = session.pqRatchet ∧ session'.pqStepInterval = session.pqStepInterval

theorem preparePqStep_run {P : Primitives} (hdue : session.pqDue = false) :
    P.preparePqStep.run (session, rng) = .ok (none, none) (session, rng) := by
  simp [Primitives.preparePqStep, hdue]

@[simp] theorem run_modifySession (f : TripleRatchetSession → TripleRatchetSession) :
    (modifySession f).run (session, rng) = .ok () (f session, rng) := rfl

theorem encryptMessage_eq (h : S.P.Correct) (hdh : S.DhAt session.dhRatchet (m + 1) n k)
    (hkey : session.sendingHeaderKey = S.header (m + 1))
    (hbefore : session.previousChainLength = UInt32.ofNat prev) (hdue : session.pqDue = false)
    (plaintext : List UInt8) (rng : OsRng) :
    ∃ message ratchet' nonces, (S.P.encryptMessage plaintext).run (session, rng) =
        .ok message
          ({ session with dhRatchet := ratchet', sendingMessageNumber := UInt32.ofNat (n + 1) },
            { rng with nonces := nonces }) ∧
      S.DhAt ratchet' (m + 1) (n + 1) k ∧ S.Genuine (m + 1) n prev message plaintext := by
  obtain ⟨ratchet', hratchet, hdh'⟩ := hdh.encryptMessageKey_run rng
  obtain ⟨encryptedHeader, hheader⟩ := Primitives.exists_encrypt_eq h (S.header (m + 1))
    rng.nonces.head (S.headerAt (m + 1) n prev).toBytes []
  obtain ⟨ciphertext, hbody⟩ := Primitives.exists_encrypt_eq h (S.messageKey (m + 1) n)
    rng.nonces.tail.head plaintext encryptedHeader
  have hsucc : UInt32.ofNat n + 1 = UInt32.ofNat (n + 1) := (UInt32.ofNat_add n 1).symm
  refine ⟨⟨encryptedHeader, rng.nonces.head, ciphertext, rng.nonces.tail.head⟩, ratchet',
    rng.nonces.tail.tail, ?_, hdh', ⟨hheader, hbody⟩⟩
  rw [Primitives.encryptMessage, run_bind_ok (preparePqStep_run hdue)]
  have hheader' : S.P.encrypt session.sendingHeaderKey rng.nonces.head
      { dhPublic := S.dhPublic (m + 1), messageNumber := UInt32.ofNat n,
        previousChainLength := session.previousChainLength, kemCiphertext := none,
        kemPublic := none : MessageHeader }.toBytes [] = .ok encryptedHeader := by
    rw [hkey, hbefore]
    exact hheader
  simp only [EStateM.run_bind, onDhRatchet, run_onPart, hratchet, run_modifySession,
    EStateM.run_get, Primitives.encryptHeader, run_generateNonce, hheader', run_check, hbody,
    hsucc, EStateM.run_pure]

/-- **Encrypting** in a turn other than the receiver's first: a genuine message. -/
theorem At.encryptMessage_run (h : S.P.Correct) (hat : S.At session (m + 1) n prev k)
    (hdue : session.pqDue = false) (plaintext : List UInt8) (rng : OsRng) :
    ∃ message session' rng', (S.P.encryptMessage plaintext).run (session, rng) =
        .ok message (session', rng') ∧
      rng'.x25519 = rng.x25519 ∧ S.At session' (m + 1) (n + 1) prev k ∧
      S.Genuine (m + 1) n prev message plaintext ∧ SamePq session session' := by
  have hsending := hat.sendingKey (Nat.succ_pos m)
  obtain ⟨message, ratchet', nonces, hrun, hdh, hg⟩ :=
    encryptMessage_eq h hat.dhAt hsending hat.sentBefore hdue plaintext rng
  refine ⟨message, _, _, hrun, rfl, ?_, hg, rfl, rfl⟩
  exact { hat with
    dhAt := hdh
    sent := rfl
    start := fun hzero => absurd hzero (Nat.succ_ne_zero m) }

/-! ## Receiving a genuine message -/

section Receiving

variable {message : EncryptedMessage} {i before : ℕ}

theorem Genuine.tryDecrypt_eq (h : S.P.Correct) (hg : S.Genuine m i before message plaintext) :
    S.P.tryDecryptHeaderWithKey (S.header m) message = some (S.headerAt m i before) := by
  rw [Primitives.tryDecryptHeaderWithKey, Primitives.decryptHeader_eq h hg.header]
  rfl

theorem Genuine.tryDecrypt_other (h : S.P.Committing) (hg : S.Genuine m i before message plaintext)
    {key : Key} (hne : key ≠ S.header m) : S.P.tryDecryptHeaderWithKey key message = none := by
  obtain ⟨e, herror⟩ := Primitives.decryptHeader_other h hg.header hne
  rw [Primitives.tryDecryptHeaderWithKey, herror]
  rfl

/-- **A message of the peer's next turn** is seen to start it. -/
theorem At.detect_next (h : S.P.Committing) (hat : S.At session m n prev k)
    (hg : S.Genuine (m + 1) i before message plaintext) :
    S.P.tryDecryptHeaderAndDetectRatchet session message =
      .ok (S.headerAt (m + 1) i before, true) := by
  have hopen := hg.tryDecrypt_eq h
  unfold Primitives.tryDecryptHeaderAndDetectRatchet
  by_cases hkey : session.nextReceivingHeaderKey = S.header (m + 1)
  · rw [hkey, hopen]
  · -- only the receiver that has not heard anything: the first header key is its current one
    cases m with
    | zero =>
      have hcurrent : session.receivingHeaderKey = S.header 1 := hat.receivingKey zero_ne_one
      have hremote : session.dhRatchet.remotePublic = none := hat.dhAt.remote
      rw [hg.tryDecrypt_other h hkey, hcurrent, hopen]
      simp [hremote]
    | succ m =>
      have hmax : max (m + 1) 1 + 1 = m + 1 + 1 := by omega
      exact absurd (hmax ▸ hat.nextReceiving) hkey

/-- **A message of the peer's turn** is seen not to start one. -/
theorem At.detect_current (h : S.P.Committing) (hdistinct : S.Distinct)
    (hat : S.At session (m + 2) n prev k) (hg : S.Genuine (m + 1) i before message plaintext) :
    S.P.tryDecryptHeaderAndDetectRatchet session message =
      .ok (S.headerAt (m + 1) i before, false) := by
  have hnext : session.nextReceivingHeaderKey ≠ S.header (m + 1) := by
    have hmax : max (m + 2) 1 + 1 = m + 3 := by omega
    rw [hat.nextReceiving, hmax]
    exact (hdistinct.after m).symm
  unfold Primitives.tryDecryptHeaderAndDetectRatchet
  rw [hg.tryDecrypt_other h hnext]
  cases m with
  | zero =>
    -- the receiver's first turn: the first header key is the previous one
    have hcurrent : session.receivingHeaderKey ≠ S.header 1 := by
      rw [hat.receivingKey (by decide)]
      exact hdistinct.first.symm
    rw [hg.tryDecrypt_other h hcurrent, hat.previousKey rfl]
    simp [hg.tryDecrypt_eq h]
  | succ m =>
    have hcurrent : session.receivingHeaderKey = S.header (m + 1 + 1) := by
      have hmax : max (m + 1 + 2 - 1) 2 = m + 1 + 1 := by omega
      rw [hat.receivingKey (by omega), if_neg (by omega), hmax]
    have hremote : session.dhRatchet.remotePublic = some (S.dhPublic (m + 1 + 1)) := hat.dhAt.remote
    rw [hcurrent, hg.tryDecrypt_eq h]
    simp [hremote, headerAt]

theorem trySkippedKeys_run {P : Primitives} (h : session.skippedKeys = ∅) :
    (P.trySkippedKeys message).run (session, rng) = .ok none (session, rng) := by
  have hempty : session.skippedKeys.keys.isEmpty = true := by
    rw [h]
    rfl
  simp only [Primitives.trySkippedKeys, EStateM.run_bind, EStateM.run_get, hempty, if_true]
  rfl

theorem At.saveRemainingKeys_run (hat : S.At session m n prev k) :
    (S.P.saveRemainingKeys (S.headerAt (m + 1) i k)).run (session, rng) = .ok () (session, rng) := by
  have hskip := hat.dhAt.skipRemainingReceivingKeys_run rng
  unfold Primitives.saveRemainingKeys
  rw [EStateM.run_bind, EStateM.run_get]
  dsimp only
  cases session.dhRatchet.remotePublic with
  | none => rfl
  | some oldRemote =>
    simp only [EStateM.run_bind, onDhRatchet, run_onPart, headerAt, hskip, run_modifySession]
    rfl

/-- **Following the peer** into its next turn, all messages of its turn before received. -/
theorem At.followRatchet_run (h : S.P.Correct) (hat : S.At session m n prev k)
    (hrng : rng.x25519 = S.secrets.drop (m + 2)) :
    ∃ session', (S.P.followRatchet (S.headerAt (m + 1) i k)).run (session, rng) =
        .ok () (session', { rng with x25519 := S.secrets.drop (m + 3) }) ∧
      S.At session' (m + 2) 0 n 0 ∧ SamePq session session' := by
  obtain ⟨ratchet', hstep, hdh⟩ := hat.dhAt.ratchetStep_run h hrng
  refine ⟨
    { session.rotateHeaderKeys with
      dhRatchet := ratchet'
      dhStepsSincePq := session.dhStepsSincePq + 1
      nextReceivingHeaderKey := S.header (m + 3)
      nextSendingHeaderKey := S.header (m + 4)
      previousChainLength := session.sendingMessageNumber
      sendingMessageNumber := 0 }, ?_, ?_, rfl, rfl⟩
  · rw [Primitives.followRatchet, run_bind_ok hat.saveRemainingKeys_run]
    have hrotate : session.rotateHeaderKeys.dhRatchet = session.dhRatchet := rfl
    simp only [EStateM.run_bind, run_modifySession, onDhRatchet, run_onPart, hrotate, headerAt,
      hstep]
    rfl
  · exact {
      dhAt := hdh
      sendingKey := fun _ => hat.nextSending
      nextSending := rfl
      nextReceiving := by
        have hmax : max (m + 2) 1 + 1 = m + 3 := by omega
        rw [hmax]
      receivingKey := fun _ => by
        have hmax : max (m + 2 - 1) 2 = max m 1 + 1 := by omega
        rw [if_neg (by omega), hmax]
        exact hat.nextReceiving
      previousKey := fun hm => by
        obtain rfl : m = 0 := by omega
        exact congrArg some (hat.receivingKey zero_ne_one)
      skipped := hat.skipped
      sent := rfl
      sentBefore := hat.sent
      steps := by
        have hsteps : (m + 2) / 2 = m / 2 + 1 := by omega
        rw [hsteps, UInt32.ofNat_add, ← hat.steps]
        rfl
      start := fun hm => by omega
      unheard := fun hm => by omega
      fresh := fun hm => hat.start (by omega) }

/-- **The body** of the next message of the peer's turn. -/
theorem At.decryptBody_run (h : S.P.Correct) (hat : S.At session (m + 2) n prev k)
    (hg : S.Genuine (m + 1) k before message plaintext) (rng : OsRng) :
    ∃ session', (S.P.decryptBody (S.headerAt (m + 1) k before) message).run (session, rng) =
        .ok plaintext (session', rng) ∧
      S.At session' (m + 2) n prev (k + 1) ∧ SamePq session session' := by
  obtain ⟨ratchet', hkey, hdh⟩ := hat.dhAt.receiveMessageKey_run rng
  have hbody := Primitives.decrypt_encrypt h hg.body
  refine ⟨{ session with dhRatchet := ratchet' }, ?_, ?_, rfl, rfl⟩
  · simp only [Primitives.decryptBody, EStateM.run_bind, onDhRatchet, run_onPart, headerAt, hkey,
      run_modifySession, TripleRatchetSession.storeSkippedKeys, List.foldl_nil, run_check, hbody]
  · exact { hat with
      dhAt := hdh
      unheard := fun hm => by omega }

/-- **Decrypting** the next message of the peer's turn. -/
theorem At.decryptMessage_current (h : S.P.Committing) (hdistinct : S.Distinct)
    (hat : S.At session (m + 2) n prev k) (hg : S.Genuine (m + 1) k before message plaintext)
    (rng : OsRng) :
    ∃ session', (S.P.decryptMessage message).run (session, rng) = .ok plaintext (session', rng) ∧
      S.At session' (m + 2) n prev (k + 1) ∧ SamePq session session' := by
  obtain ⟨session', hbody, hat', hpq⟩ := hat.decryptBody_run h hg rng
  refine ⟨session', ?_, hat', hpq⟩
  rw [Primitives.decryptMessage, run_bind_ok (trySkippedKeys_run hat.skipped)]
  simp only [EStateM.run_bind, EStateM.run_get, hat.detect_current h hdistinct hg, run_check]
  exact hbody

/-- **Decrypting** the first message of the peer's next turn, all messages of its turn before
received. -/
theorem At.decryptMessage_next (h : S.P.Committing) (hat : S.At session m n prev k)
    (hg : S.Genuine (m + 1) 0 k message plaintext)
    (hrng : rng.x25519 = S.secrets.drop (m + 2)) :
    ∃ session' rng', (S.P.decryptMessage message).run (session, rng) =
        .ok plaintext (session', rng') ∧
      rng'.x25519 = S.secrets.drop (m + 3) ∧ S.At session' (m + 2) 0 n 1 ∧
      SamePq session session' := by
  obtain ⟨session₁, hfollow, hat₁, hpq₁⟩ := hat.followRatchet_run (i := 0) h hrng
  obtain ⟨session₂, hbody, hat₂, hpq₂⟩ := hat₁.decryptBody_run h hg
    { rng with x25519 := S.secrets.drop (m + 3) }
  refine ⟨session₂, { rng with x25519 := S.secrets.drop (m + 3) }, ?_, rfl, hat₂,
    hpq₂.1.trans hpq₁.1, hpq₂.2.trans hpq₁.2⟩
  rw [Primitives.decryptMessage, run_bind_ok (trySkippedKeys_run hat.skipped)]
  simp only [EStateM.run_bind, EStateM.run_get, hat.detect_next h hg, run_check, if_true,
    hfollow]
  exact hbody

end Receiving

end KeySchedule

end Pirc.Crypto
