import Pirc.Crypto.PqAgreement

/-!
# Crypto: messages that cannot be decrypted

Decrypting changes a session step by step, and authenticates the body last. A message that is
refused before the first change leaves the session as it was: no header key opens it, its number is
out of reach, too many messages before it are missing, or its post-quantum step cannot be completed.
A message whose header is fine and whose body is not uses up a key.
-/

namespace Pirc.Crypto

open KeySchedule

/-- Whether a public key is of low order does not depend on the secret it is used with. -/
def LowOrderShared (P : Primitives) : Prop :=
  ∀ secret secret' publicKey, (P.x25519 secret publicKey).val = List.replicate 32 0 →
    (P.x25519 secret' publicKey).val = List.replicate 32 0

def LowOrder (P : Primitives) (session : TripleRatchetSession) (publicKey : PublicKey) : Prop :=
  (P.x25519 session.dhRatchet.dhPair.secret publicKey).val = List.replicate 32 0

/-- The cached key that a message takes out of the session. -/
def cachedKey (P : Primitives) (session : TripleRatchetSession) (message : EncryptedMessage) :
    Option MessageHeader :=
  (P.tryHeaderKeys session message).filter fun header =>
    (session.skippedKeys.lookup (header.dhPublic, header.messageNumber)).isSome

/-- **A chain reaches** a message if it is one of the next thousand. -/
def Reaches (chain : SymmetricRatchet) (number : UInt32) : Prop :=
  chain.messageNumber ≤ number ∧ number.toNat < chain.messageNumber.toNat + maxSkip.toNat

def ReceivingReaches (session : TripleRatchetSession) (number : UInt32) : Prop :=
  ∃ chain ∈ session.dhRatchet.receivingChain, Reaches chain number

/-- The messages of the old chain that did not arrive are too many. -/
def MissesTooMany (session : TripleRatchetSession) (header : MessageHeader) : Prop :=
  session.dhRatchet.remotePublic.isSome = true ∧ ∃ chain ∈ session.dhRatchet.receivingChain,
    chain.messageNumber.toNat + maxSkip.toNat < header.previousChainLength.toNat

def MissesNone (session : TripleRatchetSession) (header : MessageHeader) : Prop :=
  session.dhRatchet.remotePublic.isSome = true → ∀ chain ∈ session.dhRatchet.receivingChain,
    header.previousChainLength ≤ chain.messageNumber

/-- The post-quantum step of a header cannot be completed. -/
def StepFails (P : Primitives) (session : TripleRatchetSession) (header : MessageHeader) : Prop :=
  ∃ ciphertext ∈ header.kemCiphertext,
    P.kemDecapsulate session.pqRatchet.kemPair.dk ciphertext = none

/-- **A message that leaves the session alone** when it is refused: there is no cached key for it,
and no header key opens it; or it starts a new DH step, and too many messages before it are missing,
or else its public key is of low order and there is nothing to keep of the old step; or it does not,
and its post-quantum step cannot be completed, or it brings none and the chain does not reach it. -/
def LeavesAlone (P : Primitives) (session : TripleRatchetSession) (message : EncryptedMessage) : Prop :=
  cachedKey P session message = none ∧
    match P.tryDecryptHeaderAndDetectRatchet session message with
    | .error _ => True
    | .ok (header, true) =>
      MissesTooMany session header ∨
        LowOrder P session header.dhPublic ∧ MissesNone session header ∧
          session.rotateHeaderKeys = session
    | .ok (header, false) =>
      if header.kemCiphertext.isSome = true ∧ header.kemPublic.isSome = true then
        StepFails P session header
      else ¬ ReceivingReaches session header.messageNumber

variable {P : Primitives} {session session' : TripleRatchetSession} {rng rng' : OsRng}
  {header : MessageHeader} {message : EncryptedMessage} {chain : SymmetricRatchet} {number : UInt32}

/-! ## Chains -/

theorem messageNumber_advanceN (n : ℕ) (chain : SymmetricRatchet) :
    (P.advanceN n chain).2.messageNumber = chain.messageNumber + UInt32.ofNat n := by
  induction n generalizing chain with
  | zero => simp [Primitives.advanceN]
  | succ n ih =>
    rw [Primitives.advanceN]
    dsimp only
    rw [ih]
    simp only [Primitives.advance, UInt32.ofNat_add, UInt32.add_assoc]
    rw [UInt32.add_comm 1]
    rfl

theorem add_ofNat_ne {n : UInt32} {k : ℕ} (hpos : 0 < k) (hlt : k < 2 ^ 32) :
    n + UInt32.ofNat k ≠ n := by
  intro heq
  have hzero : UInt32.ofNat k = 0 := by simpa using heq
  have hnat := congrArg UInt32.toNat hzero
  rw [toNat_number hlt] at hnat
  simp at hnat
  omega

theorem toNat_skipCount (h : chain.messageNumber ≤ number) :
    (number - chain.messageNumber + 1).toNat =
      (number.toNat - chain.messageNumber.toNat + 1) % 2 ^ 32 := by
  have hone : (1 : UInt32).toNat = 1 := rfl
  rw [UInt32.toNat_add, UInt32.toNat_sub_of_le _ _ h, hone]

/-- **Skipping to a message** that the chain reaches advances the chain. -/
theorem skipTo_reaches (h : Reaches chain number) (rng : OsRng) :
    ∃ keys chain', (P.skipTo number).run (chain, rng) = .ok keys (chain', rng) ∧ keys ≠ [] ∧
      chain'.messageNumber ≠ chain.messageNumber := by
  obtain ⟨hle, hlt⟩ := h
  have hmax : maxSkip.toNat = 1000 := rfl
  have hleNat : chain.messageNumber.toNat ≤ number.toNat := UInt32.le_iff_toNat_le.mp hle
  have hcount := toNat_skipCount hle
  have hnot : ¬ number < chain.messageNumber := UInt32.not_lt.mpr hle
  have hwithin : ¬ maxSkip < number - chain.messageNumber + 1 := by
    rw [UInt32.lt_iff_toNat_lt]
    omega
  refine ⟨(P.advanceN (number - chain.messageNumber + 1).toNat chain).1,
    (P.advanceN (number - chain.messageNumber + 1).toNat chain).2, ?_, ?_, ?_⟩
  · simp only [Primitives.skipTo, EStateM.run_bind, EStateM.run_get, hnot, if_false, hwithin]
    rfl
  · intro hnil
    have hlength := P.length_advanceN (number - chain.messageNumber + 1).toNat chain
    rw [hnil, List.length_nil] at hlength
    omega
  · rw [messageNumber_advanceN]
    exact add_ofNat_ne (by omega) (by omega)

theorem skipTo_not_reaches (h : ¬ Reaches chain number) (rng : OsRng) :
    (∃ e, (P.skipTo number).run (chain, rng) = .error e (chain, rng)) ∨
      number - chain.messageNumber + 1 = 0 ∧
        (P.skipTo number).run (chain, rng) = .ok [] (chain, rng) := by
  by_cases hback : number < chain.messageNumber
  · left
    simp only [Primitives.skipTo, EStateM.run_bind, EStateM.run_get, hback, if_true]
    exact ⟨_, rfl⟩
  by_cases hfar : maxSkip < number - chain.messageNumber + 1
  · left
    simp only [Primitives.skipTo, EStateM.run_bind, EStateM.run_get, hback, hfar, if_false, if_true]
    exact ⟨_, rfl⟩
  · right
    -- the count of messages overflows
    have hle : chain.messageNumber ≤ number := UInt32.not_lt.mp hback
    have hleNat : chain.messageNumber.toNat ≤ number.toNat := UInt32.le_iff_toNat_le.mp hle
    have hmax : maxSkip.toNat = 1000 := rfl
    have hnumber : number.toNat < 2 ^ 32 := number.toNat_lt
    have hcount := toNat_skipCount hle
    have hout : chain.messageNumber.toNat + maxSkip.toNat ≤ number.toNat := by
      by_contra hlt
      exact h ⟨hle, by omega⟩
    rw [UInt32.lt_iff_toNat_lt] at hfar
    have hzeroNat : (number - chain.messageNumber + 1).toNat = 0 := by omega
    have hzero : number - chain.messageNumber + 1 = 0 := UInt32.toNat_inj.mp hzeroNat
    have hfar' : ¬ maxSkip < 0 := by decide
    refine ⟨hzero, ?_⟩
    simp only [Primitives.skipTo, EStateM.run_bind, EStateM.run_get, hback, if_false, hzero, hfar']
    rfl

/-! ## The parts of decrypting -/

theorem wp_check {σ α : Type} {Q : α → σ × OsRng → Prop} {E : CryptoError → σ × OsRng → Prop}
    {s : σ × OsRng} (x : Except CryptoError α) :
    wp (check x) Q E s ↔ match x with
      | .ok a => Q a s
      | .error e => E e s := by
  rcases x with e | a
  · rfl
  · rfl

theorem trySkippedKeys_wp (message : EncryptedMessage) (s : TripleRatchetSession × OsRng) :
    wp (P.trySkippedKeys message)
      (fun result t => result = none → cachedKey P s.1 message = none ∧ t = s)
      (fun _ t => cachedKey P s.1 message ≠ none ∧ t.1 ≠ s.1) s := by
  obtain ⟨session, rng⟩ := s
  unfold Primitives.trySkippedKeys cachedKey
  rw [wp_bind, wp_get]
  dsimp only
  split_ifs with hempty
  · -- nothing is cached
    have hnone : ∀ name, session.skippedKeys.lookup name = none := by
      intro name
      rw [AList.lookup_eq_none, AList.mem_keys, List.isEmpty_iff.mp hempty]
      exact List.not_mem_nil
    rcases P.tryHeaderKeys session message with - | header
    · exact fun _ => ⟨rfl, rfl⟩
    · refine fun _ => ⟨?_, rfl⟩
      rw [Option.filter_some, hnone]
      rfl
  · rcases P.tryHeaderKeys session message with - | header
    · exact fun _ => ⟨rfl, rfl⟩
    · dsimp only
      rw [Option.filter_some]
      rcases hlookup : session.skippedKeys.lookup (header.dhPublic, header.messageNumber) with - | skipped
      · exact fun _ => ⟨rfl, rfl⟩
      · unfold wp
        rw [EStateM.run_bind, run_modifySession]
        dsimp only
        rw [EStateM.run_bind, run_check]
        rcases P.decrypt skipped.key message.bodyNonce message.ciphertext message.encryptedHeader with
          e | plaintext
        · refine ⟨by simp, fun hsame => ?_⟩
          have hkeys := congrArg (fun session => AList.lookup (header.dhPublic,
            header.messageNumber) session.skippedKeys) hsame
          rw [AList.lookup_erase] at hkeys
          cases hkeys.trans hlookup
        · rintro ⟨⟩

theorem dhRatchet_storeSkippedKeys (session : TripleRatchetSession) (dhPublic : PublicKey)
    (keys : List (UInt32 × Key)) :
    (session.storeSkippedKeys dhPublic keys).dhRatchet = session.dhRatchet := by
  induction keys generalizing session with
  | nil => rfl
  | cons first rest ih => exact ih (session.storeSkippedKey dhPublic first.1 first.2)

/-- **The rest of the old chain**: its keys are collected, unless there is none or they are too
many. -/
theorem skipRemainingReceivingKeys_run (ratchet : DhRatchetState) (upTo : UInt32) (rng : OsRng) :
    ((∃ chain ∈ ratchet.receivingChain, chain.messageNumber.toNat + maxSkip.toNat < upTo.toNat) ∧
      ∃ e, (P.skipRemainingReceivingKeys upTo).run (ratchet, rng) = .error e (ratchet, rng)) ∨
    (∀ chain ∈ ratchet.receivingChain, upTo ≤ chain.messageNumber) ∧
      (P.skipRemainingReceivingKeys upTo).run (ratchet, rng) = .ok [] (ratchet, rng) ∨
    ∃ chain ∈ ratchet.receivingChain, chain.messageNumber < upTo ∧
      upTo.toNat ≤ chain.messageNumber.toNat + maxSkip.toNat ∧ ∃ keys chain',
        (P.skipRemainingReceivingKeys upTo).run (ratchet, rng) =
          .ok keys ({ ratchet with receivingChain := some chain' }, rng) ∧
        chain'.messageNumber ≠ chain.messageNumber := by
  unfold Primitives.skipRemainingReceivingKeys
  rw [EStateM.run_bind, EStateM.run_get]
  dsimp only
  rcases hchain : ratchet.receivingChain with - | chain
  · exact .inr (.inl ⟨by simp, rfl⟩)
  dsimp only
  split_ifs with hle
  · exact .inr (.inl ⟨by simpa using hle, rfl⟩)
  have hmax : maxSkip.toNat = 1000 := rfl
  have hlt : chain.messageNumber < upTo := UInt32.not_le.mp hle
  have hltNat := UInt32.lt_iff_toNat_lt.mp hlt
  have hupTo : upTo.toNat < 2 ^ 32 := upTo.toNat_lt
  have hone : (1 : UInt32).toNat = 1 := rfl
  have hlast : (upTo - 1).toNat = upTo.toNat - 1 := by
    rw [UInt32.toNat_sub_of_le _ _ (UInt32.le_iff_toNat_le.mpr (by omega)), hone]
  have hfrom : chain.messageNumber ≤ upTo - 1 := by
    rw [UInt32.le_iff_toNat_le]
    omega
  unfold Primitives.onReceivingChain
  rw [run_onPart]
  by_cases hreaches : Reaches chain (upTo - 1)
  · obtain ⟨keys, chain', hrun, -, hne⟩ := skipTo_reaches (P := P) hreaches rng
    obtain ⟨-, hwithin⟩ := hreaches
    refine .inr (.inr ⟨chain, rfl, hlt, by omega, keys, chain', ?_, hne⟩)
    rw [hrun]
  · left
    have hfar : chain.messageNumber.toNat + maxSkip.toNat < upTo.toNat := by
      by_contra hnear
      exact hreaches ⟨hfrom, by omega⟩
    refine ⟨⟨chain, rfl, hfar⟩, ?_⟩
    rcases skipTo_not_reaches (P := P) hreaches rng with ⟨e, hrun⟩ | ⟨hzero, -⟩
    · refine ⟨e, ?_⟩
      rw [hrun]
      dsimp only
      rw [← hchain]
    · -- the count does not overflow here
      have hcount := toNat_skipCount hfrom
      rw [hzero] at hcount
      have hzeroNat : (0 : UInt32).toNat = 0 := rfl
      omega

theorem saveRemainingKeys_wp (header : MessageHeader) (s : TripleRatchetSession × OsRng) :
    wp (P.saveRemainingKeys header)
      (fun _ t => ¬ MissesTooMany s.1 header ∧ (MissesNone s.1 header → t = s) ∧
        (¬ MissesNone s.1 header → t.1.dhRatchet.receivingChain ≠ s.1.dhRatchet.receivingChain) ∧
        t.1.dhRatchet.stepCount = s.1.dhRatchet.stepCount ∧
        t.1.dhRatchet.dhPair = s.1.dhRatchet.dhPair)
      (fun _ t => MissesTooMany s.1 header ∧ t = s) s := by
  obtain ⟨session, rng⟩ := s
  unfold Primitives.saveRemainingKeys MissesTooMany MissesNone
  rw [wp_bind, wp_get]
  dsimp only
  rcases hremote : session.dhRatchet.remotePublic with - | oldRemote
  · exact ⟨by simp, fun _ => rfl, by simp, rfl, rfl⟩
  · dsimp only
    unfold wp
    rw [EStateM.run_bind, onDhRatchet, run_onPart]
    rcases skipRemainingReceivingKeys_run (P := P) session.dhRatchet header.previousChainLength rng with
      ⟨hmany, e, hrun⟩ | ⟨hnone, hrun⟩ | ⟨chain, hchain, hlt, hwithin, keys, chain', hrun, hne⟩
    · rw [hrun]
      exact ⟨⟨rfl, hmany⟩, rfl⟩
    · rw [hrun]
      refine ⟨?_, fun _ => rfl, fun hmissing => absurd (fun _ => hnone) hmissing, rfl, rfl⟩
      rintro ⟨-, chain, hmem, hmany⟩
      have hle := UInt32.le_iff_toNat_le.mp (hnone chain hmem)
      omega
    · rw [hrun]
      dsimp only
      rw [run_modifySession]
      dsimp only
      rw [dhRatchet_storeSkippedKeys]
      refine ⟨?_, fun hall => ?_, fun _ hsame => ?_, rfl, rfl⟩
      · rintro ⟨-, chain₂, hmem, hmany⟩
        obtain rfl := Option.mem_unique hchain hmem
        omega
      · exact absurd (hall rfl chain hchain) (UInt32.not_le.mpr hlt)
      · dsimp only at hsame
        rw [hchain] at hsame
        obtain rfl := Option.some.inj hsame
        exact hne rfl

theorem ratchetStep_wp (hlow : LowOrderShared P) (publicKey : PublicKey)
    (s : DhRatchetState × OsRng) : wp (P.ratchetStep publicKey)
      (fun _ t => (P.x25519 s.1.dhPair.secret publicKey).val ≠ List.replicate 32 0 ∧
        t.1.stepCount = s.1.stepCount + 1)
      (fun _ t => (P.x25519 s.1.dhPair.secret publicKey).val = List.replicate 32 0 ∧ t = s) s := by
  obtain ⟨ratchet, rng⟩ := s
  have hroot (rootKey output : Key) : P.rootKdf rootKey output = .ok
      (extractKey (P.expand (P.extract rootKey.val output.val)
          (utf8 "pirc-dh-ratchet-root".toList) 96) 0,
        extractKey (P.expand (P.extract rootKey.val output.val)
          (utf8 "pirc-dh-ratchet-root".toList) 96) 1,
        extractKey (P.expand (P.extract rootKey.val output.val)
          (utf8 "pirc-dh-ratchet-root".toList) 96) 2) := rfl
  rw [Primitives.ratchetStep, wp_bind, wp_get]
  dsimp only
  rw [wp_bind, wp_check, Primitives.diffieHellmanKeypair]
  by_cases hzero : (P.x25519 ratchet.dhPair.secret publicKey).val = List.replicate 32 0
  · rw [if_pos hzero]
    exact ⟨hzero, rfl⟩
  · rw [if_neg hzero]
    -- the second agreement succeeds as the first one did
    have hother : (P.x25519 rng.x25519.head publicKey).val ≠ List.replicate 32 0 :=
      fun hother => hzero (hlow _ _ _ hother)
    have hagree : P.diffieHellmanKeypair ⟨rng.x25519.head⟩ publicKey =
        .ok (P.x25519 rng.x25519.head publicKey) := if_neg hother
    simp only [wp_bind, wp_check, hroot, wp_modify]
    unfold wp
    rw [run_generateKeyPair]
    dsimp only
    simp only [hagree]
    exact ⟨hzero, rfl⟩

/-- **A new DH step**: once it is taken, the steps are one more. -/
theorem followRatchet_wp (hlow : LowOrderShared P) (header : MessageHeader)
    (s : TripleRatchetSession × OsRng) :
    wp (P.followRatchet header)
      (fun _ t => ¬ MissesTooMany s.1 header ∧ ¬ LowOrder P s.1 header.dhPublic ∧
        t.1.dhRatchet.stepCount = s.1.dhRatchet.stepCount + 1)
      (fun _ t => t.1 = s.1 ↔ MissesTooMany s.1 header ∨
        LowOrder P s.1 header.dhPublic ∧ MissesNone s.1 header ∧ s.1.rotateHeaderKeys = s.1) s := by
  rw [Primitives.followRatchet, wp_bind]
  refine wp_mono ?_ ?_ (saveRemainingKeys_wp header s)
  · rintro - ⟨session, rng⟩ ⟨hwithin, hnone, hmissing, hcount, hpair⟩
    have hstep := ratchetStep_wp hlow header.dhPublic (session.rotateHeaderKeys.dhRatchet, rng)
    unfold wp at hstep ⊢
    rw [EStateM.run_bind, run_modifySession]
    dsimp only
    rw [EStateM.run_bind, onDhRatchet, run_onPart]
    have hsecret : session.rotateHeaderKeys.dhRatchet.dhPair = s.1.dhRatchet.dhPair := hpair
    rcases hrun : (P.ratchetStep header.dhPublic).run (session.rotateHeaderKeys.dhRatchet, rng) with
      ⟨keys, ratchet, rng'⟩ | ⟨e, ratchet, rng'⟩
    · rw [hrun] at hstep
      obtain ⟨hnotLow, hnext⟩ := hstep
      rw [hsecret] at hnotLow
      dsimp only
      rw [run_modifySession]
      refine ⟨hwithin, hnotLow, ?_⟩
      rw [← hcount]
      exact hnext
    · rw [hrun] at hstep
      obtain ⟨hzero, hsame⟩ := hstep
      obtain ⟨rfl, rfl⟩ := Prod.mk.inj hsame
      rw [hsecret] at hzero
      dsimp only
      by_cases hall : MissesNone s.1 header
      · obtain rfl := hnone hall
        have hlowOrder : LowOrder P session header.dhPublic := hzero
        have heta : ({ session.rotateHeaderKeys with
            dhRatchet := session.rotateHeaderKeys.dhRatchet } : TripleRatchetSession) =
              session.rotateHeaderKeys := rfl
        rw [heta]
        exact ⟨fun h => .inr ⟨hlowOrder, hall, h⟩, fun h => h.elim (absurd · hwithin) (·.2.2)⟩
      · refine iff_of_false (fun hback => hmissing hall ?_) ?_
        · exact congrArg (fun session => session.dhRatchet.receivingChain) hback
        · rintro (hmany | ⟨-, hnone, -⟩)
          · exact hwithin hmany
          · exact hall hnone
  · rintro e t ⟨hmany, rfl⟩
    exact iff_of_true rfl (.inl hmany)

/-- **A post-quantum step**: once it is completed, the steps are one more. -/
theorem followPqStep_wp (header : MessageHeader) (s : TripleRatchetSession × OsRng) :
    wp (P.followPqStep header)
      (fun _ t => t.1.dhRatchet = s.1.dhRatchet ∧
        if header.kemCiphertext.isSome = true ∧ header.kemPublic.isSome = true then
          ¬ StepFails P s.1 header ∧ t.1.pqRatchet.stepCounter = s.1.pqRatchet.stepCounter + 1
        else t = s)
      (fun _ t => (header.kemCiphertext.isSome = true ∧ header.kemPublic.isSome = true) ∧
        StepFails P s.1 header ∧ t = s) s := by
  obtain ⟨session, rng⟩ := s
  unfold Primitives.followPqStep StepFails
  split
  · next ciphertext newPk hciphertext hpublic =>
    have hmix (chainKey secret : Key) : P.mixSecret chainKey secret =
        .ok (P.expand (P.extract chainKey.val secret.val)
          (utf8 "pirc-pq-ratchet-chain".toList) 32) := rfl
    unfold wp
    rw [onPqRatchet, run_onPart]
    simp only [Primitives.completeStep, EStateM.run_bind, EStateM.run_get, run_check,
      Primitives.decapsulate, hciphertext, hpublic]
    rcases hkem : P.kemDecapsulate session.pqRatchet.kemPair.dk ciphertext with - | secret
    · exact ⟨⟨rfl, rfl⟩, ⟨ciphertext, rfl, hkem⟩, rfl⟩
    · dsimp only
      rw [hmix]
      simp only [Primitives.run_generateKemKeyPair, EStateM.run_modify]
      refine ⟨trivial, ?_⟩
      rw [if_pos ⟨rfl, rfl⟩]
      refine ⟨?_, trivial⟩
      rintro ⟨other, hother, hfails⟩
      obtain rfl := Option.some.inj hother
      cases hkem.symm.trans hfails
  · next hnone =>
    refine ⟨rfl, ?_⟩
    rw [if_neg]
    rintro ⟨hciphertext, hpublic⟩
    obtain ⟨ciphertext, hciphertext⟩ := Option.isSome_iff_exists.mp hciphertext
    obtain ⟨newPk, hpublic⟩ := Option.isSome_iff_exists.mp hpublic
    exact hnone _ _ hciphertext hpublic

/-- **The key of a message** advances the chain. -/
theorem receiveMessageKey_wp (number : UInt32) (s : DhRatchetState × OsRng) :
    wp (P.receiveMessageKey number)
      (fun _ t => (∃ chain ∈ s.1.receivingChain, Reaches chain number) ∧
        t.1.receivingChain ≠ s.1.receivingChain ∧ t.1.stepCount = s.1.stepCount)
      (fun _ t => (¬ ∃ chain ∈ s.1.receivingChain, Reaches chain number) ∧ t = s) s := by
  obtain ⟨ratchet, rng⟩ := s
  unfold Primitives.receiveMessageKey
  rw [wp_bind, wp_get]
  dsimp only
  rcases hchain : ratchet.receivingChain with - | chain
  · exact ⟨by simp, rfl⟩
  dsimp only
  have hmax : maxSkip.toNat = 1000 := rfl
  split_ifs with hback hcurrent
  · -- the message is behind
    refine ⟨?_, rfl⟩
    rintro ⟨other, hother, hle, -⟩
    obtain rfl := Option.some.inj hother
    exact UInt32.not_lt.mpr hle hback
  · subst hcurrent
    refine ⟨⟨chain, rfl, UInt32.le_refl _, by omega⟩, fun hsame => ?_, rfl⟩
    have hnumber := congrArg SymmetricRatchet.messageNumber (Option.some.inj hsame)
    exact add_ofNat_ne (k := 1) (by decide) (by decide) hnumber
  · unfold wp
    rw [EStateM.run_bind, Primitives.onReceivingChain, run_onPart]
    by_cases hreaches : Reaches chain number
    · obtain ⟨keys, chain', hrun, hne, hadvanced⟩ := skipTo_reaches (P := P) hreaches rng
      rw [hrun]
      dsimp only
      obtain ⟨last, hlast⟩ := Option.isSome_iff_exists.mp (List.getLast?_isSome.mpr hne)
      rw [hlast]
      refine ⟨⟨chain, rfl, hreaches⟩, fun hsame => ?_, rfl⟩
      obtain rfl := Option.some.inj hsame
      exact hadvanced rfl
    · have hnot : ¬ ∃ other ∈ some chain, Reaches other number := by
        rintro ⟨other, hother, hreach⟩
        obtain rfl := Option.some.inj hother
        exact hreaches hreach
      rcases skipTo_not_reaches (P := P) hreaches rng with ⟨e, hrun⟩ | ⟨-, hrun⟩
      · rw [hrun]
        dsimp only
        rw [← hchain]
        exact ⟨hchain ▸ hnot, rfl⟩
      · rw [hrun]
        dsimp only
        rw [← hchain]
        exact ⟨hchain ▸ hnot, rfl⟩

/-- **The body**: a key that was found is used up. -/
theorem decryptBody_wp (header : MessageHeader) (message : EncryptedMessage)
    (s : TripleRatchetSession × OsRng) :
    wp (P.decryptBody header message) (fun _ _ => True)
      (fun _ t => t.1.dhRatchet.stepCount = s.1.dhRatchet.stepCount ∧ t.1.pqRatchet = s.1.pqRatchet ∧
        (t.1 = s.1 ↔ ¬ ReceivingReaches s.1 header.messageNumber)) s := by
  obtain ⟨session, rng⟩ := s
  have hkey := receiveMessageKey_wp (P := P) header.messageNumber (session.dhRatchet, rng)
  unfold wp at hkey ⊢
  rw [Primitives.decryptBody, EStateM.run_bind, onDhRatchet, run_onPart]
  rcases hrun : (P.receiveMessageKey header.messageNumber).run (session.dhRatchet, rng) with
    ⟨keys, ratchet, rng'⟩ | ⟨e, ratchet, rng'⟩
  · rw [hrun] at hkey
    obtain ⟨hreaches, hadvanced, hcount⟩ := hkey
    dsimp only
    rw [EStateM.run_bind, run_modifySession]
    dsimp only
    rw [run_check]
    rcases P.decrypt keys.1 message.bodyNonce message.ciphertext message.encryptedHeader with
      e | plaintext
    · dsimp only
      refine ⟨?_, (samePq_storeSkippedKeys _ _ _).1, iff_of_false ?_ (not_not.mpr hreaches)⟩
      · rw [dhRatchet_storeSkippedKeys]
        exact hcount
      · intro hsame
        have hratchet := congrArg TripleRatchetSession.dhRatchet hsame
        rw [dhRatchet_storeSkippedKeys] at hratchet
        exact hadvanced (congrArg DhRatchetState.receivingChain hratchet)
    · trivial
  · rw [hrun] at hkey
    obtain ⟨hnot, hsame⟩ := hkey
    obtain ⟨rfl, rfl⟩ := Prod.mk.inj hsame
    exact ⟨rfl, rfl, iff_of_true rfl hnot⟩

/-! ## Messages that are refused -/

theorem add_one_ne (n : UInt32) : n + 1 ≠ n := add_ofNat_ne (k := 1) (by decide) (by decide)

theorem sameStep_wp (header : MessageHeader) (message : EncryptedMessage)
    (s : TripleRatchetSession × OsRng) :
    wp (P.followPqStep header >>= fun _ => P.decryptBody header message) (fun _ _ => True)
      (fun _ t => t.1.dhRatchet.stepCount = s.1.dhRatchet.stepCount ∧ (t.1 = s.1 ↔
        if header.kemCiphertext.isSome = true ∧ header.kemPublic.isSome = true then
          StepFails P s.1 header
        else ¬ ReceivingReaches s.1 header.messageNumber)) s := by
  rw [wp_bind]
  refine wp_mono ?_ ?_ (followPqStep_wp header s)
  · rintro - t ⟨hratchet, hstep⟩
    refine wp_mono (fun _ _ _ => trivial) ?_ (decryptBody_wp header message t)
    rintro e r ⟨hcount, hpq, hsame⟩
    refine ⟨hcount.trans (congrArg DhRatchetState.stepCount hratchet), ?_⟩
    split_ifs at hstep ⊢ with hbrings
    · -- the step was completed
      obtain ⟨hnot, hnext⟩ := hstep
      refine iff_of_false (fun hback => ?_) hnot
      rw [← hpq, hback] at hnext
      exact add_one_ne _ hnext.symm
    · obtain rfl := hstep
      exact hsame
  · rintro e t ⟨hbrings, hfails, rfl⟩
    refine ⟨rfl, ?_⟩
    rw [if_pos hbrings]
    exact iff_of_true rfl hfails

/-- **A message that cannot be decrypted** leaves the session as it was exactly if it is refused
before anything is changed. -/
theorem failed_unchanged_iff (hlow : LowOrderShared P) {e : CryptoError}
    (hrun : (P.decryptMessage message).run (session, rng) = .error e (session', rng')) :
    session' = session ↔ LeavesAlone P session message := by
  have hwp : wp (P.decryptMessage message) (fun _ _ => True)
      (fun _ t => t.1 = session ↔ LeavesAlone P session message) (session, rng) := by
    unfold LeavesAlone
    rw [Primitives.decryptMessage, wp_bind]
    refine wp_mono ?_ ?_ (trySkippedKeys_wp message (session, rng))
    · rintro (- | plaintext) t hnone
      · obtain ⟨hcached, rfl⟩ := hnone rfl
        dsimp only
        rw [wp_bind, wp_get]
        dsimp only
        rw [wp_bind, wp_check, hcached]
        rcases P.tryDecryptHeaderAndDetectRatchet session message with e | ⟨header, - | -⟩
        · exact iff_of_true rfl ⟨rfl, trivial⟩
        · -- the message belongs to a DH step that was taken
          refine wp_mono (fun _ _ _ => trivial) ?_ (sameStep_wp header message (session, rng))
          rintro e t ⟨-, hsame⟩
          exact hsame.trans (by simp)
        · dsimp only
          rw [if_pos rfl, wp_bind]
          refine wp_mono ?_ ?_ (followRatchet_wp hlow header (session, rng))
          · rintro - t ⟨hwithin, hnotLow, hcount⟩
            refine wp_mono (fun _ _ _ => trivial) ?_ (sameStep_wp header message t)
            rintro e r ⟨hcount', -⟩
            refine iff_of_false (fun hback => ?_) ?_
            · rw [hback] at hcount'
              exact add_one_ne _ (hcount'.trans hcount).symm
            · rintro ⟨-, hmany | ⟨hlowOrder, -⟩⟩
              · exact hwithin hmany
              · exact hnotLow hlowOrder
          · rintro e t hsame
            exact hsame.trans (by simp)
      · trivial
    · rintro e t ⟨hcached, hne⟩
      exact iff_of_false hne fun h => hcached h.1
  have hlast := wp_error hwp hrun
  exact hlast

/-! ## A corrupted message -/

section Toy

theorem toyPrimitives_lowOrderShared : LowOrderShared toyPrimitives := fun _ _ _ hzero => hzero

def toyReceiver : TripleRatchetSession := toySchedule.receiverSession toyKemPair

def firstMessage : Option EncryptedMessage :=
  match (toyPrimitives.encryptMessage [1]).run
      (toySchedule.senderSession toyKemPair.ek toyKemPair, toyRng) with
  | .ok message _ => some message
  | .error _ _ => none

def attempt (session : TripleRatchetSession) (message : EncryptedMessage) :
    Option (List UInt8) × TripleRatchetSession :=
  match (toyPrimitives.decryptMessage message).run (session, toyRng) with
  | .ok plaintext (session, _) => (some plaintext, session)
  | .error _ (session, _) => (none, session)

/-- The receiver, when it has read the first message. -/
def readFirst (message : EncryptedMessage) : TripleRatchetSession := (attempt toyReceiver message).2

instance (session : TripleRatchetSession) (number : UInt32) : Decidable (ReceivingReaches session number) :=
  inferInstanceAs (Decidable (∃ chain ∈ session.dhRatchet.receivingChain,
    chain.messageNumber ≤ number ∧ number.toNat < chain.messageNumber.toNat + maxSkip.toNat))

/-- **A message that comes once more** is refused, and the session is as it was. -/
theorem replay_leavesAlone : ∃ message ∈ firstMessage, ∃ e session' rng',
    (attempt toyReceiver message).1 = some [1] ∧
      (toyPrimitives.decryptMessage message).run (readFirst message, toyRng) =
        .error e (session', rng') ∧
      session' = readFirst message := by
  obtain ⟨message, hmessage⟩ := Option.isSome_iff_exists.mp
    (show firstMessage.isSome = true by decide +kernel)
  have hall : ∀ message ∈ firstMessage, (attempt toyReceiver message).1 = some [1] ∧
      (attempt (readFirst message) message).1 = none ∧
      cachedKey toyPrimitives (readFirst message) message = none ∧
      (match toyPrimitives.tryDecryptHeaderAndDetectRatchet (readFirst message) message with
        | .ok (header, false) => !header.kemCiphertext.isSome &&
          decide (¬ ReceivingReaches (readFirst message) header.messageNumber)
        | _ => false) = true := by
    decide +kernel
  obtain ⟨hread, hnone, hcached, hdetected⟩ := hall message hmessage
  have halone : LeavesAlone toyPrimitives (readFirst message) message := by
    refine ⟨hcached, ?_⟩
    rcases hdetect : toyPrimitives.tryDecryptHeaderAndDetectRatchet (readFirst message) message with
      e | ⟨header, - | -⟩
    · trivial
    · rw [hdetect] at hdetected
      simp only [Bool.and_eq_true, Bool.not_eq_true', decide_eq_true_eq] at hdetected
      dsimp only
      rw [if_neg (by simp [hdetected.1])]
      exact hdetected.2
    · rw [hdetect] at hdetected
      cases hdetected
  unfold attempt at hnone
  rcases hrun : (toyPrimitives.decryptMessage message).run (readFirst message, toyRng) with
    ⟨plaintext, session', rng'⟩ | ⟨e, session', rng'⟩
  · rw [hrun] at hnone
    cases hnone
  · exact ⟨message, hmessage, e, session', rng', hread, hrun,
      (failed_unchanged_iff toyPrimitives_lowOrderShared hrun).mpr halone⟩

/-- **A corrupted message** uses up the key of the genuine one: the session is another one after it,
and the genuine message, which could be decrypted before, cannot be any more. -/
theorem corrupted_uses_key :
    firstMessage.isSome = true ∧ ∀ message ∈ firstMessage,
      (attempt toyReceiver message).1 = some [1] ∧
        (attempt toyReceiver { message with ciphertext := [] }).1 = none ∧
        (attempt toyReceiver { message with ciphertext := [] }).2.dhRatchet ≠ toyReceiver.dhRatchet ∧
        (attempt (attempt toyReceiver { message with ciphertext := [] }).2 message).1 = none := by
  decide +kernel

end Toy

end Pirc.Crypto
