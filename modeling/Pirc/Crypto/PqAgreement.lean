import Pirc.Crypto.Network

/-!
# Crypto: the post-quantum ratchets of two parties

Two sessions that know each other's KEM keys, on a network that delivers in any order. A step is
started with the next message of a party that owes one, and completed where that message is
decrypted. Either side replaces its own KEM key pair, but only the one that started the step says
so.
-/

namespace Pirc.Crypto

open KeySchedule

section Frame

variable {σ τ α : Type}

/-- The computation leaves the KEM randomness alone. -/
abbrev KemUnused (x : CryptoM σ α) : Prop := Within (Unchanged fun s : σ × OsRng => s.2.mlKem) x

theorem KemUnused.onPart {part : σ → τ} {put : τ → σ → σ} {x : CryptoM τ α} (hx : KemUnused x) :
    KemUnused (onPart part put x) := by
  rintro ⟨s, rng⟩
  have hpart := hx (part s, rng)
  unfold wp at hpart ⊢
  rw [run_onPart]
  cases hrun : x.run (part s, rng) with
  | ok a t =>
    rw [hrun] at hpart
    exact hpart
  | error e t =>
    rw [hrun] at hpart
    exact hpart

variable (P : Primitives)

theorem kemUnused_skipTo (target : UInt32) : KemUnused (P.skipTo target) := by
  apply within_get
  rintro ⟨ratchet, rng⟩
  dsimp only
  split_ifs
  · rfl
  · rfl
  · rfl

theorem kemUnused_onReceivingChain (chain : SymmetricRatchet) (target : UInt32) :
    KemUnused (Primitives.onReceivingChain chain (P.skipTo target)) := (kemUnused_skipTo P target).onPart

theorem kemUnused_receiveMessageKey (number : UInt32) :
    KemUnused (P.receiveMessageKey number) := by
  apply within_get
  rintro ⟨ratchet, rng⟩
  dsimp only
  cases ratchet.receivingChain with
  | none => rfl
  | some chain =>
    dsimp only
    split_ifs
    · rfl
    · rfl
    · refine (kemUnused_onReceivingChain P chain number).bind (fun keys => ?_) _
      cases keys.getLast? with
      | none => exact fun _ => rfl
      | some last => exact within_pure _

theorem kemUnused_skipRemainingReceivingKeys (upTo : UInt32) :
    KemUnused (P.skipRemainingReceivingKeys upTo) := by
  apply within_get
  rintro ⟨ratchet, rng⟩
  dsimp only
  cases ratchet.receivingChain with
  | none => rfl
  | some chain =>
    dsimp only
    split_ifs
    · rfl
    · exact kemUnused_onReceivingChain P chain (upTo - 1) _

theorem kemUnused_generateKeyPair : KemUnused (generateKeyPair : CryptoM σ KeyPair) := fun _ => rfl

theorem kemUnused_modify {f : σ × OsRng → σ × OsRng} (hf : ∀ s, (f s).2 = s.2) :
    KemUnused (modify f : CryptoM σ PUnit) :=
  within_modify fun s => congrArg OsRng.mlKem (hf s)

theorem kemUnused_ratchetStep (newRemotePublic : PublicKey) :
    KemUnused (P.ratchetStep newRemotePublic) := by
  apply within_get
  rintro ⟨ratchet, rng⟩
  dsimp only
  refine (within_check _).bind (fun dhOutputRecv => ?_) _
  refine (within_check _).bind fun recvKeys => ?_
  refine Within.bind (kemUnused_modify ?_) fun _ => ?_
  · exact fun _ => rfl
  refine kemUnused_generateKeyPair.bind fun dhPair => ?_
  refine Within.bind (kemUnused_modify ?_) fun _ => ?_
  · exact fun _ => rfl
  refine (within_check _).bind fun dhOutputSend => ?_
  refine (within_check _).bind fun sendKeys => ?_
  refine Within.bind (kemUnused_modify ?_) fun _ => ?_
  · exact fun _ => rfl
  exact within_pure _

theorem kemUnused_encryptMessageKey : KemUnused P.encryptMessageKey := by
  apply within_get
  rintro ⟨ratchet, rng⟩
  dsimp only
  cases ratchet.sendingChain with
  | none => rfl
  | some chain => rfl

/-! ## What a session leaves alone -/

/-- What belongs to the post-quantum ratchet: its state, its interval and the randomness of KEM
keys. -/
def pqPart (s : TripleRatchetSession × OsRng) : PqRatchetState × UInt32 × Stream' (Bytes 64) :=
  (s.1.pqRatchet, s.1.pqStepInterval, s.2.mlKem)

/-- The post-quantum ratchet is left alone. -/
abbrev PqUnused (x : CryptoM TripleRatchetSession α) : Prop := Within (Unchanged pqPart) x

theorem KemUnused.onDhRatchet {x : CryptoM DhRatchetState α} (hx : KemUnused x) :
    PqUnused (onDhRatchet x) := by
  rintro ⟨session, rng⟩
  have hpart := hx (session.dhRatchet, rng)
  unfold wp at hpart ⊢
  rw [Pirc.Crypto.onDhRatchet, run_onPart]
  cases hrun : x.run (session.dhRatchet, rng) with
  | ok a t =>
    rw [hrun] at hpart
    exact congrArg (fun kem => (session.pqRatchet, session.pqStepInterval, kem)) hpart
  | error e t =>
    rw [hrun] at hpart
    exact congrArg (fun kem => (session.pqRatchet, session.pqStepInterval, kem)) hpart

theorem pqUnused_modifySession {f : TripleRatchetSession → TripleRatchetSession}
    (hf : ∀ session, SamePq session (f session)) : PqUnused (modifySession f) := by
  rintro ⟨session, rng⟩
  obtain ⟨hratchet, hinterval⟩ := hf session
  change pqPart (f session, rng) = pqPart (session, rng)
  rw [pqPart, hratchet, hinterval]
  rfl

theorem samePq_storeSkippedKeys (session : TripleRatchetSession) (dhPublic : PublicKey)
    (keys : List (UInt32 × Key)) : SamePq session (session.storeSkippedKeys dhPublic keys) := by
  induction keys generalizing session with
  | nil => exact ⟨rfl, rfl⟩
  | cons key keys ih => exact ih (session.storeSkippedKey dhPublic key.1 key.2)

theorem pqUnused_trySkippedKeys (message : EncryptedMessage) :
    PqUnused (P.trySkippedKeys message) := by
  apply within_get
  rintro ⟨session, rng⟩
  dsimp only
  split_ifs
  · rfl
  · cases P.tryHeaderKeys session message with
    | none => rfl
    | some header =>
      dsimp only
      cases session.skippedKeys.lookup (header.dhPublic, header.messageNumber) with
      | none => rfl
      | some skipped =>
        refine Within.bind (pqUnused_modifySession ?_) (fun _ => ?_) _
        · exact fun _ => ⟨rfl, rfl⟩
        · exact (within_check _).bind fun _ => within_pure _

theorem pqUnused_saveRemainingKeys (header : MessageHeader) :
    PqUnused (P.saveRemainingKeys header) := by
  apply within_get
  rintro ⟨session, rng⟩
  dsimp only
  cases session.dhRatchet.remotePublic with
  | none => rfl
  | some oldRemote =>
    refine (kemUnused_skipRemainingReceivingKeys P _).onDhRatchet.bind (fun oldKeys => ?_) _
    exact pqUnused_modifySession fun session => samePq_storeSkippedKeys session oldRemote oldKeys

theorem pqUnused_followRatchet (header : MessageHeader) : PqUnused (P.followRatchet header) := by
  refine (pqUnused_saveRemainingKeys P header).bind fun _ => ?_
  refine Within.bind (pqUnused_modifySession ?_) fun _ => ?_
  · exact fun _ => ⟨rfl, rfl⟩
  refine (kemUnused_ratchetStep P _).onDhRatchet.bind fun headerKeys => ?_
  exact pqUnused_modifySession fun _ => ⟨rfl, rfl⟩

theorem pqUnused_decryptBody (header : MessageHeader) (message : EncryptedMessage) :
    PqUnused (P.decryptBody header message) := by
  refine (kemUnused_receiveMessageKey P _).onDhRatchet.bind fun keys => ?_
  refine Within.bind (pqUnused_modifySession ?_) fun _ => ?_
  · exact fun session => samePq_storeSkippedKeys session _ _
  exact within_check _

end Frame

/-! ## Post-quantum steps -/

section Steps

variable (P : Primitives)

/-- The peer's step is completed: its new key is known, and our own key pair is new as well. -/
def StepCompleted (header : MessageHeader) (s s' : TripleRatchetSession × OsRng) : Prop :=
  ∃ newPk, header.kemPublic = some newPk ∧ s'.1.pqRatchet.remoteKemPublic = some newPk ∧
    s'.1.pqRatchet.kemPair = P.kemGenerate s.2.mlKem.head ∧ s'.2.mlKem = s.2.mlKem.tail

/-- A step is started: our key pair is new. -/
def StepStarted (s s' : TripleRatchetSession × OsRng) : Prop :=
  s'.1.pqRatchet.kemPair = P.kemGenerate s.2.mlKem.head ∧
    s'.1.pqRatchet.remoteKemPublic = s.1.pqRatchet.remoteKemPublic ∧ s'.2.mlKem = s.2.mlKem.tail

def PqMoved (header : MessageHeader) (s s' : TripleRatchetSession × OsRng) : Prop :=
  Unchanged pqPart s s' ∨ StepCompleted P header s s'

variable {P} {header : MessageHeader} {message : EncryptedMessage}
  {s t r : TripleRatchetSession × OsRng}

theorem PqMoved.of_unchanged (h : Unchanged pqPart s t) (hm : PqMoved P header t r) :
    PqMoved P header s r := by
  rcases hm with hsame | ⟨newPk, hpk, hremote, hpair, hrng⟩
  · exact .inl (hsame.trans h)
  · have hmlKem : t.2.mlKem = s.2.mlKem := congrArg (·.2.2) h
    rw [hmlKem] at hpair hrng
    exact .inr ⟨newPk, hpk, hremote, hpair, hrng⟩

theorem PqMoved.unchanged (hm : PqMoved P header s t) (h : Unchanged pqPart t r) :
    PqMoved P header s r := by
  rcases hm with hsame | ⟨newPk, hpk, hremote, hpair, hrng⟩
  · exact .inl (h.trans hsame)
  · have hratchet : r.1.pqRatchet = t.1.pqRatchet := congrArg (·.1) h
    have hmlKem : r.2.mlKem = t.2.mlKem := congrArg (·.2.2) h
    rw [← hratchet] at hremote hpair
    rw [← hmlKem] at hrng
    exact .inr ⟨newPk, hpk, hremote, hpair, hrng⟩

theorem within_pqMoved {α : Type} {x : CryptoM TripleRatchetSession α} (hx : PqUnused x) :
    Within (PqMoved P header) x := by
  intro s
  refine wp_mono ?_ ?_ (hx s)
  · exact fun _ _ h => .inl h
  · exact fun _ _ h => .inl h

theorem followPqStep_moved (header : MessageHeader) :
    Within (PqMoved P header) (P.followPqStep header) := by
  rintro ⟨session, rng⟩
  unfold Primitives.followPqStep
  split
  · next ciphertext newPk _ hpk =>
    unfold wp
    rw [onPqRatchet, run_onPart]
    simp only [Primitives.completeStep, EStateM.run_bind, EStateM.run_get, run_check]
    cases P.decapsulate session.pqRatchet.kemPair ciphertext with
    | error e => exact .inl rfl
    | ok secret =>
      dsimp only
      cases P.mixSecret session.pqRatchet.pqChainKey secret with
      | error e => exact .inl rfl
      | ok newKey => exact .inr ⟨newPk, hpk, rfl, rfl, rfl⟩
  · exact .inl rfl

theorem tryDecrypt_of_detect {session : TripleRatchetSession} {changed : Bool}
    (h : P.tryDecryptHeaderAndDetectRatchet session message = .ok (header, changed)) :
    ∃ key, P.tryDecryptHeaderWithKey key message = some header := by
  unfold Primitives.tryDecryptHeaderAndDetectRatchet at h
  split at h
  · next hnext =>
    obtain ⟨rfl, -⟩ := Prod.mk.inj (Except.ok.inj h)
    exact ⟨_, hnext⟩
  · split at h
    · next hcurrent =>
      obtain ⟨rfl, -⟩ := Prod.mk.inj (Except.ok.inj h)
      exact ⟨_, hcurrent⟩
    · split at h
      · next hprevious =>
        obtain ⟨rfl, -⟩ := Prod.mk.inj (Except.ok.inj h)
        obtain ⟨key, -, hopen⟩ := Option.bind_eq_some_iff.mp hprevious
        exact ⟨key, hopen⟩
      · cases h

/-- **Decrypting** leaves the post-quantum ratchet alone, or completes the step that the header of
the message brings. -/
theorem decryptMessage_moved
    (hopen : ∀ key opened, P.tryDecryptHeaderWithKey key message = some opened → opened = header) :
    Within (PqMoved P header) (P.decryptMessage message) := by
  -- the part after the DH ratchet
  have hrest : Within (PqMoved P header)
      (P.followPqStep header >>= fun _ => P.decryptBody header message) := by
    intro s
    rw [wp_bind]
    refine wp_mono ?_ (fun _ _ h => h) (followPqStep_moved header s)
    intro _ t hmoved
    refine wp_mono ?_ ?_ (pqUnused_decryptBody P header message t)
    · exact fun _ _ h => hmoved.unchanged h
    · exact fun _ _ h => hmoved.unchanged h
  have hthen : ∀ {α β : Type} {x : CryptoM TripleRatchetSession α}
      {f : α → CryptoM TripleRatchetSession β}, PqUnused x →
      (∀ a, Within (PqMoved P header) (f a)) → Within (PqMoved P header) (x >>= f) := by
    intro α β x f hx hf s
    rw [wp_bind]
    refine wp_mono ?_ (fun _ _ h => .inl h) (hx s)
    intro a t hsame
    refine wp_mono ?_ ?_ (hf a t)
    · exact fun _ _ h => h.of_unchanged hsame
    · exact fun _ _ h => h.of_unchanged hsame
  refine hthen (pqUnused_trySkippedKeys P message) fun found => ?_
  cases found with
  | some plaintext => exact within_pqMoved (within_pure _)
  | none =>
    dsimp only
    intro s
    rw [wp_bind, wp_get, wp_bind]
    unfold wp
    rw [run_check]
    cases hdetect : P.tryDecryptHeaderAndDetectRatchet s.1 message with
    | error e => exact .inl rfl
    | ok detected =>
      obtain ⟨detected, changed⟩ := detected
      obtain ⟨key, hkey⟩ := tryDecrypt_of_detect hdetect
      obtain rfl := hopen key detected hkey
      cases changed with
      | true => exact hthen (pqUnused_followRatchet P detected) (fun _ => hrest) s
      | false => exact hrest s

variable (P) in
/-- A message whose header is sealed and names a KEM key, or none. -/
def Sealed (kemPublic : Option KemPublicKey) (message : EncryptedMessage) : Prop :=
  ∃ (key : Key) (header : MessageHeader),
    P.encrypt key message.headerNonce header.toBytes [] = .ok message.encryptedHeader ∧
      header.kemPublic = kemPublic

theorem eq_of_tryDecrypt (h : P.Committing) {key : Key}
    (hsealed : P.encrypt key message.headerNonce header.toBytes [] = .ok message.encryptedHeader)
    (key' : Key) (opened : MessageHeader)
    (hopen : P.tryDecryptHeaderWithKey key' message = some opened) : opened = header := by
  unfold Primitives.tryDecryptHeaderWithKey at hopen
  by_cases hkey : key' = key
  · rw [hkey, Primitives.decryptHeader_eq h hsealed] at hopen
    exact (Option.some.inj hopen).symm
  · obtain ⟨error, herror⟩ := Primitives.decryptHeader_other h hsealed hkey
    rw [herror] at hopen
    cases hopen

/-- **Encrypting** after the post-quantum step: the rest leaves its ratchet alone. -/
theorem encryptMessage_wp (plaintext : List UInt8) {kemCiphertext : Option KemCiphertext}
    {kemPublic : Option KemPublicKey}
    (hprepare : P.preparePqStep.run s = .ok (kemCiphertext, kemPublic) t) :
    wp (P.encryptMessage plaintext)
      (fun message r => Unchanged pqPart t r ∧ Sealed P kemPublic message)
      (fun _ r => Unchanged pqPart t r) s := by
  have hratchet := (kemUnused_encryptMessageKey P).onDhRatchet t
  unfold wp at hratchet ⊢
  rw [Primitives.encryptMessage, run_bind_ok hprepare, EStateM.run_bind]
  cases hkey : (onDhRatchet P.encryptMessageKey).run t with
  | error e u =>
    rw [hkey] at hratchet
    exact hratchet
  | ok result u =>
    obtain ⟨messageKey, number, dhPublic⟩ := result
    obtain ⟨session, rng⟩ := u
    rw [hkey] at hratchet
    have hsame : pqPart (session, rng) = pqPart t := hratchet
    simp only [EStateM.run_bind, run_modifySession, EStateM.run_get, Primitives.encryptHeader,
      run_generateNonce]
    generalize hheader : (MessageHeader.mk dhPublic number session.previousChainLength
      kemCiphertext kemPublic) = header
    cases hsealed : P.encrypt session.sendingHeaderKey rng.nonces.head header.toBytes [] with
    | error e => exact hsame
    | ok encryptedHeader =>
      simp only [EStateM.run_pure, run_generateNonce, run_check]
      cases P.encrypt messageKey rng.nonces.tail.head plaintext encryptedHeader with
      | error e => exact hsame
      | ok ciphertext =>
        refine ⟨hsame, session.sendingHeaderKey, header, hsealed, ?_⟩
        rw [← hheader]

theorem preparePqStep_due {session : TripleRatchetSession} {rng : OsRng} {remote : KemPublicKey}
    (hdue : session.pqDue = true) (hremote : session.pqRatchet.remoteKemPublic = some remote)
    (hkem : (P.kemEncapsulate remote rng.encapsulation.head).isSome = true) :
    ∃ kemCiphertext session' rng', P.preparePqStep.run (session, rng) =
        .ok (some kemCiphertext, some (P.kemGenerate rng.mlKem.head).ek) (session', rng') ∧
      StepStarted P (session, rng) (session', rng') := by
  obtain ⟨⟨ciphertext, secret⟩, hencapsulate⟩ := Option.isSome_iff_exists.mp hkem
  have hmix : P.mixSecret session.pqRatchet.pqChainKey secret =
      .ok (P.expand (P.extract session.pqRatchet.pqChainKey.val secret.val)
        (utf8 "pirc-pq-ratchet-chain".toList) 32) := rfl
  have hinitiate : P.initiateStep.run (session.pqRatchet, rng) =
      .ok (ciphertext, (P.kemGenerate rng.mlKem.head).ek)
        ({ session.pqRatchet with
            pqChainKey := P.expand (P.extract session.pqRatchet.pqChainKey.val secret.val)
              (utf8 "pirc-pq-ratchet-chain".toList) 32
            kemPair := P.kemGenerate rng.mlKem.head
            stepCounter := session.pqRatchet.stepCounter + 1 },
          { rng with encapsulation := rng.encapsulation.tail, mlKem := rng.mlKem.tail }) := by
    have hrun : (P.encapsulate remote).run (session.pqRatchet, rng) =
        .ok (ciphertext, secret)
          (session.pqRatchet, { rng with encapsulation := rng.encapsulation.tail }) := by
      rw [Primitives.run_encapsulate, hencapsulate]
    simp only [Primitives.initiateStep, EStateM.run_bind, EStateM.run_get, hremote, hrun, run_check,
      hmix, Primitives.run_generateKemKeyPair, EStateM.run_modify]
    rfl
  have hprepare : ∃ session', P.preparePqStep.run (session, rng) =
      .ok (some ciphertext, some (P.kemGenerate rng.mlKem.head).ek)
        (session', { rng with encapsulation := rng.encapsulation.tail, mlKem := rng.mlKem.tail }) ∧
      session'.pqRatchet.kemPair = P.kemGenerate rng.mlKem.head ∧
      session'.pqRatchet.remoteKemPublic = session.pqRatchet.remoteKemPublic := by
    simp only [Primitives.preparePqStep, EStateM.run_bind, EStateM.run_get, hdue, if_true,
      onPqRatchet, run_onPart, hinitiate, run_modifySession]
    exact ⟨_, rfl, rfl, rfl⟩
  obtain ⟨session', hrun, hpair, hsame⟩ := hprepare
  exact ⟨ciphertext, session', _, hrun, hpair, hsame, rfl⟩

end Steps

/-! ## Networks with post-quantum steps -/

namespace Primitives

variable (P : Primitives)

/-- Two sessions built from matching keys that know each other's KEM keys, with an interval for
each. -/
def startWithKemKeys (sharedSecret : Key) (dhPair : KeyPair) (kemPair : KemKeyPair) (rng : OsRng)
    (interval : Party → UInt32) : Except CryptoError Network :=
  match P.start sharedSecret dhPair kemPair rng with
  | .ok c =>
    .ok
      { session := fun p =>
          { c.session p with
            pqStepInterval := interval p
            pqRatchet :=
              { (c.session p).pqRatchet with
                remoteKemPublic := some (c.session p.peer).pqRatchet.kemPair.ek } }
        rng := c.rng }
  | .error e => .error e

/-- The KEM key pairs of a session: the receiver's, the sender's, and those that are generated. -/
def kemKey (kemPair : KemKeyPair) (rng : OsRng) : ℕ → KemKeyPair
  | 0 => kemPair
  | i + 1 => P.kemGenerate (rng.mlKem.get i)

end Primitives

def FreshBelow (keys : ℕ → KemKeyPair) (N : ℕ) : Prop :=
  ∀ a < N, ∀ b < N, (keys a).ek = (keys b).ek → a = b

namespace Network

/-- **Agreement**: the chain keys and the step counters are equal, and each party knows the current
KEM key of the other. -/
structure PqAgree (c : Network) : Prop where
  chainKey : (c.session .alice).pqRatchet.pqChainKey = (c.session .bob).pqRatchet.pqChainKey
  stepCounter : (c.session .alice).pqRatchet.stepCounter = (c.session .bob).pqRatchet.stepCounter
  remote : ∀ p, (c.session p).pqRatchet.remoteKemPublic =
    some (c.session p.peer).pqRatchet.kemPair.ek

/-- A party that writes owes no post-quantum step. -/
def NoStepDue (c : Network) : NetworkEvent → Prop
  | .send p _ => (c.session p).pqDue = false
  | .deliver _ _ => True

instance (c : Network) : (e : NetworkEvent) → Decidable (c.NoStepDue e)
  | .send _ _ => inferInstanceAs (Decidable (_ = _))
  | .deliver _ _ => inferInstanceAs (Decidable True)

end Network

/-! ## The keys that are in use -/

/-- **The history of KEM keys**: `j` key pairs were generated, and all that are used or named are
among them. -/
structure KeyHistory (P : Primitives) (keys : ℕ → KemKeyPair) (j : ℕ) (c : Network) : Prop where
  upcoming : ∀ i, P.kemGenerate (c.rng.mlKem.get i) = keys (j + i)
  own : ∀ p, ∃ a < j, (c.session p).pqRatchet.kemPair = keys a
  known : ∀ p, ∃ a < j, (c.session p).pqRatchet.remoteKemPublic = some (keys a).ek
  named : ∀ e, ∀ letter ∈ c.letters e, ∃ kemPublic, Sealed P kemPublic letter.message ∧
    ∀ newPk, kemPublic = some newPk → ∃ a < j, newPk = (keys a).ek

/-- **One party is behind**: the newest key pair is the other's, and it knows an older one. -/
def Behind (keys : ℕ → KemKeyPair) (j : ℕ) (c : Network) : Prop :=
  ∃ p, (c.session p).pqRatchet.kemPair = keys (j - 1) ∧
    ∃ a < j - 1, (c.session p.peer).pqRatchet.remoteKemPublic = some (keys a).ek

/-- No step was started: the ratchets are as they were, and no message names a key. -/
structure Idle (P : Primitives) (start : Party → PqRatchetState) (c : Network) : Prop where
  ratchet : ∀ p, (c.session p).pqRatchet = start p
  named : ∀ e, ∀ letter ∈ c.letters e, Sealed P none letter.message

section History

variable {P : Primitives} {keys : ℕ → KemKeyPair} {start : Party → PqRatchetState} {j N : ℕ}
  {c c' : Network} {p : Party} {session' : TripleRatchetSession} {rng' : OsRng}

theorem Behind.not_agree (hb : Behind keys j c) (hfresh : FreshBelow keys N) (hN : j ≤ N) :
    ¬ c.PqAgree := by
  rintro ⟨-, -, hremote⟩
  obtain ⟨p, hpair, a, ha, hknown⟩ := hb
  have hcurrent := hremote p.peer
  rw [Party.peer_peer, hpair, hknown] at hcurrent
  have heq := hfresh a (by omega) (j - 1) (by omega) (Option.some.inj hcurrent)
  omega

theorem KeyHistory.unchanged (hk : KeyHistory P keys j c)
    (hsame : Unchanged pqPart (c.session p, c.rng) (session', rng'))
    (hsession : c'.session = Function.update c.session p session') (hrng : c'.rng = rng')
    (hnamed : ∀ e, ∀ letter ∈ c'.letters e, letter ∈ c.letters e ∨ Sealed P none letter.message) :
    KeyHistory P keys j c' ∧ ∀ q, (c'.session q).pqRatchet = (c.session q).pqRatchet := by
  have hratchet : session'.pqRatchet = (c.session p).pqRatchet := congrArg (·.1) hsame
  have hmlKem : rng'.mlKem = c.rng.mlKem := congrArg (·.2.2) hsame
  have hall : ∀ q, (c'.session q).pqRatchet = (c.session q).pqRatchet := by
    intro q
    rw [hsession]
    by_cases hq : q = p
    · rw [hq, Function.update_self, hratchet]
    · rw [Function.update_of_ne hq]
  refine ⟨⟨?_, ?_, ?_, ?_⟩, hall⟩
  · rw [hrng, hmlKem]
    exact hk.upcoming
  · intro q
    rw [hall]
    exact hk.own q
  · intro q
    rw [hall]
    exact hk.known q
  · intro e letter hletter
    rcases hnamed e letter hletter with hold | hnew
    · exact hk.named e letter hold
    · exact ⟨none, hnew, fun newPk heq => by cases heq⟩

theorem KeyHistory.generated (hk : KeyHistory P keys j c)
    (hpair : session'.pqRatchet.kemPair = P.kemGenerate c.rng.mlKem.head)
    (hremote : ∃ a < j, session'.pqRatchet.remoteKemPublic = some (keys a).ek)
    (hmlKem : rng'.mlKem = c.rng.mlKem.tail)
    (hsession : c'.session = Function.update c.session p session') (hrng : c'.rng = rng')
    (hnamed : ∀ e, ∀ letter ∈ c'.letters e,
      letter ∈ c.letters e ∨ Sealed P (some (P.kemGenerate c.rng.mlKem.head).ek) letter.message) :
    KeyHistory P keys (j + 1) c' ∧ Behind keys (j + 1) c' := by
  have hgenerated : P.kemGenerate c.rng.mlKem.head = keys j := hk.upcoming 0
  rw [hgenerated] at hpair hnamed
  have hother : ∀ q, q ≠ p → c'.session q = c.session q := by
    intro q hq
    rw [hsession, Function.update_of_ne hq]
  have hself : c'.session p = session' := by
    rw [hsession, Function.update_self]
  obtain ⟨a, ha, hremote⟩ := hremote
  refine ⟨⟨?_, ?_, ?_, ?_⟩, ?_⟩
  · intro i
    have hnext := hk.upcoming (i + 1)
    have hindex : j + 1 + i = j + (i + 1) := by omega
    rw [hrng, hmlKem, hindex, ← hnext]
    rfl
  · intro q
    by_cases hq : q = p
    · exact ⟨j, Nat.lt_succ_self j, by rw [hq, hself, hpair]⟩
    · obtain ⟨b, hb, hown⟩ := hk.own q
      exact ⟨b, by omega, by rw [hother q hq, hown]⟩
  · intro q
    by_cases hq : q = p
    · exact ⟨a, by omega, by rw [hq, hself, hremote]⟩
    · obtain ⟨b, hb, hknown⟩ := hk.known q
      exact ⟨b, by omega, by rw [hother q hq, hknown]⟩
  · intro e letter hletter
    rcases hnamed e letter hletter with hold | hnew
    · obtain ⟨kemPublic, hsealed, hkey⟩ := hk.named e letter hold
      refine ⟨kemPublic, hsealed, fun newPk heq => ?_⟩
      obtain ⟨b, hb, hnewPk⟩ := hkey newPk heq
      exact ⟨b, by omega, hnewPk⟩
    · refine ⟨_, hnew, fun newPk heq => ⟨j, Nat.lt_succ_self j, ?_⟩⟩
      exact (Option.some.inj heq).symm
  · -- the other party knows a key that was there before
    obtain ⟨b, hb, hknown⟩ := hk.known p.peer
    refine ⟨p, by rw [hself, hpair]; rfl, b, hb, ?_⟩
    rw [hother p.peer p.peer_ne, hknown]

theorem mem_letters_write {letter new : Letter} {e : ℕ}
    (h : letter ∈ (c.write p new).letters e) : letter ∈ c.letters e ∨ letter = new := by
  change letter ∈ Function.update c.letters (c.turn p) (c.letters (c.turn p) ++ [new]) e at h
  by_cases he : e = c.turn p
  · subst he
    rw [Function.update_self] at h
    simpa using h
  · rw [Function.update_of_ne he] at h
    exact .inl h

/-- **Step lemma, writing**: a party that owes no step leaves the ratchets alone, and its message
names no key; one that owes a step generates a key pair. -/
theorem KeyHistory.send (hkem : ∀ publicKey random, (P.kemEncapsulate publicKey random).isSome = true)
    (hk : KeyHistory P keys j c) (p : Party) (plaintext : List UInt8) :
    ((c.session p).pqDue = false ∧ KeyHistory P keys j (P.sendLetter c p plaintext) ∧
        (∀ q, ((P.sendLetter c p plaintext).session q).pqRatchet = (c.session q).pqRatchet) ∧
        ∀ e, ∀ letter ∈ (P.sendLetter c p plaintext).letters e,
          letter ∈ c.letters e ∨ Sealed P none letter.message) ∨
      (c.session p).pqDue = true ∧ KeyHistory P keys (j + 1) (P.sendLetter c p plaintext) ∧
        Behind keys (j + 1) (P.sendLetter c p plaintext) := by
  cases hdue : (c.session p).pqDue with
  | false =>
    left
    have hencrypt := encryptMessage_wp (P := P) plaintext ((@preparePqStep_run c.rng) hdue)
    unfold Primitives.sendLetter
    cases hrun : (P.encryptMessage plaintext).run (c.session p, c.rng) with
    | ok message t =>
      obtain ⟨hsame, hsealed⟩ := wp_ok hencrypt hrun
      have hnamed : ∀ e, ∀ letter ∈ (c.write p ⟨message, plaintext⟩).letters e,
          letter ∈ c.letters e ∨ Sealed P none letter.message := by
        intro e letter hletter
        rcases mem_letters_write hletter with hold | rfl
        · exact .inl hold
        · exact .inr hsealed
      obtain ⟨hhistory, hratchets⟩ :=
        (@KeyHistory.unchanged _ _ _ _ { c.write p ⟨message, plaintext⟩ with
          session := Function.update c.session p t.1, rng := t.2 } _ t.1 t.2) hk hsame rfl rfl hnamed
      exact ⟨rfl, hhistory, hratchets, hnamed⟩
    | error error t =>
      have hsame := wp_error hencrypt hrun
      obtain ⟨hhistory, hratchets⟩ :=
        (@KeyHistory.unchanged _ _ _ _ { c with
          session := Function.update c.session p t.1, rng := t.2, sound := false } _ t.1 t.2) hk hsame
          rfl rfl fun _ _ h => .inl h
      exact ⟨rfl, hhistory, hratchets, fun _ _ h => .inl h⟩
  | true =>
    right
    obtain ⟨a, ha, hremote⟩ := hk.known p
    obtain ⟨ciphertext, session₁, rng₁, hprepare, hpair, hsameRemote, hmlKem⟩ :=
      (@preparePqStep_due _ _ c.rng) hdue hremote (hkem _ _)
    have hencrypt := encryptMessage_wp (P := P) plaintext hprepare
    have hstarted : ∀ t : TripleRatchetSession × OsRng, Unchanged pqPart (session₁, rng₁) t →
        t.1.pqRatchet.kemPair = P.kemGenerate c.rng.mlKem.head ∧
          t.1.pqRatchet.remoteKemPublic = some (keys a).ek ∧ t.2.mlKem = c.rng.mlKem.tail := by
      intro t hsame
      have hratchet : t.1.pqRatchet = session₁.pqRatchet := congrArg (·.1) hsame
      have hrng : t.2.mlKem = rng₁.mlKem := congrArg (·.2.2) hsame
      rw [hratchet, hrng]
      exact ⟨hpair, hsameRemote.trans hremote, hmlKem⟩
    unfold Primitives.sendLetter
    cases hrun : (P.encryptMessage plaintext).run (c.session p, c.rng) with
    | ok message t =>
      obtain ⟨hsame, hsealed⟩ := wp_ok hencrypt hrun
      obtain ⟨hnewPair, hknown, hnewRng⟩ := hstarted t hsame
      refine ⟨rfl, hk.generated hnewPair ⟨a, ha, hknown⟩ hnewRng rfl rfl ?_⟩
      intro e letter hletter
      rcases mem_letters_write hletter with hold | rfl
      · exact .inl hold
      · exact .inr hsealed
    | error error t =>
      have hsame := wp_error hencrypt hrun
      obtain ⟨hnewPair, hknown, hnewRng⟩ := hstarted t hsame
      exact ⟨rfl, hk.generated hnewPair ⟨a, ha, hknown⟩ hnewRng rfl rfl fun _ _ h => .inl h⟩

/-- **Step lemma, arriving**: the ratchets are left alone, or a step is completed and a key pair
generated. That takes a message that names a key. -/
theorem KeyHistory.deliver (h : P.Committing) (hk : KeyHistory P keys j c) (e i : ℕ) :
    (KeyHistory P keys j (P.deliverLetter c e i) ∧
        ∀ q, ((P.deliverLetter c e i).session q).pqRatchet = (c.session q).pqRatchet) ∨
      (∃ letter ∈ c.letters e, ¬ Sealed P none letter.message) ∧
        KeyHistory P keys (j + 1) (P.deliverLetter c e i) ∧
        Behind keys (j + 1) (P.deliverLetter c e i) := by
  unfold Primitives.deliverLetter
  cases hletter : (c.letters e)[i]? with
  | none => exact .inl ⟨hk, fun _ => rfl⟩
  | some letter =>
    have hmem : letter ∈ c.letters e := List.mem_of_getElem? hletter
    obtain ⟨kemPublic, ⟨key, header, hsealed, hheader⟩, hnamed⟩ := hk.named e letter hmem
    have hopens := eq_of_tryDecrypt h hsealed
    have hmoved := decryptMessage_moved hopens (c.session (Party.receiver e), c.rng)
    have hletters : ∀ e', ∀ l ∈ c.letters e', l ∈ c.letters e' ∨ Sealed P none l.message :=
      fun _ _ h => .inl h
    -- whether the call returns or fails, the session it leaves has moved
    have hstep : ∀ (t : TripleRatchetSession × OsRng) (sound : Bool),
        PqMoved P header (c.session (Party.receiver e), c.rng) t →
        let c' := { c.arrive e i with
          session := Function.update c.session (Party.receiver e) t.1, rng := t.2, sound := sound }
        (KeyHistory P keys j c' ∧ ∀ q, (c'.session q).pqRatchet = (c.session q).pqRatchet) ∨
          (∃ letter ∈ c.letters e, ¬ Sealed P none letter.message) ∧
            KeyHistory P keys (j + 1) c' ∧ Behind keys (j + 1) c' := by
      rintro t sound (hsame | ⟨newPk, hpk, hremote, hpair, hmlKem⟩)
      · exact .inl (hk.unchanged hsame rfl rfl hletters)
      · right
        obtain ⟨a, ha, hknown⟩ := hnamed newPk (hheader.symm.trans hpk)
        rw [hknown] at hremote
        refine ⟨⟨letter, hmem, ?_⟩, hk.generated hpair ⟨a, ha, hremote⟩ hmlKem rfl rfl
          fun _ _ h => .inl h⟩
        rintro ⟨key', header', hsealed', hnone⟩
        have hopened := eq_of_tryDecrypt h hsealed' key header (by
          unfold Primitives.tryDecryptHeaderWithKey
          rw [Primitives.decryptHeader_eq h hsealed]
          rfl)
        rw [hopened, hnone] at hpk
        cases hpk
    dsimp only
    cases hrun : (P.decryptMessage letter.message).run
        (c.session (Party.receiver e), c.rng) with
    | ok plaintext t =>
      have ht := wp_ok hmoved hrun
      exact hstep t _ ht
    | error error t =>
      have ht := wp_error hmoved hrun
      exact hstep t _ ht

/-- **Step lemma, idle**: without a step that is due, nothing starts one. -/
theorem Idle.step (h : P.Committing)
    (hkem : ∀ publicKey random, (P.kemEncapsulate publicKey random).isSome = true)
    (hk : KeyHistory P keys j c) (hi : Idle P start c) {e : NetworkEvent} (hok : c.NoStepDue e) :
    KeyHistory P keys j (P.network.step c e) ∧ Idle P start (P.network.step c e) := by
  cases e with
  | send p plaintext =>
    rcases hk.send hkem p plaintext with ⟨-, hhistory, hratchets, hnamed⟩ | ⟨hdue, -⟩
    · refine ⟨hhistory, ⟨fun q => (hratchets q).trans (hi.ratchet q), ?_⟩⟩
      intro e letter hletter
      rcases hnamed e letter hletter with hold | hnew
      · exact hi.named e letter hold
      · exact hnew
    · have hnot : (c.session p).pqDue = false := hok
      rw [hnot] at hdue
      cases hdue
  | deliver e i =>
    rcases hk.deliver h e i with ⟨hhistory, hratchets⟩ | ⟨⟨letter, hmem, hnamed⟩, -⟩
    · refine ⟨hhistory, ⟨fun q => (hratchets q).trans (hi.ratchet q), ?_⟩⟩
      intro e' letter hletter
      have hletters : (P.deliverLetter c e i).letters = c.letters := by
        unfold Primitives.deliverLetter
        split
        · rfl
        · dsimp only
          split <;> rfl
      apply hi.named e'
      rw [← hletters]
      exact hletter
    · exact absurd (hi.named e letter hmem) hnamed

/-- **Step lemma, behind**: once a party is behind, one always is. -/
theorem Behind.step (h : P.Committing)
    (hkem : ∀ publicKey random, (P.kemEncapsulate publicKey random).isSome = true)
    (hk : KeyHistory P keys j c) (hb : Behind keys j c) (e : NetworkEvent) :
    ∃ j' ≤ j + 1, KeyHistory P keys j' (P.network.step c e) ∧ Behind keys j' (P.network.step c e) := by
  have hkept : (∀ q, ((P.network.step c e).session q).pqRatchet = (c.session q).pqRatchet) →
      Behind keys j (P.network.step c e) := by
    intro hratchets
    obtain ⟨p, hpair, a, ha, hknown⟩ := hb
    exact ⟨p, by rw [hratchets, hpair], a, ha, by rw [hratchets, hknown]⟩
  cases e with
  | send p plaintext =>
    rcases hk.send hkem p plaintext with ⟨-, hhistory, hratchets, -⟩ | ⟨-, hhistory, hbehind⟩
    · exact ⟨j, Nat.le_succ j, hhistory, hkept hratchets⟩
    · exact ⟨j + 1, le_rfl, hhistory, hbehind⟩
  | deliver e i =>
    rcases hk.deliver h e i with ⟨hhistory, hratchets⟩ | ⟨-, hhistory, hbehind⟩
    · exact ⟨j, Nat.le_succ j, hhistory, hkept hratchets⟩
    · exact ⟨j + 1, le_rfl, hhistory, hbehind⟩

/-- **Run lemma, behind.** -/
theorem Behind.exec (h : P.Committing)
    (hkem : ∀ publicKey random, (P.kemEncapsulate publicKey random).isSome = true)
    (hk : KeyHistory P keys j c) (hb : Behind keys j c) (es : List NetworkEvent) :
    ∃ j' ≤ j + es.length, Behind keys j' (P.network.exec c es) := by
  induction es generalizing c j with
  | nil => exact ⟨j, le_rfl, hb⟩
  | cons e es ih =>
    obtain ⟨j₁, hle₁, hk₁, hb₁⟩ := hb.step h hkem hk e
    obtain ⟨j₂, hle₂, hb₂⟩ := ih hk₁ hb₁
    refine ⟨j₂, ?_, hb₂⟩
    rw [List.length_cons]
    omega

/-- **Run lemma**: from a state in which no step was started, the parties agree at the end of a run
exactly if no step was due in it. -/
theorem Idle.agree_iff (h : P.Committing)
    (hkem : ∀ publicKey random, (P.kemEncapsulate publicKey random).isSome = true)
    (hagree : ∀ c : Network, (∀ p, (c.session p).pqRatchet = start p) → c.PqAgree)
    (hfresh : FreshBelow keys N) (hk : KeyHistory P keys j c) (hi : Idle P start c)
    {es : List NetworkEvent} (hlegal : System.Legal P.network System.Free c es)
    (hN : j + es.length ≤ N) :
    (P.network.exec c es).PqAgree ↔ System.Legal P.network Network.NoStepDue c es := by
  induction es generalizing c with
  | nil => exact iff_of_true (hagree c hi.ratchet) trivial
  | cons e es ih =>
    obtain ⟨henabled, -, hrest⟩ := hlegal
    rw [List.length_cons] at hN
    by_cases hok : c.NoStepDue e
    · obtain ⟨hk', hi'⟩ := hi.step h hkem hk hok
      have hiff := ih hk' hi' hrest (by omega)
      exact ⟨fun hagreed => ⟨henabled, hok, hiff.mp hagreed⟩, fun hlegal => hiff.mpr hlegal.2.2⟩
    · -- a step that is due is started
      refine iff_of_false ?_ fun hlegal => hok hlegal.2.1
      match e with
      | .deliver _ _ => exact absurd trivial hok
      | .send p plaintext =>
        have hdue : (c.session p).pqDue ≠ false := hok
        rcases hk.send hkem p plaintext with ⟨hnot, -⟩ | ⟨-, hhistory, hbehind⟩
        · exact absurd hnot hdue
        · obtain ⟨j', hle, hbehind'⟩ := hbehind.exec h hkem hhistory es
          exact hbehind'.not_agree hfresh (by omega)

end History

/-! ## Whole runs -/

/-- **The start**: both parties know each other's KEM keys, and no step was started. -/
theorem startWithKemKeys_idle {P : Primitives} (h : P.Correct) (sharedSecret : Key)
    (dhPair : KeyPair) (kemPair : KemKeyPair) (rng : OsRng) (interval : Party → UInt32) :
    ∃ c start, P.startWithKemKeys sharedSecret dhPair kemPair rng interval = .ok c ∧
      KeyHistory P (P.kemKey kemPair rng) 2 c ∧ Idle P start c ∧
      ∀ c : Network, (∀ p, (c.session p).pqRatchet = start p) → c.PqAgree := by
  generalize hS : P.keySchedule sharedSecret dhPair rng = S
  unfold Primitives.startWithKemKeys
  rw [start_eq h, hS]
  refine ⟨_, _, rfl, ⟨?_, ?_, ?_, ?_⟩, ⟨fun _ => rfl, ?_⟩, ?_⟩
  · intro i
    have hindex : 2 + i = i + 1 + 1 := by omega
    rw [hindex]
    rfl
  · intro p
    cases p with
    | alice => exact ⟨1, Nat.one_lt_two, rfl⟩
    | bob => exact ⟨0, Nat.two_pos, rfl⟩
  · intro p
    cases p with
    | alice => exact ⟨0, Nat.two_pos, rfl⟩
    | bob => exact ⟨1, Nat.one_lt_two, rfl⟩
  · intro e letter hletter
    cases hletter
  · intro e letter hletter
    cases hletter
  · intro c hratchets
    constructor
    · rw [hratchets, hratchets]
      rfl
    · rw [hratchets, hratchets]
      rfl
    · intro p
      rw [hratchets, hratchets]

/-- **Post-quantum ratchets agree exactly as long as no step is due.** Each step replaces the key
pairs of both parties, but only the one that starts it tells the other its new key. -/
theorem pq_agree_iff {P : Primitives} (h : P.Committing)
    (hkem : ∀ publicKey random, (P.kemEncapsulate publicKey random).isSome = true)
    (sharedSecret : Key) (dhPair : KeyPair) (kemPair : KemKeyPair) (rng : OsRng)
    (interval : Party → UInt32) :
    ∃ c, P.startWithKemKeys sharedSecret dhPair kemPair rng interval = .ok c ∧
      ∀ es, FreshBelow (P.kemKey kemPair rng) (es.length + 2) →
        System.Legal P.network System.Free c es →
        ((P.network.exec c es).PqAgree ↔ System.Legal P.network Network.NoStepDue c es) := by
  obtain ⟨c, start, hstart, hhistory, hidle, hagree⟩ :=
    startWithKemKeys_idle h.toCorrect sharedSecret dhPair kemPair rng interval
  refine ⟨c, hstart, ?_⟩
  intro es hfresh hlegal
  exact hidle.agree_iff h hkem hagree hfresh hhistory hlegal (by omega)

theorem Primitives.Committing.withKem {P : Primitives} (h : P.Committing)
    (generate : Bytes 64 → KemKeyPair)
    (encapsulate : KemPublicKey → Bytes 32 → Option (KemCiphertext × Key))
    (decapsulate : Bytes 2400 → KemCiphertext → Option Key) :
    { P with
      kemGenerate := generate
      kemEncapsulate := encapsulate
      kemDecapsulate := decapsulate }.Committing := { h with }

/-! ## A step after which the parties disagree -/

section Toy

/-- Toy primitives with KEM key pairs that begin with their random bytes. -/
def kemPrimitives : Primitives :=
  { toyPrimitives with
    kemGenerate := fun seed =>
      ⟨fill 2400 fun _ => seed.val.headD 0, fill 1184 fun _ => seed.val.headD 0⟩ }

def kemRng : OsRng := { numberedRng with mlKem := fun n => fill 64 fun _ => .ofNat (n + 1) }

theorem kemPrimitives_committing : kemPrimitives.Committing := toyPrimitives_committing.withKem _ _ _

theorem headD_fill (n : ℕ) (f : ℕ → UInt8) : (fill (n + 1) f).val.headD 0 = f 0 := by
  simp [fill, List.range_succ_eq_map]

theorem kemPrimitives_fresh : FreshBelow (kemPrimitives.kemKey toyKemPair kemRng) 200 := by
  intro a ha b hb heq
  have hbyte : ∀ j, (kemPrimitives.kemKey toyKemPair kemRng j).ek.val.headD 0 = .ofNat j := by
    intro j
    cases j with
    | zero => exact headD_fill 1183 _
    | succ j =>
      change (fill 1184 fun _ => (fill 64 fun _ => UInt8.ofNat (j + 1)).val.headD 0).val.headD 0 = _
      rw [headD_fill, headD_fill]
  have hfirst := congrArg (fun key : KemPublicKey => key.val.headD 0) heq
  simp only [hbyte] at hfirst
  have hnat := congrArg UInt8.toNat hfirst
  simp only [UInt8.toNat_ofNat'] at hnat
  omega

def oneExchange : List NetworkEvent :=
  [.send .alice [0], .deliver 1 0, .send .bob [1], .deliver 2 0]

/-- **The parties disagree** after one step that both completed. -/
theorem pq_disagree_after_step :
    kemPrimitives.Committing ∧ FreshBelow (kemPrimitives.kemKey toyKemPair kemRng) 200 ∧
      ∃ c, kemPrimitives.startWithKemKeys toyKey toyPair toyKemPair kemRng (fun _ => 1) = .ok c ∧
        System.Legal kemPrimitives.network System.Free c oneExchange ∧
        (kemPrimitives.network.exec c oneExchange).delivered = {(1, 0), (2, 0)} ∧
        (∀ p, ((kemPrimitives.network.exec c oneExchange).session p).pqRatchet.stepCounter = 1) ∧
        ¬ (kemPrimitives.network.exec c oneExchange).PqAgree := by
  have hrun : ∃ c,
      kemPrimitives.startWithKemKeys toyKey toyPair toyKemPair kemRng (fun _ => 1) = .ok c ∧
        let c' := kemPrimitives.network.exec c oneExchange
        System.Legal kemPrimitives.network System.Free c oneExchange ∧
          c'.delivered = {(1, 0), (2, 0)} ∧
          (c'.session .alice).pqRatchet.stepCounter = 1 ∧
          (c'.session .bob).pqRatchet.stepCounter = 1 ∧
          (c'.session .bob).pqRatchet.remoteKemPublic ≠
            some (c'.session .alice).pqRatchet.kemPair.ek :=
    Except.exists_ok (by decide +kernel)
  obtain ⟨c, hstart, hlegal, hdelivered, halice, hbob, hremote⟩ := hrun
  refine ⟨kemPrimitives_committing, kemPrimitives_fresh, c, hstart, hlegal, hdelivered, fun p => ?_,
    fun hagree => hremote (hagree.remote .bob)⟩
  cases p
  · exact halice
  · exact hbob

/-- Without the step they would agree. -/
theorem pq_agree_iff_exchange :
    ∃ c, kemPrimitives.startWithKemKeys toyKey toyPair toyKemPair kemRng (fun _ => 1) = .ok c ∧
      ((kemPrimitives.network.exec c oneExchange).PqAgree ↔
        System.Legal kemPrimitives.network Network.NoStepDue c oneExchange) := by
  obtain ⟨c, hstart, hiff⟩ := pq_agree_iff kemPrimitives_committing (fun _ _ => rfl) toyKey toyPair
    toyKemPair kemRng fun _ => 1
  have hlegal := Except.of_ok
    (p := fun c => System.Legal kemPrimitives.network System.Free c oneExchange) hstart (by decide +kernel)
  have hfresh : FreshBelow (kemPrimitives.kemKey toyKemPair kemRng) (oneExchange.length + 2) := by
    intro a ha b hb
    have hlength : oneExchange.length = 4 := rfl
    exact kemPrimitives_fresh a (by omega) b (by omega)
  exact ⟨c, hstart, hiff oneExchange hfresh hlegal⟩

end Toy

end Pirc.Crypto
