import Pirc.Crypto.PqAgreement

/-!
# Crypto: what the post-quantum secrets influence

Two runs of one conversation, with the same messages arriving at the same moments, whose ML-KEM
shared secrets differ. A shared secret goes into the chain key of the post-quantum ratchet, which
nothing reads but the next post-quantum step: all keys that messages are encrypted with are the same
in both.
-/

namespace Pirc.Crypto

namespace Primitives

/-- The same primitives with other shared secrets. -/
def withSecrets (P : Primitives)
    (encapsulate : KemPublicKey → Bytes 32 → Option (KemCiphertext × Key))
    (decapsulate : Bytes 2400 → KemCiphertext → Option Key) : Primitives :=
  { P with kemEncapsulate := encapsulate, kemDecapsulate := decapsulate }

section WithSecrets

/-! Everything but key encapsulation is the same. -/

variable (P : Primitives) (encapsulate : KemPublicKey → Bytes 32 → Option (KemCiphertext × Key))
  (decapsulate : Bytes 2400 → KemCiphertext → Option Key)

@[simp] theorem withSecrets_advanceN (n : ℕ) (chain : SymmetricRatchet) :
    (P.withSecrets encapsulate decapsulate).advanceN n chain = P.advanceN n chain := by
  induction n generalizing chain with
  | zero => rfl
  | succ n ih =>
    have hadvance : (P.withSecrets encapsulate decapsulate).advance chain = P.advance chain := rfl
    simp only [advanceN, hadvance, ih]

@[simp] theorem withSecrets_trySkippedKeys (message : EncryptedMessage) :
    (P.withSecrets encapsulate decapsulate).trySkippedKeys message = P.trySkippedKeys message := rfl

@[simp] theorem withSecrets_tryDecryptHeaderAndDetectRatchet (session : TripleRatchetSession)
    (message : EncryptedMessage) :
    (P.withSecrets encapsulate decapsulate).tryDecryptHeaderAndDetectRatchet session message =
      P.tryDecryptHeaderAndDetectRatchet session message := rfl

@[simp] theorem withSecrets_ratchetStep (newRemotePublic : PublicKey) :
    (P.withSecrets encapsulate decapsulate).ratchetStep newRemotePublic =
      P.ratchetStep newRemotePublic := rfl

@[simp] theorem withSecrets_skipTo (target : UInt32) :
    (P.withSecrets encapsulate decapsulate).skipTo target = P.skipTo target := by
  simp only [skipTo, withSecrets_advanceN]

@[simp] theorem withSecrets_followRatchet (header : MessageHeader) :
    (P.withSecrets encapsulate decapsulate).followRatchet header = P.followRatchet header := by
  simp only [followRatchet, saveRemainingKeys, skipRemainingReceivingKeys, withSecrets_skipTo,
    withSecrets_ratchetStep]

@[simp] theorem withSecrets_decryptBody (header : MessageHeader) (message : EncryptedMessage) :
    (P.withSecrets encapsulate decapsulate).decryptBody header message =
      P.decryptBody header message := by
  simp only [decryptBody, receiveMessageKey, withSecrets_skipTo]
  rfl

end WithSecrets

/-- The message keys of a session: of the next `n` messages of either chain, and those kept for late
messages. -/
def messageKeys (P : Primitives) (session : TripleRatchetSession) (n : ℕ) :
    Option (List (UInt32 × Key)) × Option (List (UInt32 × Key)) × SkippedKeys :=
  (session.dhRatchet.sendingChain.map fun chain => (P.advanceN n chain).1,
    session.dhRatchet.receivingChain.map fun chain => (P.advanceN n chain).1,
    session.skippedKeys)

end Primitives

/-! ## Sessions -/

def TripleRatchetSession.withPqChainKey (session : TripleRatchetSession) (key : Key) :
    TripleRatchetSession :=
  { session with pqRatchet := { session.pqRatchet with pqChainKey := key } }

/-- The states differ in the post-quantum chain key at most. -/
def SameButChainKey (s t : TripleRatchetSession × OsRng) : Prop :=
  t.2 = s.2 ∧ ∃ key, t.1 = s.1.withPqChainKey key

/-- From such states, the computations run alike. -/
abbrev SameRuns {α : Type} (x y : CryptoM TripleRatchetSession α) : Prop :=
  ∀ s t, SameButChainKey s t → Together SameButChainKey x y s t

section Runs

variable {α β : Type}

theorem sameRuns_iff {x y : CryptoM TripleRatchetSession α} :
    SameRuns x y ↔ ∀ session rng key,
      Together SameButChainKey x y (session, rng) (session.withPqChainKey key, rng) := by
  constructor
  · intro h session rng key
    exact h _ _ ⟨rfl, key, rfl⟩
  · rintro h ⟨session, rng⟩ ⟨session', rng'⟩ ⟨hrng, key, hsession⟩
    dsimp only at hrng hsession
    subst hrng hsession
    exact h session rng' key

theorem sameButChainKey_mk (session : TripleRatchetSession) (rng : OsRng) (key : Key) :
    SameButChainKey (session, rng) (session.withPqChainKey key, rng) := ⟨rfl, key, rfl⟩

theorem SameRuns.bind {x y : CryptoM TripleRatchetSession β}
    {f g : β → CryptoM TripleRatchetSession α} (hx : SameRuns x y) (hf : ∀ b, SameRuns (f b) (g b)) :
    SameRuns (x >>= f) (y >>= g) :=
  fun s t h => (hx s t h).bind fun b => hf b

theorem sameRuns_pure (a : α) : SameRuns (pure a) (pure a) := fun _ _ h => together_pure a h

theorem sameRuns_check (x : Except CryptoError α) : SameRuns (check x) (check x) := by
  intro s t h
  cases x with
  | ok a => exact ⟨rfl, h⟩
  | error e => exact ⟨rfl, h⟩

theorem sameRuns_generateNonce : SameRuns generateNonce generateNonce := by
  rw [sameRuns_iff]
  intro session rng key
  exact ⟨rfl, sameButChainKey_mk session _ key⟩

theorem sameRuns_modifySession {f : TripleRatchetSession → TripleRatchetSession}
    (hf : ∀ session key, f (session.withPqChainKey key) = (f session).withPqChainKey key) :
    SameRuns (modifySession f) (modifySession f) := by
  rw [sameRuns_iff]
  intro session rng key
  refine ⟨rfl, rfl, key, ?_⟩
  exact hf session key

theorem sameRuns_onDhRatchet (x : CryptoM DhRatchetState α) :
    SameRuns (onDhRatchet x) (onDhRatchet x) := by
  rw [sameRuns_iff]
  intro session rng key
  have hratchet : (session.withPqChainKey key).dhRatchet = session.dhRatchet := rfl
  unfold Together
  rw [onDhRatchet, run_onPart, run_onPart, hratchet]
  cases x.run (session.dhRatchet, rng) with
  | ok a s => exact ⟨rfl, rfl, key, rfl⟩
  | error e s => exact ⟨rfl, rfl, key, rfl⟩

theorem storeSkippedKeys_withPqChainKey (session : TripleRatchetSession) (key : Key)
    (dhPublic : PublicKey) (keys : List (UInt32 × Key)) :
    (session.withPqChainKey key).storeSkippedKeys dhPublic keys =
      (session.storeSkippedKeys dhPublic keys).withPqChainKey key := by
  induction keys generalizing session with
  | nil => rfl
  | cons first keys ih => exact ih (session.storeSkippedKey dhPublic first.1 first.2)

end Runs

section Operations

variable (P : Primitives)

/-! ## Decrypting -/

theorem sameRuns_trySkippedKeys (message : EncryptedMessage) :
    SameRuns (P.trySkippedKeys message) (P.trySkippedKeys message) := by
  rw [sameRuns_iff]
  intro session rng key
  have hsame := sameButChainKey_mk session rng key
  have hskipped : (session.withPqChainKey key).skippedKeys = session.skippedKeys := rfl
  have hheader : P.tryHeaderKeys (session.withPqChainKey key) message =
      P.tryHeaderKeys session message := rfl
  rw [Primitives.trySkippedKeys, together_get]
  dsimp only
  rw [hskipped, hheader]
  by_cases hempty : session.skippedKeys.keys.isEmpty = true
  · rw [if_pos hempty]
    exact together_pure none hsame
  · rw [if_neg hempty]
    cases P.tryHeaderKeys session message with
    | none => exact together_pure none hsame
    | some header =>
      dsimp only
      cases session.skippedKeys.lookup (header.dhPublic, header.messageNumber) with
      | none => exact together_pure none hsame
      | some skipped =>
        refine SameRuns.bind ?_ (fun _ => ?_) _ _ hsame
        · exact sameRuns_modifySession fun _ _ => rfl
        · exact (sameRuns_check _).bind fun plaintext => sameRuns_pure (some plaintext)

theorem sameRuns_saveRemainingKeys (header : MessageHeader) :
    SameRuns (P.saveRemainingKeys header) (P.saveRemainingKeys header) := by
  rw [sameRuns_iff]
  intro session rng key
  have hsame := sameButChainKey_mk session rng key
  have hremote : (session.withPqChainKey key).dhRatchet.remotePublic =
      session.dhRatchet.remotePublic := rfl
  rw [Primitives.saveRemainingKeys, together_get]
  dsimp only
  rw [hremote]
  cases session.dhRatchet.remotePublic with
  | none => exact together_pure _ hsame
  | some oldRemote =>
    refine (sameRuns_onDhRatchet _).bind (fun oldKeys => ?_) _ _ hsame
    exact sameRuns_modifySession fun session key =>
      storeSkippedKeys_withPqChainKey session key oldRemote oldKeys

theorem sameRuns_followRatchet (header : MessageHeader) :
    SameRuns (P.followRatchet header) (P.followRatchet header) := by
  refine (sameRuns_saveRemainingKeys P header).bind fun _ => ?_
  refine SameRuns.bind (sameRuns_modifySession ?_) fun _ => ?_
  · intro session key
    rfl
  refine (sameRuns_onDhRatchet _).bind fun headerKeys => ?_
  exact sameRuns_modifySession fun _ _ => rfl

theorem sameRuns_decryptBody (header : MessageHeader) (message : EncryptedMessage) :
    SameRuns (P.decryptBody header message) (P.decryptBody header message) := by
  refine (sameRuns_onDhRatchet _).bind fun keys => ?_
  refine SameRuns.bind (sameRuns_modifySession ?_) fun _ => sameRuns_check _
  exact fun session key => storeSkippedKeys_withPqChainKey session key header.dhPublic keys.2

/-! ## Other secrets -/

variable {P} {encapsulate : KemPublicKey → Bytes 32 → Option (KemCiphertext × Key)}
  {decapsulate : Bytes 2400 → KemCiphertext → Option Key}

/-- **Completing a step** with another secret changes the chain key. -/
theorem sameRuns_followPqStep
    (hdecapsulate : ∀ dk ciphertext,
      (decapsulate dk ciphertext).isSome = (P.kemDecapsulate dk ciphertext).isSome)
    (header : MessageHeader) :
    SameRuns (P.followPqStep header) ((P.withSecrets encapsulate decapsulate).followPqStep header) := by
  rw [sameRuns_iff]
  intro session rng key
  have hsame := sameButChainKey_mk session rng key
  have hpair : (session.withPqChainKey key).pqRatchet.kemPair = session.pqRatchet.kemPair := rfl
  unfold Primitives.followPqStep
  split
  · next ciphertext newPk _ _ =>
    have hsome := hdecapsulate session.pqRatchet.kemPair.dk ciphertext
    unfold Together
    simp only [onPqRatchet, run_onPart, Primitives.completeStep, EStateM.run_bind, EStateM.run_get,
      run_check, Primitives.decapsulate, hpair, Primitives.withSecrets]
    cases hfirst : P.kemDecapsulate session.pqRatchet.kemPair.dk ciphertext with
    | none =>
      rw [hfirst] at hsome
      have hsecond : decapsulate session.pqRatchet.kemPair.dk ciphertext = none := by
        simpa using hsome
      rw [hsecond]
      exact ⟨rfl, hsame⟩
    | some secret =>
      rw [hfirst] at hsome
      obtain ⟨secret', hsecond⟩ := Option.isSome_iff_exists.mp (hsome.trans rfl)
      rw [hsecond]
      exact ⟨trivial, rfl, _, rfl⟩
  · exact together_pure _ hsame

/-- **Starting a step** with another secret changes the chain key. -/
theorem sameRuns_initiateStep
    (hencapsulate : ∀ publicKey random, (encapsulate publicKey random).map Prod.fst =
      (P.kemEncapsulate publicKey random).map Prod.fst) :
    SameRuns (onPqRatchet P.initiateStep)
      (onPqRatchet (P.withSecrets encapsulate decapsulate).initiateStep) := by
  rw [sameRuns_iff]
  intro session rng key
  have hsame := sameButChainKey_mk session rng key
  have hremote : (session.withPqChainKey key).pqRatchet.remoteKemPublic =
      session.pqRatchet.remoteKemPublic := rfl
  unfold Together
  simp only [onPqRatchet, run_onPart, Primitives.initiateStep, EStateM.run_bind, EStateM.run_get,
    hremote]
  cases session.pqRatchet.remoteKemPublic with
  | none => exact ⟨rfl, hsame⟩
  | some remotePk =>
    have hmap := hencapsulate remotePk rng.encapsulation.head
    simp only [EStateM.run_bind, Primitives.run_encapsulate, Primitives.withSecrets]
    cases hfirst : P.kemEncapsulate remotePk rng.encapsulation.head with
    | none =>
      rw [hfirst] at hmap
      have hsecond : encapsulate remotePk rng.encapsulation.head = none := by
        simpa using hmap
      rw [hsecond]
      exact ⟨rfl, sameButChainKey_mk session _ key⟩
    | some first =>
      obtain ⟨ciphertext, secret⟩ := first
      rw [hfirst] at hmap
      obtain ⟨⟨ciphertext', secret'⟩, hsecond, hciphertext⟩ := Option.map_eq_some_iff.mp hmap
      obtain rfl : ciphertext' = ciphertext := hciphertext
      rw [hsecond]
      exact ⟨rfl, rfl, _, rfl⟩

theorem sameRuns_preparePqStep
    (hencapsulate : ∀ publicKey random, (encapsulate publicKey random).map Prod.fst =
      (P.kemEncapsulate publicKey random).map Prod.fst) :
    SameRuns P.preparePqStep (P.withSecrets encapsulate decapsulate).preparePqStep := by
  rw [sameRuns_iff]
  intro session rng key
  have hsame := sameButChainKey_mk session rng key
  have hdue : (session.withPqChainKey key).pqDue = session.pqDue := rfl
  rw [Primitives.preparePqStep, Primitives.preparePqStep, together_get]
  dsimp only
  rw [hdue]
  split_ifs
  · refine (sameRuns_initiateStep hencapsulate).bind (fun _ => ?_) _ _ hsame
    refine SameRuns.bind (sameRuns_modifySession ?_) fun _ => sameRuns_pure _
    exact fun _ _ => rfl
  · exact together_pure _ hsame

/-! ## Messages -/

theorem sameRuns_encryptHeader (headerKey : Key) (header : MessageHeader) :
    SameRuns (P.encryptHeader headerKey header) (P.encryptHeader headerKey header) := by
  refine sameRuns_generateNonce.bind fun nonce => ?_
  cases P.encrypt headerKey nonce header.toBytes [] with
  | ok ciphertext => exact sameRuns_pure _
  | error e => exact fun _ _ h => together_throw _ h

/-- **Encrypting** gives the same message. -/
theorem sameRuns_encryptMessage
    (hencapsulate : ∀ publicKey random, (encapsulate publicKey random).map Prod.fst =
      (P.kemEncapsulate publicKey random).map Prod.fst)
    (plaintext : List UInt8) :
    SameRuns (P.encryptMessage plaintext)
      ((P.withSecrets encapsulate decapsulate).encryptMessage plaintext) := by
  refine (sameRuns_preparePqStep hencapsulate).bind fun kem => ?_
  refine (sameRuns_onDhRatchet P.encryptMessageKey).bind fun keys => ?_
  refine SameRuns.bind (sameRuns_modifySession ?_) fun _ => ?_
  · exact fun _ _ => rfl
  -- the header is made from parts of the session that are the same
  rw [sameRuns_iff]
  intro session rng key
  have hsame := sameButChainKey_mk session rng key
  rw [together_get]
  refine (sameRuns_encryptHeader session.sendingHeaderKey _).bind (fun sealedHeader => ?_) _ _ hsame
  refine sameRuns_generateNonce.bind fun bodyNonce => ?_
  exact (sameRuns_check _).bind fun ciphertext => sameRuns_pure _

/-- **Decrypting** gives the same plaintext. -/
theorem sameRuns_decryptMessage
    (hdecapsulate : ∀ dk ciphertext,
      (decapsulate dk ciphertext).isSome = (P.kemDecapsulate dk ciphertext).isSome)
    (message : EncryptedMessage) :
    SameRuns (P.decryptMessage message)
      ((P.withSecrets encapsulate decapsulate).decryptMessage message) := by
  rw [Primitives.decryptMessage, Primitives.decryptMessage]
  simp only [Primitives.withSecrets_trySkippedKeys, Primitives.withSecrets_followRatchet,
    Primitives.withSecrets_tryDecryptHeaderAndDetectRatchet, Primitives.withSecrets_decryptBody]
  refine (sameRuns_trySkippedKeys P message).bind fun found => ?_
  cases found with
  | some plaintext => exact sameRuns_pure plaintext
  | none =>
    rw [sameRuns_iff]
    intro session rng key
    have hsame := sameButChainKey_mk session rng key
    have hdetect : P.tryDecryptHeaderAndDetectRatchet (session.withPqChainKey key) message =
        P.tryDecryptHeaderAndDetectRatchet session message := rfl
    have hrest : ∀ header : MessageHeader,
        SameRuns (P.followPqStep header >>= fun _ => P.decryptBody header message)
          ((P.withSecrets encapsulate decapsulate).followPqStep header >>= fun _ =>
            P.decryptBody header message) := by
      intro header
      exact (sameRuns_followPqStep hdecapsulate header).bind fun _ =>
        sameRuns_decryptBody P header message
    rw [together_get]
    dsimp only
    rw [hdetect]
    refine (sameRuns_check (P.tryDecryptHeaderAndDetectRatchet session message)).bind
      (fun detected => ?_) _ _ hsame
    obtain ⟨header, dhChanged⟩ := detected
    cases dhChanged with
    | true => exact (sameRuns_followRatchet P header).bind fun _ => hrest header
    | false => exact hrest header

end Operations

/-! ## Networks -/

/-- **Twins**: networks that differ in the post-quantum chain keys of their sessions at most. -/
structure Twin (c d : Network) : Prop where
  session : ∀ p, ∃ key, d.session p = (c.session p).withPqChainKey key
  rng : d.rng = c.rng
  letters : d.letters = c.letters
  delivered : d.delivered = c.delivered
  turn : d.turn = c.turn
  sound : d.sound = c.sound

namespace Twin

variable {P : Primitives} {encapsulate : KemPublicKey → Bytes 32 → Option (KemCiphertext × Key)}
  {decapsulate : Bytes 2400 → KemCiphertext → Option Key} {c d : Network}

theorem refl (c : Network) : Twin c c where
  session p := ⟨(c.session p).pqRatchet.pqChainKey, rfl⟩
  rng := rfl
  letters := rfl
  delivered := rfl
  turn := rfl
  sound := rfl

theorem sameButChainKey (ht : Twin c d) (p : Party) :
    SameButChainKey (c.session p, c.rng) (d.session p, d.rng) := ⟨ht.rng, ht.session p⟩

theorem update (ht : Twin c d) (p : Party) {s t : TripleRatchetSession × OsRng}
    (hst : SameButChainKey s t) (q : Party) :
    ∃ key, Function.update d.session p t.1 q =
      (Function.update c.session p s.1 q).withPqChainKey key := by
  by_cases hq : q = p
  · subst hq
    rw [Function.update_self, Function.update_self]
    exact hst.2
  · rw [Function.update_of_ne hq, Function.update_of_ne hq]
    exact ht.session q

theorem send (ht : Twin c d)
    (hencapsulate : ∀ publicKey random, (encapsulate publicKey random).map Prod.fst =
      (P.kemEncapsulate publicKey random).map Prod.fst)
    (p : Party) (plaintext : List UInt8) :
    Twin (P.sendLetter c p plaintext)
      ((P.withSecrets encapsulate decapsulate).sendLetter d p plaintext) := by
  have hruns := (@sameRuns_encryptMessage _ _ decapsulate) hencapsulate plaintext _ _
    (ht.sameButChainKey p)
  unfold Primitives.sendLetter
  rcases hruns.cases with ⟨message, s, t, hfirst, hsecond, hst⟩ | ⟨e, s, t, hfirst, hsecond, hst⟩
  · rw [hfirst, hsecond]
    have hwrite : (d.write p ⟨message, plaintext⟩).letters = (c.write p ⟨message, plaintext⟩).letters := by
      simp only [Network.write, ht.letters, ht.turn]
    exact ⟨ht.update p hst, hst.1, hwrite, ht.delivered, ht.turn, ht.sound⟩
  · rw [hfirst, hsecond]
    exact ⟨ht.update p hst, hst.1, ht.letters, ht.delivered, ht.turn, rfl⟩

theorem deliver (ht : Twin c d)
    (hdecapsulate : ∀ dk ciphertext,
      (decapsulate dk ciphertext).isSome = (P.kemDecapsulate dk ciphertext).isSome)
    (e i : ℕ) :
    Twin (P.deliverLetter c e i) ((P.withSecrets encapsulate decapsulate).deliverLetter d e i) := by
  unfold Primitives.deliverLetter
  rw [ht.letters]
  cases (c.letters e)[i]? with
  | none => exact ht
  | some letter =>
    have hruns := (@sameRuns_decryptMessage _ encapsulate) hdecapsulate letter.message _ _
      (ht.sameButChainKey (Party.receiver e))
    have hdelivered : (d.arrive e i).delivered = (c.arrive e i).delivered := by
      simp only [Network.arrive, ht.delivered]
    have hturn : (d.arrive e i).turn = (c.arrive e i).turn := by
      simp only [Network.arrive, ht.turn]
    dsimp only
    rcases hruns.cases with ⟨plaintext, s, t, hfirst, hsecond, hst⟩ | ⟨_, s, t, hfirst, hsecond, hst⟩
    · rw [hfirst, hsecond]
      refine ⟨ht.update _ hst, hst.1, ht.letters, hdelivered, hturn, ?_⟩
      simp only [ht.sound, ht.delivered]
    · rw [hfirst, hsecond]
      refine ⟨ht.update _ hst, hst.1, ht.letters, hdelivered, hturn, ?_⟩
      simp only [ht.sound, ht.delivered]

/-- **Run lemma**: twins stay twins. -/
theorem exec (ht : Twin c d)
    (hencapsulate : ∀ publicKey random, (encapsulate publicKey random).map Prod.fst =
      (P.kemEncapsulate publicKey random).map Prod.fst)
    (hdecapsulate : ∀ dk ciphertext,
      (decapsulate dk ciphertext).isSome = (P.kemDecapsulate dk ciphertext).isSome)
    (es : List NetworkEvent) :
    Twin (P.network.exec c es) ((P.withSecrets encapsulate decapsulate).network.exec d es) := by
  induction es generalizing c d with
  | nil => exact ht
  | cons e es ih =>
    apply ih
    cases e with
    | send p plaintext => exact ht.send hencapsulate p plaintext
    | deliver e i => exact ht.deliver hdecapsulate e i

end Twin

/-! ## Message keys -/

/-- **Post-quantum secrets have no influence on message keys**: in two runs of one conversation that
differ in the shared secrets only, the parties have the same message keys at every moment. -/
theorem message_keys_eq {P : Primitives}
    {encapsulate : KemPublicKey → Bytes 32 → Option (KemCiphertext × Key)}
    {decapsulate : Bytes 2400 → KemCiphertext → Option Key}
    (hencapsulate : ∀ publicKey random, (encapsulate publicKey random).map Prod.fst =
      (P.kemEncapsulate publicKey random).map Prod.fst)
    (hdecapsulate : ∀ dk ciphertext,
      (decapsulate dk ciphertext).isSome = (P.kemDecapsulate dk ciphertext).isSome)
    (sharedSecret : Key) (dhPair : KeyPair) (kemPair : KemKeyPair) (rng : OsRng)
    (interval : Party → UInt32) :
    ∀ c, P.startWithKemKeys sharedSecret dhPair kemPair rng interval = .ok c →
      (P.withSecrets encapsulate decapsulate).startWithKemKeys sharedSecret dhPair kemPair rng
        interval = .ok c ∧
      ∀ es p n, (P.withSecrets encapsulate decapsulate).messageKeys
          (((P.withSecrets encapsulate decapsulate).network.exec c es).session p) n =
        P.messageKeys ((P.network.exec c es).session p) n := by
  intro c hstart
  refine ⟨hstart, fun es p n => ?_⟩
  obtain ⟨key, hsession⟩ :=
    ((Twin.refl c).exec hencapsulate hdecapsulate es).session p
  rw [hsession]
  simp only [Primitives.messageKeys, Primitives.withSecrets_advanceN]
  rfl

/-! ## A secret that is lost -/

section Toy

/-- Toy primitives whose key derivation passes on its key material: two bytes of it. -/
def mixingPrimitives : Primitives :=
  { toyPrimitives with
    extract := fun salt ikm => fill 32 fun j =>
      if j = 0 then salt.headD 0 + 1 else if j = 2 then salt.getD 2 0 + ikm.headD 0 else 0
    expand := fun prk _ n => fill n fun j =>
      if j % 32 = 0 then prk.val.headD 0
      else if j % 32 = 1 then .ofNat (j / 32)
      else if j % 32 = 2 then prk.val.getD 2 0
      else 0 }

def otherSecret : Primitives :=
  mixingPrimitives.withSecrets (fun _ _ => some (fill 1088 fun _ => 0, fill 32 fun _ => 1))
    fun _ _ => some (fill 32 fun _ => 1)

theorem mixingPrimitives_correct : mixingPrimitives.Correct := { toyPrimitives_correct with }

/-- The receiver starts a post-quantum step at its second turn. -/
def stepAtSecond : Party → UInt32
  | .alice => 0
  | .bob => 2

/-- Three messages, each with its answer; all arrive. The second answer brings the step. -/
def threeExchanges : List NetworkEvent :=
  [.send .alice [0], .deliver 1 0, .send .bob [1], .deliver 2 0,
    .send .alice [2], .deliver 3 0, .send .bob [3], .deliver 4 0,
    .send .alice [4], .deliver 5 0, .send .bob [5], .deliver 6 0]

/-- **The secret is lost**: both parties complete one step, and their post-quantum chain keys depend
on its secret; their next message keys do not. -/
theorem step_secret_lost :
    mixingPrimitives.Correct ∧
      ∃ c, mixingPrimitives.startWithKemKeys toyKey toyPair toyKemPair numberedRng stepAtSecond =
          .ok c ∧
        System.Legal mixingPrimitives.network System.Free c threeExchanges ∧
        let first := mixingPrimitives.network.exec c threeExchanges
        let second := otherSecret.network.exec c threeExchanges
        (first.sound = true ∧ second.sound = true) ∧
          ∀ p, (first.session p).pqRatchet.stepCounter = 1 ∧
            (second.session p).pqRatchet.stepCounter = 1 ∧
            (first.session p).pqRatchet.pqChainKey ≠ (second.session p).pqRatchet.pqChainKey ∧
            (first.session p).dhRatchet.sendingChain ≠ none ∧
            (otherSecret.messageKeys (second.session p) 1).1 =
              (mixingPrimitives.messageKeys (first.session p) 1).1 := by
  have hrun : ∃ c, mixingPrimitives.startWithKemKeys toyKey toyPair toyKemPair numberedRng
      stepAtSecond = .ok c ∧
        let first := mixingPrimitives.network.exec c threeExchanges
        let second := otherSecret.network.exec c threeExchanges
        System.Legal mixingPrimitives.network System.Free c threeExchanges ∧
          (first.sound = true ∧ second.sound = true) ∧
          ∀ p ∈ [Party.alice, .bob], (first.session p).pqRatchet.stepCounter = 1 ∧
            (second.session p).pqRatchet.stepCounter = 1 ∧
            (first.session p).pqRatchet.pqChainKey ≠ (second.session p).pqRatchet.pqChainKey ∧
            (first.session p).dhRatchet.sendingChain ≠ none ∧
            (otherSecret.messageKeys (second.session p) 1).1 =
              (mixingPrimitives.messageKeys (first.session p) 1).1 :=
    Except.exists_ok (by decide +kernel)
  obtain ⟨c, hstart, hlegal, hsound, hkeys⟩ := hrun
  refine ⟨mixingPrimitives_correct, c, hstart, hlegal, hsound, fun p => hkeys p ?_⟩
  cases p <;> simp

/-- No secret would have been seen in any key. -/
theorem message_keys_eq_mixing :
    ∃ c, mixingPrimitives.startWithKemKeys toyKey toyPair toyKemPair numberedRng stepAtSecond =
      .ok c ∧ ∀ es p n, otherSecret.messageKeys ((otherSecret.network.exec c es).session p) n =
        mixingPrimitives.messageKeys ((mixingPrimitives.network.exec c es).session p) n := by
  obtain ⟨c, -, hstart, -⟩ :=
    startWithKemKeys_idle mixingPrimitives_correct toyKey toyPair toyKemPair numberedRng stepAtSecond
  have hkeys := (@message_keys_eq mixingPrimitives
    (fun _ _ => some (fill 1088 fun _ => 0, fill 32 fun _ => 1))
    (fun _ _ => some (fill 32 fun _ => 1))) (fun _ _ => rfl) (fun _ _ => rfl)
    toyKey toyPair toyKemPair numberedRng stepAtSecond c hstart
  exact ⟨c, hstart, hkeys.2⟩

end Toy

end Pirc.Crypto
