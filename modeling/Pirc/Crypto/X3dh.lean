import Pirc.Crypto.PreKeys

/-!
# Crypto: the X3DH key exchange

`x3dh.rs`: the sender of an exchange takes the receiver's bundle, makes three or four Diffie-Hellman
agreements and one ML-KEM encapsulation, and derives a shared secret; the receiver mirrors them with
what the sender tells it.

## Main results

* `x3dhReceiver_eq`: the receiver's is that of the one-time key it has at hand
-/

namespace Pirc.Crypto

structure X3DHSenderResult where
  sharedSecret : Key
  ephemeralPublic : PublicKey
  kemCiphertext : KemCiphertext
  usedOneTimePreKeyId : Option UInt32
  deriving DecidableEq

/-- What the sender tells the receiver. -/
structure X3DHInitMessage where
  senderIdentity : IdentityPublicKey
  ephemeralPublic : PublicKey
  kemCiphertext : KemCiphertext
  usedOneTimePreKeyId : Option UInt32
  usedSignedPreKeyId : UInt32
  usedKemPreKeyId : UInt32
  deriving DecidableEq

/-- The input of the last derivation: the agreements, the fourth if there is one, and the KEM
secret. -/
def x3dhMaterial (dh1 dh2 dh3 : Key) (dh4 : Option Key) (kemSecret : Key) : List UInt8 :=
  dh1.val ++ dh2.val ++ dh3.val ++ fieldBytes dh4 ++ kemSecret.val

namespace IdentityPrimitives

variable (P : IdentityPrimitives)

/-- The derivation that ends the exchange on both sides. -/
def x3dhDerive (material : List UInt8) : Except CryptoError Key :=
  P.deriveKeyInto (List.replicate 32 0) material (utf8 "pirc-x3dh-shared-secret".toList) 32

def diffieHellmanOption (ourKeys : KeyPair) (theirPublic : Option PublicKey) :
    Except CryptoError (Option Key) :=
  match theirPublic with
  | some theirPublic => (P.diffieHellmanKeypair ourKeys theirPublic).map some
  | none => .ok none

/-- The sender's half. -/
def x3dhSender {σ : Type} (senderIdentity : IdentityKeyPair) (receiverBundle : PreKeyBundle) :
    CryptoM σ (X3DHSenderResult × X3DHInitMessage) := do
  check (P.validate receiverBundle)
  let ephemeral ← generateKeyPair
  let dh1 ← check
    (P.diffieHellmanKeypair senderIdentity.dhKey receiverBundle.signedPreKey.publicKey)
  let dh2 ← check (P.diffieHellmanKeypair ephemeral receiverBundle.identityPublic.dhPublicKey)
  let dh3 ← check (P.diffieHellmanKeypair ephemeral receiverBundle.signedPreKey.publicKey)
  let dh4 ← check
    (P.diffieHellmanOption ephemeral (receiverBundle.oneTimePreKey.map (·.publicKey)))
  let (kemCiphertext, kemSecret) ← P.encapsulate receiverBundle.kemPreKey.publicKey
  let sharedSecret ← check (P.x3dhDerive (x3dhMaterial dh1 dh2 dh3 dh4 kemSecret))
  let usedId := receiverBundle.oneTimePreKey.map (·.id)
  return (
    { sharedSecret := sharedSecret
      ephemeralPublic := P.publicKey ephemeral
      kemCiphertext := kemCiphertext
      usedOneTimePreKeyId := usedId },
    { senderIdentity := P.publicIdentity senderIdentity
      ephemeralPublic := P.publicKey ephemeral
      kemCiphertext := kemCiphertext
      usedOneTimePreKeyId := usedId
      usedSignedPreKeyId := receiverBundle.signedPreKey.id
      usedKemPreKeyId := receiverBundle.kemPreKey.id })

/-- The receiver's half: it does not look at the ids in the message. -/
def x3dhReceiver (receiverIdentity : IdentityKeyPair) (signedPreKey : SignedPreKey)
    (kemPreKey : KemPreKey) (oneTimePreKey : Option OneTimePreKey) (initMessage : X3DHInitMessage) :
    Except CryptoError Key := do
  let dh1 ← P.diffieHellmanKeypair signedPreKey.keyPair initMessage.senderIdentity.dhPublicKey
  let dh2 ← P.diffieHellmanKeypair receiverIdentity.dhKey initMessage.ephemeralPublic
  let dh3 ← P.diffieHellmanKeypair signedPreKey.keyPair initMessage.ephemeralPublic
  let dh4 ←
    match oneTimePreKey with
    | some oneTimePreKey =>
      (P.diffieHellmanKeypair oneTimePreKey.keyPair initMessage.ephemeralPublic).map some
    | none => .ok none
  let kemSecret ← P.decapsulate kemPreKey.kemPair initMessage.kemCiphertext
  P.x3dhDerive (x3dhMaterial dh1 dh2 dh3 dh4 kemSecret)

/-! ## Agreement -/

/-- The bundle of someone's keys. -/
def publish (identity : IdentityKeyPair) (signedPreKey : SignedPreKey) (kemPreKey : KemPreKey)
    (oneTimePreKey : Option OneTimePreKey) : PreKeyBundle where
  identityPublic := P.publicIdentity identity
  signedPreKey := P.signedPreKeyPublic signedPreKey
  kemPreKey := kemPreKey.toPublic
  oneTimePreKey := oneTimePreKey.map P.oneTimePreKeyPublic

/-- The secret that comes of an exchange between two identities, as the receiver computes it. -/
def x3dhSecret (sender receiver : IdentityKeyPair) (signedPreKey : SignedPreKey)
    (oneTimePreKey : Option OneTimePreKey) (ephemeral : KeyPair) (kemSecret : Key) : Key :=
  P.expand
    (P.extract (List.replicate 32 0)
      (x3dhMaterial (P.x25519 signedPreKey.keyPair.secret (P.publicKey sender.dhKey))
        (P.x25519 receiver.dhKey.secret (P.publicKey ephemeral))
        (P.x25519 signedPreKey.keyPair.secret (P.publicKey ephemeral))
        (oneTimePreKey.map fun preKey => P.x25519 preKey.keyPair.secret (P.publicKey ephemeral))
        kemSecret))
    (utf8 "pirc-x3dh-shared-secret".toList) 32

variable {P} {σ : Type} {sender receiver : IdentityKeyPair} {signedPreKey : SignedPreKey}
  {kemPreKey : KemPreKey} {oneTimePreKey : Option OneTimePreKey}

theorem Genuine.validate_publish (hg : P.Genuine receiver signedPreKey kemPreKey)
    (oneTimePreKey : Option OneTimePreKey) :
    P.validate (P.publish receiver signedPreKey kemPreKey oneTimePreKey) = .ok () := by
  have hsigned : P.verify (P.publicIdentity receiver) (P.publicKey signedPreKey.keyPair).val
      signedPreKey.signature = .ok () := if_pos hg.signed
  have hkemSigned : P.verify (P.publicIdentity receiver) kemPreKey.kemPair.ek.val
      kemPreKey.signature = .ok () := if_pos hg.kemSigned
  exact Except.bind_eq_ok.mpr ⟨(), hsigned, hkemSigned⟩

/-- **The sender's half**, on the bundle of genuine keys. -/
theorem x3dhSender_run (h : P.Correct) (hg : P.Genuine receiver signedPreKey kemPreKey)
    (sender : IdentityKeyPair) (oneTimePreKey : Option OneTimePreKey) (s : σ) (rng : OsRng) :
    ∃ ciphertext kemSecret,
      P.kemDecapsulate kemPreKey.kemPair.dk ciphertext = some kemSecret ∧
      (P.x3dhSender sender (P.publish receiver signedPreKey kemPreKey oneTimePreKey)).run (s, rng) =
        .ok
          ({ sharedSecret := P.x3dhSecret sender receiver signedPreKey oneTimePreKey
              ⟨rng.x25519.head⟩ kemSecret
             ephemeralPublic := P.publicKey ⟨rng.x25519.head⟩
             kemCiphertext := ciphertext
             usedOneTimePreKeyId := oneTimePreKey.map (·.id) },
            { senderIdentity := P.publicIdentity sender
              ephemeralPublic := P.publicKey ⟨rng.x25519.head⟩
              kemCiphertext := ciphertext
              usedOneTimePreKeyId := oneTimePreKey.map (·.id)
              usedSignedPreKeyId := signedPreKey.id
              usedKemPreKeyId := kemPreKey.id })
          (s, { rng with
            x25519 := rng.x25519.tail
            encapsulation := rng.encapsulation.tail }) := by
  obtain ⟨seed, hseed⟩ := hg.kemGenerated
  obtain ⟨⟨ciphertext, kemSecret⟩, hencapsulate⟩ := Option.isSome_iff_exists.mp
    (h.kemEncapsulate_isSome kemPreKey.kemPair.ek rng.encapsulation.head)
  refine ⟨ciphertext, kemSecret, ?_, ?_⟩
  · rw [hseed] at hencapsulate ⊢
    exact h.kemDecapsulate_eq seed _ _ _ hencapsulate
  have hagree : ∀ a b : KeyPair, P.diffieHellmanKeypair a (P.publicKey b) =
      .ok (P.x25519 b.secret (P.publicKey a)) := by
    intro a b
    rw [Primitives.diffieHellmanKeypair_eq h.toCorrect]
    exact congrArg Except.ok (h.x25519_comm _ _)
  have hoption : P.diffieHellmanOption ⟨rng.x25519.head⟩
      ((P.publish receiver signedPreKey kemPreKey oneTimePreKey).oneTimePreKey.map (·.publicKey)) =
      .ok (oneTimePreKey.map fun preKey =>
        P.x25519 preKey.keyPair.secret (P.publicKey ⟨rng.x25519.head⟩)) := by
    cases oneTimePreKey with
    | none => rfl
    | some preKey =>
      change (P.diffieHellmanKeypair _ (P.publicKey preKey.keyPair)).map some = _
      rw [hagree]
      rfl
  have hids : (P.publish receiver signedPreKey kemPreKey oneTimePreKey).oneTimePreKey.map (·.id) =
      oneTimePreKey.map (·.id) := by
    cases oneTimePreKey <;> rfl
  have hidentity : (P.publish receiver signedPreKey kemPreKey
      oneTimePreKey).identityPublic.dhPublicKey = P.publicKey receiver.dhKey := rfl
  have hsigned : (P.publish receiver signedPreKey kemPreKey oneTimePreKey).signedPreKey.publicKey =
      P.publicKey signedPreKey.keyPair := rfl
  have hkem : (P.publish receiver signedPreKey kemPreKey oneTimePreKey).kemPreKey.publicKey =
      kemPreKey.kemPair.ek := rfl
  simp only [x3dhSender, EStateM.run_bind, run_check, hg.validate_publish, run_generateKeyPair,
    hidentity, hsigned, hkem, hagree, hoption, hids, Primitives.run_encapsulate, hencapsulate]
  rfl

theorem x3dhReceiver_eq (h : P.Correct) (ephemeral : KeyPair) (heldKey : Option OneTimePreKey)
    {initMessage : X3DHInitMessage} {kemSecret : Key}
    (hsender : initMessage.senderIdentity = P.publicIdentity sender)
    (hephemeral : initMessage.ephemeralPublic = P.publicKey ephemeral)
    (hkem : P.kemDecapsulate kemPreKey.kemPair.dk initMessage.kemCiphertext = some kemSecret) :
    P.x3dhReceiver receiver signedPreKey kemPreKey heldKey initMessage =
      .ok (P.x3dhSecret sender receiver signedPreKey heldKey ephemeral kemSecret) := by
  have hdh : initMessage.senderIdentity.dhPublicKey = P.publicKey sender.dhKey := by
    rw [hsender]
    rfl
  have hdecapsulate : P.decapsulate kemPreKey.kemPair initMessage.kemCiphertext = .ok kemSecret := by
    unfold Primitives.decapsulate
    rw [hkem]
  have hfirst := Primitives.diffieHellmanKeypair_eq h.toCorrect
  unfold x3dhReceiver
  rw [hdh, hephemeral]
  refine Except.bind_eq_ok.mpr ⟨_, hfirst _ _, Except.bind_eq_ok.mpr ⟨_, hfirst _ _,
    Except.bind_eq_ok.mpr ⟨_, hfirst _ _, ?_⟩⟩⟩
  cases heldKey with
  | none => exact Except.bind_eq_ok.mpr ⟨_, rfl, Except.bind_eq_ok.mpr ⟨_, hdecapsulate, rfl⟩⟩
  | some preKey =>
    refine Except.bind_eq_ok.mpr ⟨_, ?_, Except.bind_eq_ok.mpr ⟨_, hdecapsulate, rfl⟩⟩
    rw [hfirst]
    rfl

end IdentityPrimitives

end Pirc.Crypto
