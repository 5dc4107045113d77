import Pirc.Crypto.TripleRatchet

/-!
# Crypto: identities and pre-keys

`signing.rs`, `identity.rs` and `prekey.rs`: long-term identities with a signing key and an X25519
key, and the signed keys that a user publishes so that others can start a session while the user is
away.
-/

namespace Pirc.Crypto

/-! ## Signatures -/

abbrev SigningKey := Bytes 4032

abbrev VerifyingKey := Bytes 1952

abbrev Signature := Bytes 3309

structure SigningKeyPair where
  sk : SigningKey
  vk : VerifyingKey
  deriving DecidableEq

/-- The primitives, with the signatures of ML-DSA-65. -/
structure IdentityPrimitives extends Primitives where
  /-- The ML-DSA-65 key pair made from random bytes. -/
  signingGenerate : Bytes 32 → SigningKeyPair
  /-- Deterministic signing with an empty context. -/
  signDeterministic : SigningKey → List UInt8 → Option Signature
  verifySignature : VerifyingKey → List UInt8 → Signature → Bool
  /-- The bytes are those of a signature. -/
  parseSignature : Signature → Bool

/-- **Correctness of all primitives**: also ML-KEM gives back the shared secret, and a signature is
accepted. -/
structure IdentityPrimitives.Correct (P : IdentityPrimitives) : Prop extends
    P.toPrimitives.Correct where
  kemEncapsulate_isSome : ∀ publicKey random, (P.kemEncapsulate publicKey random).isSome = true
  kemDecapsulate_eq : ∀ seed random ciphertext secret,
    P.kemEncapsulate (P.kemGenerate seed).ek random = some (ciphertext, secret) →
      P.kemDecapsulate (P.kemGenerate seed).dk ciphertext = some secret
  signDeterministic_isSome : ∀ sk message, (P.signDeterministic sk message).isSome = true
  verifySignature_eq : ∀ seed message signature,
    P.signDeterministic (P.signingGenerate seed).sk message = some signature →
      P.verifySignature (P.signingGenerate seed).vk message signature = true
  parseSignature_eq : ∀ sk message signature, P.signDeterministic sk message = some signature →
    P.parseSignature signature = true

structure IdentityPrimitives.Committing (P : IdentityPrimitives) : Prop extends
    correct : P.Correct, P.toPrimitives.Committing

instance (P : IdentityPrimitives) : Coe P.Committing P.Correct := ⟨IdentityPrimitives.Committing.correct⟩

/-! ## Identities -/

structure IdentityKeyPair where
  signingKey : SigningKeyPair
  dhKey : KeyPair
  deriving DecidableEq

structure IdentityPublicKey where
  verifyingKey : VerifyingKey
  dhPublicKey : PublicKey
  deriving DecidableEq

/-! ## Pre-keys -/

/-- A medium-term X25519 key pair, signed with the identity. -/
structure SignedPreKey where
  id : UInt32
  keyPair : KeyPair
  signature : Signature
  timestamp : UInt64
  deriving DecidableEq

structure SignedPreKeyPublic where
  id : UInt32
  publicKey : PublicKey
  signature : Signature
  timestamp : UInt64
  deriving DecidableEq

/-- An X25519 key pair that is used once. -/
structure OneTimePreKey where
  id : UInt32
  keyPair : KeyPair
  deriving DecidableEq

structure OneTimePreKeyPublic where
  id : UInt32
  publicKey : PublicKey
  deriving DecidableEq

/-- An ML-KEM key pair, signed with the identity. -/
structure KemPreKey where
  id : UInt32
  kemPair : KemKeyPair
  signature : Signature
  deriving DecidableEq

structure KemPreKeyPublic where
  id : UInt32
  publicKey : KemPublicKey
  signature : Signature
  deriving DecidableEq

/-- What is published. -/
structure PreKeyBundle where
  identityPublic : IdentityPublicKey
  signedPreKey : SignedPreKeyPublic
  kemPreKey : KemPreKeyPublic
  oneTimePreKey : Option OneTimePreKeyPublic
  deriving DecidableEq

namespace IdentityPrimitives

variable (P : IdentityPrimitives)

/-- `IdentityKeyPair::public_identity`. -/
def publicIdentity (identity : IdentityKeyPair) : IdentityPublicKey where
  verifyingKey := identity.signingKey.vk
  dhPublicKey := P.publicKey identity.dhKey

def sign (identity : IdentityKeyPair) (message : List UInt8) : Except CryptoError Signature :=
  match P.signDeterministic identity.signingKey.sk message with
  | some signature => .ok signature
  | none => .error (.signature "signing failed: signature error")

def verify (identity : IdentityPublicKey) (message : List UInt8) (signature : Signature) :
    Except CryptoError Unit :=
  if P.verifySignature identity.verifyingKey message signature then .ok ()
  else .error (.signature "verification failed: signature error")

section Generate

variable {σ : Type}

/-- `IdentityKeyPair::generate`, with the random bytes of its signing key. -/
def generateIdentity (seed : Bytes 32) : CryptoM σ IdentityKeyPair := do
  let dhKey ← generateKeyPair
  return { signingKey := P.signingGenerate seed, dhKey := dhKey }

/-- `SignedPreKey::generate`. -/
def generateSignedPreKey (id : UInt32) (identity : IdentityKeyPair) (timestamp : UInt64) :
    CryptoM σ SignedPreKey := do
  let keyPair ← generateKeyPair
  let signature ← check (P.sign identity (P.publicKey keyPair).val)
  return { id := id, keyPair := keyPair, signature := signature, timestamp := timestamp }

/-- `OneTimePreKey::generate`. -/
def generateOneTimePreKey (id : UInt32) : CryptoM σ OneTimePreKey := do
  let keyPair ← generateKeyPair
  return { id := id, keyPair := keyPair }

/-- `KemPreKey::generate`. -/
def generateKemPreKey (id : UInt32) (identity : IdentityKeyPair) : CryptoM σ KemPreKey := do
  let kemPair ← P.generateKemKeyPair
  let signature ← check (P.sign identity kemPair.ek.val)
  return { id := id, kemPair := kemPair, signature := signature }

end Generate

def signedPreKeyPublic (preKey : SignedPreKey) : SignedPreKeyPublic where
  id := preKey.id
  publicKey := P.publicKey preKey.keyPair
  signature := preKey.signature
  timestamp := preKey.timestamp

def oneTimePreKeyPublic (preKey : OneTimePreKey) : OneTimePreKeyPublic where
  id := preKey.id
  publicKey := P.publicKey preKey.keyPair

/-- Check both signatures of a bundle against its identity. -/
def validate (bundle : PreKeyBundle) : Except CryptoError Unit := do
  P.verify bundle.identityPublic bundle.signedPreKey.publicKey.val bundle.signedPreKey.signature
  P.verify bundle.identityPublic bundle.kemPreKey.publicKey.val bundle.kemPreKey.signature

end IdentityPrimitives

def KemPreKey.toPublic (preKey : KemPreKey) : KemPreKeyPublic where
  id := preKey.id
  publicKey := preKey.kemPair.ek
  signature := preKey.signature

/-! ## Genuine keys -/

/-- **Genuine pre-keys** of an identity: both are signed with it, and the KEM pair was generated. -/
structure IdentityPrimitives.Genuine (P : IdentityPrimitives) (identity : IdentityKeyPair)
    (signedPreKey : SignedPreKey) (kemPreKey : KemPreKey) : Prop where
  signed : P.verifySignature identity.signingKey.vk (P.publicKey signedPreKey.keyPair).val
    signedPreKey.signature = true
  kemSigned : P.verifySignature identity.signingKey.vk kemPreKey.kemPair.ek.val
    kemPreKey.signature = true
  kemGenerated : ∃ seed, kemPreKey.kemPair = P.kemGenerate seed

end Pirc.Crypto
