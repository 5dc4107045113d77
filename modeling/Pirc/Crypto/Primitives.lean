import Mathlib.Data.Stream.Defs
import Pirc.Lib.Outcome
import Pirc.Lib.Text

/-!
# Crypto: primitives

`kdf.rs`, `aead.rs`, `x25519.rs` and `kem.rs`: the wrappers around the crates that compute, which
are parameters. Randomness is a state: the values the operating system's generator will give.
-/

namespace Pirc.Crypto

/-! ## Sizes and errors -/

abbrev Bytes (n : ℕ) := { bytes : List UInt8 // bytes.length = n }

def keySize : ℕ := 32

/-- The most that HKDF with SHA-256 expands to. -/
def maxOutputLen : ℕ := 255 * keySize

def nonceSize : ℕ := 12

def tagSize : ℕ := 16

def publicKeyLen : ℕ := 1184

def secretKeyLen : ℕ := 2400

def ciphertextLen : ℕ := 1088

/-- Symmetric keys: root, chain, message and header keys, and shared secrets. -/
abbrev Key := Bytes 32

abbrev Nonce := Bytes 12

abbrev PublicKey := Bytes 32

abbrev KemPublicKey := Bytes 1184

abbrev KemCiphertext := Bytes 1088

structure KeyPair where
  secret : Bytes 32
  deriving DecidableEq

structure KemKeyPair where
  dk : Bytes 2400
  ek : KemPublicKey
  deriving DecidableEq

/-- Errors of cryptographic operations; a panic ends a computation as an error does. -/
inductive CryptoError
  | keyExchange (message : String)
  | aead (message : String)
  | keyDerivation (message : String)
  | kem (message : String)
  | signature (message : String)
  | ratchet (message : String)
  | headerEncryption (message : String)
  | serialization (message : String)
  | invalidKey (message : String)
  | panicked (message : String)
  deriving DecidableEq

def CryptoError.display : CryptoError → String
  | keyExchange message => "key exchange error: " ++ message
  | aead message => "AEAD error: " ++ message
  | keyDerivation message => "key derivation error: " ++ message
  | kem message => "KEM error: " ++ message
  | signature message => "signature error: " ++ message
  | ratchet message => "ratchet error: " ++ message
  | headerEncryption message => "header encryption error: " ++ message
  | serialization message => "serialization error: " ++ message
  | invalidKey message => "invalid key: " ++ message
  | panicked message => message

/-! ## The crates -/

/-- HKDF-SHA-256, AES-256-GCM, X25519 and ML-KEM-768. -/
structure Primitives where
  /-- HKDF-Extract of a salt and input key material. -/
  extract : List UInt8 → List UInt8 → Key
  /-- HKDF-Expand of a key with an info string. -/
  expand : Key → List UInt8 → (n : ℕ) → Bytes n
  /-- The X25519 public key of a secret. -/
  x25519Public : Bytes 32 → PublicKey
  /-- The raw X25519 function of a secret and a public key. -/
  x25519 : Bytes 32 → PublicKey → Bytes 32
  /-- The ML-KEM key pair made from random bytes. -/
  kemGenerate : Bytes 64 → KemKeyPair
  /-- ML-KEM encapsulation with random bytes. -/
  kemEncapsulate : KemPublicKey → Bytes 32 → Option (KemCiphertext × Key)
  kemDecapsulate : Bytes 2400 → KemCiphertext → Option Key
  /-- AES-256-GCM encryption with key, nonce, plaintext and associated data. -/
  aesEncrypt : Key → Nonce → List UInt8 → List UInt8 → Option (List UInt8)
  aesDecrypt : Key → Nonce → List UInt8 → List UInt8 → Option (List UInt8)

/-- **Correctness of the primitives**: X25519 agrees and never gives zero for generated keys, and
AES-256-GCM adds a tag and gives back what it encrypted. -/
structure Primitives.Correct (P : Primitives) : Prop where
  x25519_comm : ∀ a b, P.x25519 a (P.x25519Public b) = P.x25519 b (P.x25519Public a)
  x25519_ne_zero : ∀ a b, (P.x25519 a (P.x25519Public b)).val ≠ List.replicate 32 0
  aesEncrypt_some : ∀ key nonce plaintext aad, ∃ ciphertext,
    P.aesEncrypt key nonce plaintext aad = some ciphertext ∧
      tagSize ≤ ciphertext.length
  aesDecrypt_eq : ∀ key nonce plaintext aad ciphertext,
    P.aesEncrypt key nonce plaintext aad = some ciphertext →
      P.aesDecrypt key nonce ciphertext aad = some plaintext

/-- Besides, AES-256-GCM rejects what was encrypted with another key: for readers that try one key
after the other. -/
structure Primitives.Committing (P : Primitives) : Prop extends P.Correct where
  aesDecrypt_other : ∀ key key' nonce plaintext aad ciphertext,
    P.aesEncrypt key nonce plaintext aad = some ciphertext → key' ≠ key →
      P.aesDecrypt key' nonce ciphertext aad = none

instance (P : Primitives) : Coe P.Committing P.Correct := ⟨Primitives.Committing.toCorrect⟩

/-! ## Randomness -/

/-- The operating system's random generator: what it will give, by use. -/
structure OsRng where
  x25519 : Stream' (Bytes 32)
  mlKem : Stream' (Bytes 64)
  encapsulation : Stream' (Bytes 32)
  nonces : Stream' Nonce

/-- A computation on a state that may fail and draws random values. What it changed before it failed
stays changed, as through a `&mut`. -/
abbrev CryptoM (σ α : Type) := EStateM CryptoError (σ × OsRng) α

section Monad

variable {σ τ α : Type}

def check (x : Except CryptoError α) : CryptoM σ α := fun s =>
  match x with
  | .ok a => .ok a s
  | .error e => .error e s

def onPart (part : σ → τ) (put : τ → σ → σ) (x : CryptoM τ α) : CryptoM σ α := fun (s, rng) =>
  match x.run (part s, rng) with
  | .ok a (t, rng) => .ok a (put t s, rng)
  | .error e (t, rng) => .error e (put t s, rng)

/-- `KeyPair::generate`. -/
def generateKeyPair : CryptoM σ KeyPair := fun (s, rng) =>
  .ok ⟨rng.x25519.head⟩ (s, { rng with x25519 := rng.x25519.tail })

def generateNonce : CryptoM σ Nonce := fun (s, rng) =>
  .ok rng.nonces.head (s, { rng with nonces := rng.nonces.tail })

@[simp] theorem run_check (x : Except CryptoError α) (s : σ × OsRng) :
    (check x : CryptoM σ α).run s =
      match x with
      | .ok a => .ok a s
      | .error e => .error e s := rfl

@[simp] theorem run_onPart (part : σ → τ) (put : τ → σ → σ) (x : CryptoM τ α) (s : σ)
    (rng : OsRng) : (onPart part put x).run (s, rng) =
      match x.run (part s, rng) with
      | .ok a (t, rng) => .ok a (put t s, rng)
      | .error e (t, rng) => .error e (put t s, rng) := rfl

@[simp] theorem run_generateKeyPair (s : σ) (rng : OsRng) :
    (generateKeyPair : CryptoM σ KeyPair).run (s, rng) =
      .ok ⟨rng.x25519.head⟩ (s, { rng with x25519 := rng.x25519.tail }) := rfl

@[simp] theorem run_generateNonce (s : σ) (rng : OsRng) :
    (generateNonce : CryptoM σ Nonce).run (s, rng) =
      .ok rng.nonces.head (s, { rng with nonces := rng.nonces.tail }) := rfl

theorem within_check {R : σ × OsRng → σ × OsRng → Prop} [Std.Refl R] (x : Except CryptoError α) :
    Within R (check x : CryptoM σ α) := by
  intro s
  unfold wp
  rw [run_check]
  cases x with
  | ok a => exact Std.Refl.refl s
  | error e => exact Std.Refl.refl s

end Monad

namespace Primitives

variable (P : Primitives)

/-! ## Key derivation -/

/-- HKDF with an output of this length. -/
def deriveKeyInto (salt ikm info : List UInt8) (n : ℕ) : Except CryptoError (Bytes n) :=
  if n = 0 then .error (.keyDerivation "output length must be at least 1")
  else if maxOutputLen < n then
    .error (.keyDerivation "expand failed: invalid number of blocks, too large output")
  else .ok (P.expand (P.extract salt ikm) info n)

/-- Advance a chain by one step: the next chain key and a message key. -/
def kdfChain (chainKey : Key) (input : List UInt8) : Key × Key :=
  let prk := P.extract chainKey.val input
  (P.expand prk (utf8 "pirc-chain-key".toList) 32, P.expand prk (utf8 "pirc-message-key".toList) 32)

/-! ## Authenticated encryption -/

def encrypt (key : Key) (nonce : Nonce) (plaintext aad : List UInt8) :
    Except CryptoError (List UInt8) :=
  match P.aesEncrypt key nonce plaintext aad with
  | some ciphertext => .ok ciphertext
  | none => .error (.aead "encryption failed: aead::Error")

def decrypt (key : Key) (nonce : Nonce) (ciphertext aad : List UInt8) :
    Except CryptoError (List UInt8) :=
  if ciphertext.length < tagSize then
    .error (.aead "ciphertext too short to contain authentication tag")
  else
    match P.aesDecrypt key nonce ciphertext aad with
    | some plaintext => .ok plaintext
    | none => .error (.aead "decryption failed: aead::Error")

/-! ## Key agreement -/

def publicKey (pair : KeyPair) : PublicKey := P.x25519Public pair.secret

/-- Agree on a shared secret; a public key of low order is refused. -/
def diffieHellmanKeypair (ourKeys : KeyPair) (theirPublic : PublicKey) : Except CryptoError Key :=
  let bytes := P.x25519 ourKeys.secret theirPublic
  if bytes.val = List.replicate 32 0 then
    .error (.keyExchange "DH produced all-zero shared secret (low-order point)")
  else .ok bytes

/-! ## Key encapsulation -/

section Kem

variable {σ : Type}

/-- `KemKeyPair::generate`. -/
def generateKemKeyPair : CryptoM σ KemKeyPair := fun (s, rng) =>
  .ok (P.kemGenerate rng.mlKem.head) (s, { rng with mlKem := rng.mlKem.tail })

@[simp] theorem run_generateKemKeyPair (s : σ) (rng : OsRng) :
    (P.generateKemKeyPair : CryptoM σ KemKeyPair).run (s, rng) =
      .ok (P.kemGenerate rng.mlKem.head) (s, { rng with mlKem := rng.mlKem.tail }) := rfl

def encapsulate (publicKey : KemPublicKey) : CryptoM σ (KemCiphertext × Key) := fun (s, rng) =>
  let rng' := { rng with encapsulation := rng.encapsulation.tail }
  match P.kemEncapsulate publicKey rng.encapsulation.head with
  | some x => .ok x (s, rng')
  | none => .error (.kem "encapsulation failed") (s, rng')

@[simp] theorem run_encapsulate (publicKey : KemPublicKey) (s : σ) (rng : OsRng) :
    (P.encapsulate publicKey).run (s, rng) =
      match P.kemEncapsulate publicKey rng.encapsulation.head with
      | some x => .ok x (s, { rng with encapsulation := rng.encapsulation.tail })
      | none =>
        .error (.kem "encapsulation failed")
          (s, { rng with encapsulation := rng.encapsulation.tail }) := rfl

def decapsulate (pair : KemKeyPair) (ciphertext : KemCiphertext) : Except CryptoError Key :=
  match P.kemDecapsulate pair.dk ciphertext with
  | some secret => .ok secret
  | none => .error (.kem "decapsulation failed")

end Kem

/-! ## What correct primitives do -/

section Correct

variable {P} (h : P.Correct)
include h

theorem exists_encrypt_eq (key : Key) (nonce : Nonce) (plaintext aad : List UInt8) :
    ∃ ciphertext, P.encrypt key nonce plaintext aad = .ok ciphertext := by
  obtain ⟨ciphertext, heq, -⟩ := h.aesEncrypt_some key nonce plaintext aad
  refine ⟨ciphertext, ?_⟩
  simp [encrypt, heq]

variable {key key' : Key} {nonce : Nonce} {plaintext aad ciphertext : List UInt8}

theorem aesEncrypt_of_encrypt (heq : P.encrypt key nonce plaintext aad = .ok ciphertext) :
    P.aesEncrypt key nonce plaintext aad = some ciphertext ∧ ¬ ciphertext.length < tagSize := by
  obtain ⟨c, hsome, hlen⟩ := h.aesEncrypt_some key nonce plaintext aad
  simp only [encrypt, hsome, Except.ok.injEq] at heq
  subst heq
  exact ⟨hsome, by omega⟩

theorem decrypt_encrypt (heq : P.encrypt key nonce plaintext aad = .ok ciphertext) :
    P.decrypt key nonce ciphertext aad = .ok plaintext := by
  obtain ⟨hsome, hlen⟩ := aesEncrypt_of_encrypt h heq
  simp [decrypt, hlen, h.aesDecrypt_eq _ _ _ _ _ hsome]

theorem diffieHellmanKeypair_eq (ours theirs : KeyPair) :
    P.diffieHellmanKeypair ours (P.publicKey theirs) = .ok (P.x25519 ours.secret (P.publicKey theirs)) :=
  if_neg (h.x25519_ne_zero ours.secret theirs.secret)

end Correct

theorem decrypt_other {P : Primitives} (h : P.Committing) {key key' : Key} {nonce : Nonce}
    {plaintext aad ciphertext : List UInt8}
    (heq : P.encrypt key nonce plaintext aad = .ok ciphertext) (hne : key' ≠ key) :
    P.decrypt key' nonce ciphertext aad = .error (.aead "decryption failed: aead::Error") := by
  obtain ⟨hsome, hlen⟩ := aesEncrypt_of_encrypt h heq
  simp [decrypt, hlen, h.aesDecrypt_other _ _ _ _ _ _ hsome hne]

end Primitives

end Pirc.Crypto
