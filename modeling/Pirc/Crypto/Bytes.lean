import Pirc.Crypto.X3dh

/-!
# Crypto: what is exchanged, as bytes

The formats of `identity.rs`, `prekey.rs`, `x3dh.rs`, `protocol.rs` and of encrypted messages in
`message.rs`. A slice that is out of range panics; where the source checks a length first, it never
is.
-/

namespace Pirc.Crypto

/-! ## Reading -/

def takeBytes (n : ℕ) (bytes : List UInt8) : Except CryptoError (Bytes n × List UInt8) :=
  if h : n ≤ bytes.length then .ok (⟨bytes.take n, List.length_take_of_le h⟩, bytes.drop n)
  else .error (.panicked "range end index out of range for slice")

def leBytes : ℕ → ℕ → List UInt8
  | 0, _ => []
  | width + 1, n => .ofNat n :: leBytes width (n / 256)

def fromLeBytes : List UInt8 → ℕ
  | [] => 0
  | byte :: bytes => byte.toNat + 256 * fromLeBytes bytes

/-- A 32-bit integer, little-endian, and the rest. -/
def takeU32 (bytes : List UInt8) : Except CryptoError (UInt32 × List UInt8) := do
  let (word, rest) ← takeBytes 4 bytes
  return (.ofNat (fromLeBytes word.val), rest)

def takeU64 (bytes : List UInt8) : Except CryptoError (UInt64 × List UInt8) := do
  let (word, rest) ← takeBytes 8 bytes
  return (.ofNat (fromLeBytes word.val), rest)

@[simp] theorem length_leBytes (width n : ℕ) : (leBytes width n).length = width := by
  induction width generalizing n with
  | zero => rfl
  | succ width ih => simp [leBytes, ih]

theorem fromLeBytes_leBytes (width n : ℕ) : fromLeBytes (leBytes width n) = n % 256 ^ width := by
  induction width generalizing n with
  | zero => simp [leBytes, fromLeBytes, Nat.mod_one]
  | succ width ih =>
    simp only [leBytes, fromLeBytes, ih, UInt8.toNat_ofNat']
    rw [pow_succ' 256 width, Nat.mod_mul]

@[simp] theorem takeBytes_append {n : ℕ} (bytes : Bytes n) (rest : List UInt8) :
    takeBytes n (bytes.val ++ rest) = .ok (bytes, rest) := by
  obtain ⟨bytes, rfl⟩ := bytes
  simp [takeBytes]

theorem takeBytes_leBytes (width n : ℕ) (rest : List UInt8) :
    takeBytes width (leBytes width n ++ rest) = .ok (⟨leBytes width n, by simp⟩, rest) :=
  takeBytes_append ⟨leBytes width n, length_leBytes width n⟩ rest

@[simp] theorem takeU32_leBytes (n : UInt32) (rest : List UInt8) :
    takeU32 (leBytes 4 n.toNat ++ rest) = .ok (n, rest) := by
  have hlt : n.toNat < 256 ^ 4 := n.toNat_lt
  unfold takeU32
  rw [takeBytes_leBytes]
  change Except.ok (UInt32.ofNat (fromLeBytes (leBytes 4 n.toNat)), rest) = _
  rw [fromLeBytes_leBytes, Nat.mod_eq_of_lt hlt, UInt32.ofNat_toNat]

@[simp] theorem takeU64_leBytes (n : UInt64) (rest : List UInt8) :
    takeU64 (leBytes 8 n.toNat ++ rest) = .ok (n, rest) := by
  have hlt : n.toNat < 256 ^ 8 := n.toNat_lt
  unfold takeU64
  rw [takeBytes_leBytes]
  change Except.ok (UInt64.ofNat (fromLeBytes (leBytes 8 n.toNat)), rest) = _
  rw [fromLeBytes_leBytes, Nat.mod_eq_of_lt hlt, UInt64.ofNat_toNat]

/-! ## Lengths -/

def identityPublicKeyLen : ℕ := 1952 + 32

def signedPreKeyPublicLen : ℕ := 4 + 32 + 3309 + 8

def oneTimePreKeyPublicLen : ℕ := 4 + 32

def kemPreKeyPublicLen : ℕ := 4 + publicKeyLen + 3309

/-! ## Identities and pre-keys -/

def IdentityPublicKey.toBytes (key : IdentityPublicKey) : List UInt8 :=
  key.verifyingKey.val ++ key.dhPublicKey.val

def takeIdentity (bytes : List UInt8) : Except CryptoError (IdentityPublicKey × List UInt8) := do
  let (verifyingKey, rest) ← takeBytes 1952 bytes
  let (dhPublicKey, rest) ← takeBytes 32 rest
  return ({ verifyingKey := verifyingKey, dhPublicKey := dhPublicKey }, rest)

def SignedPreKeyPublic.toBytes (preKey : SignedPreKeyPublic) : List UInt8 :=
  leBytes 4 preKey.id.toNat ++ preKey.publicKey.val ++ preKey.signature.val ++
    leBytes 8 preKey.timestamp.toNat

def OneTimePreKeyPublic.toBytes (preKey : OneTimePreKeyPublic) : List UInt8 :=
  leBytes 4 preKey.id.toNat ++ preKey.publicKey.val

def takeOneTimePreKey (bytes : List UInt8) :
    Except CryptoError (OneTimePreKeyPublic × List UInt8) := do
  let (id, rest) ← takeU32 bytes
  let (publicKey, rest) ← takeBytes 32 rest
  return ({ id := id, publicKey := publicKey }, rest)

def KemPreKeyPublic.toBytes (preKey : KemPreKeyPublic) : List UInt8 :=
  leBytes 4 preKey.id.toNat ++ preKey.publicKey.val ++ preKey.signature.val

def PreKeyBundle.toBytes (bundle : PreKeyBundle) : List UInt8 :=
  bundle.identityPublic.toBytes ++ bundle.signedPreKey.toBytes ++ bundle.kemPreKey.toBytes ++
    match bundle.oneTimePreKey with
    | some preKey => 1 :: preKey.toBytes
    | none => [0]

/-! ## Init messages -/

def X3DHInitMessage.toBytes (init : X3DHInitMessage) : List UInt8 :=
  init.senderIdentity.toBytes ++ init.ephemeralPublic.val ++ leBytes 4 ciphertextLen ++
    init.kemCiphertext.val ++
    (match init.usedOneTimePreKeyId with
    | some id => 1 :: leBytes 4 id.toNat
    | none => [0]) ++
    leBytes 4 init.usedSignedPreKeyId.toNat ++ leBytes 4 init.usedKemPreKeyId.toNat

def kemCiphertextFromBytes (bytes : List UInt8) : Except CryptoError KemCiphertext :=
  if h : bytes.length = 1088 then .ok ⟨bytes, h⟩
  else .error (.kem ("expected " ++ toString ciphertextLen ++ " byte ciphertext, got " ++
    toString bytes.length))

/-- Read the id of a one-time pre-key, if the flag before it says that there is one. -/
def takeUsedId : List UInt8 → Except CryptoError (Option UInt32 × List UInt8)
  | [] => .error (.serialization "X3DHInitMessage: missing OTPK flag")
  | flag :: rest =>
    if flag = 1 then
      if rest.length < 4 then .error (.serialization "X3DHInitMessage: missing OTPK id")
      else do
        let (id, rest) ← takeU32 rest
        return (some id, rest)
    else .ok (none, rest)

def X3DHInitMessage.fromBytes (bytes : List UInt8) : Except CryptoError X3DHInitMessage :=
  let minLen := identityPublicKeyLen + 32 + 4 + 1 + 4 + 4
  if bytes.length < minLen then
    .error (.serialization ("X3DHInitMessage: expected at least " ++ toString minLen ++
      " bytes, got " ++ toString bytes.length))
  else do
    let (senderIdentity, rest) ← takeIdentity bytes
    let (ephemeralPublic, rest) ← takeBytes 32 rest
    let (kemCtLen, rest) ← takeU32 rest
    if rest.length < kemCtLen.toNat then
      .error (.serialization ("X3DHInitMessage: KEM ciphertext truncated (need " ++
        toString kemCtLen.toNat ++ ", have " ++ toString rest.length ++ ")"))
    else
      let kemCiphertext ← kemCiphertextFromBytes (rest.take kemCtLen.toNat)
      let (usedId, rest) ← takeUsedId (rest.drop kemCtLen.toNat)
      if rest.length < 8 then
        .error (.serialization "X3DHInitMessage: missing SPK/KEM pre-key ids")
      else
        let (usedSignedPreKeyId, rest) ← takeU32 rest
        let (usedKemPreKeyId, _) ← takeU32 rest
        return {
          senderIdentity := senderIdentity
          ephemeralPublic := ephemeralPublic
          kemCiphertext := kemCiphertext
          usedOneTimePreKeyId := usedId
          usedSignedPreKeyId := usedSignedPreKeyId
          usedKemPreKeyId := usedKemPreKeyId }

/-! ## Messages of a key exchange -/

/-- The messages of a key exchange. -/
inductive KeyExchangeMessage
  | requestBundle
  | bundle (bundle : PreKeyBundle)
  | initMessage (init : X3DHInitMessage)
  | complete
  deriving DecidableEq

namespace KeyExchangeMessage

def init? : KeyExchangeMessage → Option X3DHInitMessage
  | initMessage init => some init
  | _ => none

def tagRequestBundle : UInt8 := 0

def tagBundle : UInt8 := 1

def tagInitMessage : UInt8 := 2

def tagComplete : UInt8 := 3

def toBytes : KeyExchangeMessage → List UInt8
  | requestBundle => [tagRequestBundle]
  | .bundle preKeys => tagBundle :: preKeys.toBytes
  | initMessage init => tagInitMessage :: init.toBytes
  | complete => [tagComplete]

end KeyExchangeMessage

namespace IdentityPrimitives

variable (P : IdentityPrimitives)

def takeSignature (bytes : List UInt8) : Except CryptoError (Signature × List UInt8) := do
  let (signature, rest) ← takeBytes 3309 bytes
  if P.parseSignature signature then return (signature, rest)
  else .error (.signature "invalid signature: signature error")

def takeSignedPreKey (bytes : List UInt8) : Except CryptoError (SignedPreKeyPublic × List UInt8) := do
  let (id, rest) ← takeU32 bytes
  let (publicKey, rest) ← takeBytes 32 rest
  let (signature, rest) ← P.takeSignature rest
  let (timestamp, rest) ← takeU64 rest
  return ({ id := id, publicKey := publicKey, signature := signature, timestamp := timestamp }, rest)

def takeKemPreKey (bytes : List UInt8) : Except CryptoError (KemPreKeyPublic × List UInt8) := do
  let (id, rest) ← takeU32 bytes
  let (publicKey, rest) ← takeBytes 1184 rest
  let (signature, rest) ← P.takeSignature rest
  return ({ id := id, publicKey := publicKey, signature := signature }, rest)

def optionalOneTimePreKey : List UInt8 → Except CryptoError (Option OneTimePreKeyPublic)
  | [] => .error (.panicked "index out of bounds")
  | flag :: rest =>
    if flag = 1 then
      if rest.length < oneTimePreKeyPublicLen then
        .error (.serialization ("PreKeyBundle: expected " ++ toString oneTimePreKeyPublicLen ++
          " bytes for OTPK, got " ++ toString rest.length))
      else do
        let (preKey, _) ← takeOneTimePreKey rest
        return some preKey
    else .ok none

def parseBundle (bytes : List UInt8) : Except CryptoError PreKeyBundle :=
  let minLen := identityPublicKeyLen + signedPreKeyPublicLen + kemPreKeyPublicLen + 1
  if bytes.length < minLen then
    .error (.serialization ("PreKeyBundle: expected at least " ++ toString minLen ++
      " bytes, got " ++ toString bytes.length))
  else do
    let (identityPublic, rest) ← takeIdentity bytes
    let (signedPreKey, rest) ← P.takeSignedPreKey rest
    let (kemPreKey, rest) ← P.takeKemPreKey rest
    let oneTimePreKey ← optionalOneTimePreKey rest
    return {
      identityPublic := identityPublic
      signedPreKey := signedPreKey
      kemPreKey := kemPreKey
      oneTimePreKey := oneTimePreKey }

/-- `KeyExchangeMessage::from_bytes`. -/
def parseKeyExchange : List UInt8 → Except CryptoError KeyExchangeMessage
  | [] => .error (.serialization "KeyExchangeMessage: empty data")
  | tag :: payload =>
    if tag = KeyExchangeMessage.tagRequestBundle then .ok .requestBundle
    else if tag = KeyExchangeMessage.tagBundle then (P.parseBundle payload).map .bundle
    else if tag = KeyExchangeMessage.tagInitMessage then
      (X3DHInitMessage.fromBytes payload).map .initMessage
    else if tag = KeyExchangeMessage.tagComplete then .ok .complete
    else .error (.serialization ("KeyExchangeMessage: unknown tag " ++ toString tag.toNat))

end IdentityPrimitives

/-! ## Round trips -/

section RoundTrip

@[simp] theorem ok_bind {α β : Type} (a : α) (f : α → Except CryptoError β) :
    (Except.ok a >>= f) = f a := rfl

@[simp] theorem length_toBytes_identity (key : IdentityPublicKey) :
    key.toBytes.length = identityPublicKeyLen := by
  simp [IdentityPublicKey.toBytes, identityPublicKeyLen, key.verifyingKey.property,
    key.dhPublicKey.property]

@[simp] theorem takeIdentity_toBytes (key : IdentityPublicKey) (rest : List UInt8) :
    takeIdentity (key.toBytes ++ rest) = .ok (key, rest) := by
  simp only [takeIdentity, IdentityPublicKey.toBytes, List.append_assoc, takeBytes_append, ok_bind]
  rfl

@[simp] theorem takeOneTimePreKey_toBytes (preKey : OneTimePreKeyPublic) (rest : List UInt8) :
    takeOneTimePreKey (preKey.toBytes ++ rest) = .ok (preKey, rest) := by
  simp only [takeOneTimePreKey, OneTimePreKeyPublic.toBytes, List.append_assoc, takeU32_leBytes,
    ok_bind, takeBytes_append]
  rfl

theorem takeUsedId_toBytes (usedId : Option UInt32) (rest : List UInt8) :
    takeUsedId ((match usedId with
      | some id => 1 :: leBytes 4 id.toNat
      | none => [0]) ++ rest) = .ok (usedId, rest) := by
  cases usedId with
  | none => rfl
  | some id =>
    have hlen : ¬ (leBytes 4 id.toNat ++ rest).length < 4 := by simp
    simp only [takeUsedId, List.cons_append, if_true, if_neg hlen, takeU32_leBytes, ok_bind]
    rfl

/-- **An init message is read back as it was written.** -/
theorem X3DHInitMessage.fromBytes_toBytes (init : X3DHInitMessage) :
    X3DHInitMessage.fromBytes init.toBytes = .ok init := by
  have hct : init.kemCiphertext.val.length = ciphertextLen := init.kemCiphertext.property
  have hephemeral : init.ephemeralPublic.val.length = 32 := init.ephemeralPublic.property
  have hlen : ¬ init.toBytes.length < identityPublicKeyLen + 32 + 4 + 1 + 4 + 4 := by
    simp only [toBytes, List.length_append, length_toBytes_identity, hephemeral, hct, length_leBytes]
    unfold ciphertextLen
    omega
  have hword : (UInt32.ofNat ciphertextLen).toNat = ciphertextLen := rfl
  have htake : ∀ rest : List UInt8,
      takeU32 (leBytes 4 ciphertextLen ++ rest) = .ok (.ofNat ciphertextLen, rest) :=
    takeU32_leBytes (.ofNat ciphertextLen)
  have hciphertext : kemCiphertextFromBytes init.kemCiphertext.val = .ok init.kemCiphertext :=
    dif_pos init.kemCiphertext.property
  unfold fromBytes
  rw [if_neg hlen]
  simp only [toBytes, List.append_assoc, takeIdentity_toBytes, ok_bind, takeBytes_append, htake, hword]
  -- the ciphertext, and what follows it
  rw [if_neg (by simp [hct])]
  simp only [List.take_left' hct, List.drop_left' hct, hciphertext, ok_bind, takeUsedId_toBytes]
  rw [if_neg (by simp)]
  have hlast := takeU32_leBytes init.usedKemPreKeyId []
  rw [List.append_nil] at hlast
  simp only [takeU32_leBytes, ok_bind, hlast]
  rfl

variable {P : IdentityPrimitives}

theorem takeSignature_append {signature : Signature} (h : P.parseSignature signature = true)
    (rest : List UInt8) :
    P.takeSignature (signature.val ++ rest) = .ok (signature, rest) := by
  simp only [IdentityPrimitives.takeSignature, takeBytes_append, ok_bind, h, if_true]
  rfl

theorem optionalOneTimePreKey_toBytes (oneTimePreKey : Option OneTimePreKeyPublic) :
    IdentityPrimitives.optionalOneTimePreKey (match oneTimePreKey with
      | some preKey => 1 :: preKey.toBytes
      | none => [0]) = .ok oneTimePreKey := by
  cases oneTimePreKey with
  | none => rfl
  | some preKey =>
    have hlen : ¬ preKey.toBytes.length < oneTimePreKeyPublicLen := by
      simp [OneTimePreKeyPublic.toBytes, oneTimePreKeyPublicLen, preKey.publicKey.property]
    have htake := takeOneTimePreKey_toBytes preKey []
    rw [List.append_nil] at htake
    simp only [IdentityPrimitives.optionalOneTimePreKey, if_true, if_neg hlen, htake, ok_bind]
    rfl

theorem takeSignedPreKey_toBytes {preKey : SignedPreKeyPublic}
    (h : P.parseSignature preKey.signature = true) (rest : List UInt8) :
    P.takeSignedPreKey (preKey.toBytes ++ rest) = .ok (preKey, rest) := by
  simp only [IdentityPrimitives.takeSignedPreKey, SignedPreKeyPublic.toBytes, List.append_assoc,
    takeU32_leBytes, ok_bind, takeBytes_append, takeSignature_append h, takeU64_leBytes]
  rfl

theorem takeKemPreKey_toBytes {preKey : KemPreKeyPublic}
    (h : P.parseSignature preKey.signature = true) (rest : List UInt8) :
    P.takeKemPreKey (preKey.toBytes ++ rest) = .ok (preKey, rest) := by
  simp only [IdentityPrimitives.takeKemPreKey, KemPreKeyPublic.toBytes, List.append_assoc,
    takeU32_leBytes, ok_bind, takeBytes_append, takeSignature_append h]
  rfl

theorem length_toBytes_signedPreKey (preKey : SignedPreKeyPublic) :
    preKey.toBytes.length = signedPreKeyPublicLen := by
  simp only [SignedPreKeyPublic.toBytes, List.length_append, length_leBytes,
    preKey.publicKey.property, preKey.signature.property]
  rfl

theorem length_toBytes_kemPreKey (preKey : KemPreKeyPublic) :
    preKey.toBytes.length = kemPreKeyPublicLen := by
  simp only [KemPreKeyPublic.toBytes, List.length_append, length_leBytes, preKey.publicKey.property,
    preKey.signature.property]
  rfl

/-- **A bundle is read back as it was written**, if its signatures are signatures. -/
theorem parseBundle_toBytes {bundle : PreKeyBundle}
    (hsigned : P.parseSignature bundle.signedPreKey.signature = true)
    (hkem : P.parseSignature bundle.kemPreKey.signature = true) :
    P.parseBundle bundle.toBytes = .ok bundle := by
  have hlen : ¬ bundle.toBytes.length <
      identityPublicKeyLen + signedPreKeyPublicLen + kemPreKeyPublicLen + 1 := by
    simp only [PreKeyBundle.toBytes, List.length_append, length_toBytes_identity,
      length_toBytes_signedPreKey, length_toBytes_kemPreKey, not_lt]
    cases bundle.oneTimePreKey with
    | none => exact le_rfl
    | some preKey => exact Nat.add_le_add_left (Nat.succ_le_succ (Nat.zero_le _)) _
  unfold IdentityPrimitives.parseBundle
  rw [if_neg hlen]
  simp only [PreKeyBundle.toBytes, List.append_assoc, takeIdentity_toBytes, ok_bind,
    takeSignedPreKey_toBytes hsigned, takeKemPreKey_toBytes hkem, optionalOneTimePreKey_toBytes]
  rfl

/-- **A message of a key exchange is read back as it was written**, if the signatures in it are
signatures. -/
theorem parseKeyExchange_toBytes {message : KeyExchangeMessage}
    (h : ∀ bundle, message = .bundle bundle → P.parseSignature bundle.signedPreKey.signature = true ∧
      P.parseSignature bundle.kemPreKey.signature = true) :
    P.parseKeyExchange message.toBytes = .ok message := by
  cases message with
  | requestBundle => rfl
  | bundle bundle =>
    obtain ⟨hsigned, hkem⟩ := h bundle rfl
    have hparse := parseBundle_toBytes hsigned hkem
    change (P.parseBundle bundle.toBytes).map KeyExchangeMessage.bundle = _
    rw [hparse]
    rfl
  | initMessage init =>
    change (X3DHInitMessage.fromBytes init.toBytes).map KeyExchangeMessage.initMessage = _
    rw [init.fromBytes_toBytes]
    rfl
  | complete => rfl

end RoundTrip

/-! ## Encrypted messages -/

namespace EncryptedMessage

/-- The bytes of an encrypted message. Lengths from `2 ^ 32` on, for which the source panics, are
written modulo `2 ^ 32`. -/
def toBytes (message : EncryptedMessage) : List UInt8 :=
  beBytes (.ofNat message.encryptedHeader.length) ++ message.encryptedHeader ++
    message.headerNonce.val ++ beBytes (.ofNat message.ciphertext.length) ++ message.ciphertext ++
    message.bodyNonce.val

def takePart (n : ℕ) (what : String) (bytes : List UInt8) :
    Except CryptoError (List UInt8 × List UInt8) :=
  if bytes.length < n then .error (.serialization ("message too short for " ++ what))
  else .ok (bytes.take n, bytes.drop n)

def takeLength (what : String) (bytes : List UInt8) : Except CryptoError (ℕ × List UInt8) := do
  let (word, rest) ← takePart 4 what bytes
  return ((fromBeBytes word).toNat, rest)

def takeNonce (what : String) (bytes : List UInt8) : Except CryptoError (Nonce × List UInt8) :=
  if bytes.length < nonceSize then .error (.serialization ("message too short for " ++ what))
  else takeBytes 12 bytes

def fromBytes (bytes : List UInt8) : Except CryptoError EncryptedMessage := do
  let (headerLen, rest) ← takeLength "header length" bytes
  let (encryptedHeader, rest) ← takePart headerLen "encrypted header" rest
  let (headerNonce, rest) ← takeNonce "header nonce" rest
  let (ctLen, rest) ← takeLength "ciphertext length" rest
  let (ciphertext, rest) ← takePart ctLen "ciphertext" rest
  let (bodyNonce, _) ← takeNonce "body nonce" rest
  return {
    encryptedHeader := encryptedHeader
    headerNonce := headerNonce
    ciphertext := ciphertext
    bodyNonce := bodyNonce }

theorem takePart_append (what : String) (part rest : List UInt8) :
    takePart part.length what (part ++ rest) = .ok (part, rest) := by
  simp [takePart]

theorem takeLength_append {n : ℕ} (h : n < 2 ^ 32) (what : String) (rest : List UInt8) :
    takeLength what (beBytes (.ofNat n) ++ rest) = .ok (n, rest) := by
  have hback := fromBeBytes_beBytes (.ofNat n) []
  rw [List.append_nil] at hback
  unfold takeLength
  rw [← length_beBytes (.ofNat n), takePart_append, ok_bind]
  dsimp only
  rw [hback, UInt32.toNat_ofNat_of_lt' h]
  rfl

theorem takeNonce_append (what : String) (nonce : Nonce) (rest : List UInt8) :
    takeNonce what (nonce.val ++ rest) = .ok (nonce, rest) := by
  have hlen : ¬ (nonce.val ++ rest).length < nonceSize := by
    simp [nonceSize, nonce.property]
  unfold takeNonce
  rw [if_neg hlen, takeBytes_append]

/-- **An encrypted message is read back as it was written**, if its lengths fit. -/
theorem fromBytes_toBytes {message : EncryptedMessage}
    (hheader : message.encryptedHeader.length < 2 ^ 32)
    (hciphertext : message.ciphertext.length < 2 ^ 32) :
    fromBytes message.toBytes = .ok message := by
  have hlast := takeNonce_append "body nonce" message.bodyNonce []
  rw [List.append_nil] at hlast
  have hbytes : message.toBytes = beBytes (.ofNat message.encryptedHeader.length) ++
      (message.encryptedHeader ++ (message.headerNonce.val ++
        (beBytes (.ofNat message.ciphertext.length) ++
          (message.ciphertext ++ message.bodyNonce.val)))) := by
    simp only [toBytes, List.append_assoc]
  unfold fromBytes
  rw [hbytes]
  refine Except.bind_eq_ok.mpr ⟨_, takeLength_append hheader _ _, ?_⟩
  refine Except.bind_eq_ok.mpr ⟨_, takePart_append _ _ _, ?_⟩
  refine Except.bind_eq_ok.mpr ⟨_, takeNonce_append _ _ _, ?_⟩
  refine Except.bind_eq_ok.mpr ⟨_, takeLength_append hciphertext _ _, ?_⟩
  refine Except.bind_eq_ok.mpr ⟨_, takePart_append _ _ _, ?_⟩
  exact Except.bind_eq_ok.mpr ⟨_, hlast, rfl⟩

end EncryptedMessage

end Pirc.Crypto
