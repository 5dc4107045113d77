import Pirc.Crypto.KeyBundle

/-!
# Crypto: formats at their offsets

The readers of `message.rs`, `identity.rs`, `prekey.rs`, `x3dh.rs` and `protocol.rs` as they are
written, with every bound of every slice. None of them panics, whatever bytes it is given, and they
read the same as those that are given the rest of the bytes after each part.
-/

namespace Pirc.Crypto

/-! ## Headers -/

/-- `u32::from_be_bytes` of the four bytes from an offset on. -/
def readBe32 (bytes : List UInt8) (pos : ℕ) : Except CryptoError UInt32 := do
  let b₀ ← item bytes pos
  let b₁ ← item bytes (pos + 1)
  let b₂ ← item bytes (pos + 2)
  let b₃ ← item bytes (pos + 3)
  return fromBeBytes [b₀, b₁, b₂, b₃]

/-- `KemPublicKey::from_bytes`. -/
def kemPublicKeyFromBytes (bytes : List UInt8) : Except CryptoError KemPublicKey :=
  encodedKey 1184 ("expected " ++ toString publicKeyLen ++ " bytes, got " ++ toString bytes.length) bytes

/-- Read a field of a header that is there when its flag is set, and the offset behind it. -/
def readField {n : ℕ} (fromBytes : List UInt8 → Except CryptoError (Bytes n)) (what : String)
    (present : Bool) (bytes : List UInt8) (pos : ℕ) : Except CryptoError (Option (Bytes n) × ℕ) :=
  if present then
    if bytes.length < pos + n then do
      let rest ← remaining bytes pos
      .error (.serialization ("header too short for " ++ what ++ ": need " ++ toString n ++
        " more bytes, have " ++ toString rest))
    else do
      let part ← slice bytes pos (pos + n)
      let field ← fromBytes part
      return (some field, pos + n)
  else .ok (none, pos)

/-- `MessageHeader::from_bytes`. -/
def MessageHeader.fromBytesAt (bytes : List UInt8) : Except CryptoError MessageHeader :=
  if bytes.length < headerFixedLen then
    .error (.serialization ("header too short: expected at least " ++ toString headerFixedLen ++
      " bytes, got " ++ toString bytes.length))
  else do
    let pos := 0
    let dhPublic ← word 32 bytes pos
    let pos := pos + 32
    let messageNumber ← readBe32 bytes pos
    let pos := pos + 4
    let previousChainLength ← readBe32 bytes pos
    let pos := pos + 4
    let flags ← item bytes pos
    let pos := pos + 1
    let (kemCiphertext, pos) ← readField kemCiphertextFromBytes "KEM ciphertext"
      (flags &&& flagKemCiphertext ≠ 0) bytes pos
    let (kemPublic, _) ← readField kemPublicKeyFromBytes "KEM public key"
      (flags &&& flagKemPublic ≠ 0) bytes pos
    return { dhPublic, messageNumber, previousChainLength, kemCiphertext, kemPublic }

/-! ## Encrypted messages -/

namespace EncryptedMessage

/-- `EncryptedMessage::to_bytes`, which panics where a length has more than 32 bits. -/
def tryToBytes (message : EncryptedMessage) : Except CryptoError (List UInt8) :=
  if 2 ^ 32 ≤ message.encryptedHeader.length then
    .error (.panicked "encrypted header exceeds u32::MAX bytes")
  else if 2 ^ 32 ≤ message.ciphertext.length then
    .error (.panicked "ciphertext exceeds u32::MAX bytes")
  else .ok message.toBytes

def readLength (what : String) (bytes : List UInt8) (pos : ℕ) : Except CryptoError (ℕ × ℕ) :=
  if bytes.length < pos + 4 then .error (.serialization ("message too short for " ++ what))
  else do
    let len ← readBe32 bytes pos
    return (len.toNat, pos + 4)

/-- So many bytes at the offset, and the offset behind them. -/
def readPart (n : ℕ) (what : String) (bytes : List UInt8) (pos : ℕ) :
    Except CryptoError (List UInt8 × ℕ) :=
  if bytes.length < pos + n then .error (.serialization ("message too short for " ++ what))
  else do
    let part ← slice bytes pos (pos + n)
    return (part, pos + n)

def readNonce (what : String) (bytes : List UInt8) (pos : ℕ) : Except CryptoError (Nonce × ℕ) :=
  if bytes.length < pos + nonceSize then .error (.serialization ("message too short for " ++ what))
  else do
    let nonce ← word 12 bytes pos
    return (nonce, pos + nonceSize)

/-- `EncryptedMessage::from_bytes`. -/
def fromBytesAt (bytes : List UInt8) : Except CryptoError EncryptedMessage := do
  let pos := 0
  let (headerLen, pos) ← readLength "header length" bytes pos
  let (encryptedHeader, pos) ← readPart headerLen "encrypted header" bytes pos
  let (headerNonce, pos) ← readNonce "header nonce" bytes pos
  let (ctLen, pos) ← readLength "ciphertext length" bytes pos
  let (ciphertext, pos) ← readPart ctLen "ciphertext" bytes pos
  let (bodyNonce, _) ← readNonce "body nonce" bytes pos
  return { encryptedHeader, headerNonce, ciphertext, bodyNonce }

end EncryptedMessage

/-! ## Public keys -/

/-- `IdentityPublicKey::from_bytes`. -/
def IdentityPublicKey.fromBytes (bytes : List UInt8) : Except CryptoError IdentityPublicKey :=
  if bytes.length ≠ identityPublicKeyLen then
    .error (.invalidKey ("expected " ++ toString identityPublicKeyLen ++ " bytes, got " ++
      toString bytes.length))
  else do
    let vkPart ← slice bytes 0 verifyingKeyLen
    let verifyingKey ← encodedKey 1952 ("expected " ++ toString verifyingKeyLen ++ " bytes, got " ++
      toString vkPart.length) vkPart
    let dhPart ← slice bytes verifyingKeyLen bytes.length
    let dhPublicKey ← exactly 32 dhPart
    return { verifyingKey, dhPublicKey }

/-- `OneTimePreKeyPublic::from_bytes`. -/
def OneTimePreKeyPublic.fromBytes (bytes : List UInt8) : Except CryptoError OneTimePreKeyPublic :=
  if bytes.length ≠ oneTimePreKeyPublicLen then
    .error (.serialization ("OneTimePreKeyPublic: expected " ++ toString oneTimePreKeyPublicLen ++
      " bytes, got " ++ toString bytes.length))
  else do
    let id ← readLe32 bytes 0
    let pkPart ← slice bytes 4 bytes.length
    let publicKey ← exactly 32 pkPart
    return { id, publicKey }

/-- `X3DHInitMessage::from_bytes`. -/
def X3DHInitMessage.fromBytesAt (bytes : List UInt8) : Except CryptoError X3DHInitMessage :=
  let minLen := identityPublicKeyLen + 32 + 4 + 1 + 4 + 4
  if bytes.length < minLen then
    .error (.serialization ("X3DHInitMessage: expected at least " ++ toString minLen ++
      " bytes, got " ++ toString bytes.length))
  else do
    let offset := 0
    let identityPart ← slice bytes offset (offset + identityPublicKeyLen)
    let senderIdentity ← IdentityPublicKey.fromBytes identityPart
    let offset := offset + identityPublicKeyLen
    let ephemeralPublic ← word 32 bytes offset
    let offset := offset + 32
    let kemCtLen ← readLe32 bytes offset
    let offset := offset + 4
    if bytes.length < offset + kemCtLen.toNat then
      let rest ← remaining bytes offset
      .error (.serialization ("X3DHInitMessage: KEM ciphertext truncated (need " ++
        toString kemCtLen.toNat ++ ", have " ++ toString rest ++ ")"))
    else
      let kemPart ← slice bytes offset (offset + kemCtLen.toNat)
      let kemCiphertext ← kemCiphertextFromBytes kemPart
      let (usedOneTimePreKeyId, offset) ← readUsedId bytes (offset + kemCtLen.toNat)
      if bytes.length < offset + 8 then
        .error (.serialization "X3DHInitMessage: missing SPK/KEM pre-key ids")
      else
        let usedSignedPreKeyId ← readLe32 bytes offset
        let offset := offset + 4
        let usedKemPreKeyId ← readLe32 bytes offset
        return {
          senderIdentity := senderIdentity
          ephemeralPublic := ephemeralPublic
          kemCiphertext := kemCiphertext
          usedOneTimePreKeyId := usedOneTimePreKeyId
          usedSignedPreKeyId := usedSignedPreKeyId
          usedKemPreKeyId := usedKemPreKeyId }
where
  /-- The id of a one-time pre-key, if the flag before it says that there is one. -/
  readUsedId (bytes : List UInt8) (offset : ℕ) : Except CryptoError (Option UInt32 × ℕ) :=
    if bytes.length < offset + 1 then .error (.serialization "X3DHInitMessage: missing OTPK flag")
    else do
      let hasOtpk ← item bytes offset
      let offset := offset + 1
      if hasOtpk = 1 then
        if bytes.length < offset + 4 then .error (.serialization "X3DHInitMessage: missing OTPK id")
        else
          let id ← readLe32 bytes offset
          return (some id, offset + 4)
      else return (none, offset)

namespace IdentityPrimitives

variable (P : IdentityPrimitives)

/-- `SignedPreKeyPublic::from_bytes`. -/
def signedPreKeyPublicFromBytes (bytes : List UInt8) : Except CryptoError SignedPreKeyPublic :=
  if bytes.length ≠ signedPreKeyPublicLen then
    .error (.serialization ("SignedPreKeyPublic: expected " ++ toString signedPreKeyPublicLen ++
      " bytes, got " ++ toString bytes.length))
  else do
    let offset := 0
    let id ← readLe32 bytes offset
    let offset := offset + 4
    let publicKey ← word 32 bytes offset
    let offset := offset + 32
    let signaturePart ← slice bytes offset (offset + signatureLen)
    let signature ← P.signatureFromBytes signaturePart
    let offset := offset + signatureLen
    let timestamp ← readLe64 bytes offset
    return { id, publicKey, signature, timestamp }

/-- `KemPreKeyPublic::from_bytes`. -/
def kemPreKeyPublicFromBytes (bytes : List UInt8) : Except CryptoError KemPreKeyPublic :=
  if bytes.length ≠ kemPreKeyPublicLen then
    .error (.serialization ("KemPreKeyPublic: expected " ++ toString kemPreKeyPublicLen ++
      " bytes, got " ++ toString bytes.length))
  else do
    let offset := 0
    let id ← readLe32 bytes offset
    let offset := offset + 4
    let publicPart ← slice bytes offset (offset + publicKeyLen)
    let publicKey ← kemPublicKeyFromBytes publicPart
    let offset := offset + publicKeyLen
    let signaturePart ← slice bytes offset (offset + signatureLen)
    let signature ← P.signatureFromBytes signaturePart
    return { id, publicKey, signature }

def readOneTimePreKey (bytes : List UInt8) (offset : ℕ) :
    Except CryptoError (Option OneTimePreKeyPublic) := do
  let hasOtpk ← item bytes offset
  let offset := offset + 1
  if hasOtpk = 1 then
    if bytes.length < offset + oneTimePreKeyPublicLen then
      let rest ← remaining bytes offset
      .error (.serialization ("PreKeyBundle: expected " ++ toString oneTimePreKeyPublicLen ++
        " bytes for OTPK, got " ++ toString rest))
    else
      let part ← slice bytes offset (offset + oneTimePreKeyPublicLen)
      let preKey ← OneTimePreKeyPublic.fromBytes part
      return some preKey
  else return none

/-- `PreKeyBundle::from_bytes`. -/
def preKeyBundleFromBytes (bytes : List UInt8) : Except CryptoError PreKeyBundle :=
  let minLen := identityPublicKeyLen + signedPreKeyPublicLen + kemPreKeyPublicLen + 1
  if bytes.length < minLen then
    .error (.serialization ("PreKeyBundle: expected at least " ++ toString minLen ++
      " bytes, got " ++ toString bytes.length))
  else do
    let offset := 0
    let identityPart ← slice bytes offset (offset + identityPublicKeyLen)
    let identityPublic ← IdentityPublicKey.fromBytes identityPart
    let offset := offset + identityPublicKeyLen
    let signedPart ← slice bytes offset (offset + signedPreKeyPublicLen)
    let signedPreKey ← P.signedPreKeyPublicFromBytes signedPart
    let offset := offset + signedPreKeyPublicLen
    let kemPart ← slice bytes offset (offset + kemPreKeyPublicLen)
    let kemPreKey ← P.kemPreKeyPublicFromBytes kemPart
    let offset := offset + kemPreKeyPublicLen
    let oneTimePreKey ← readOneTimePreKey bytes offset
    return { identityPublic, signedPreKey, kemPreKey, oneTimePreKey }

/-- `KeyExchangeMessage::from_bytes`. -/
def keyExchangeFromBytes (bytes : List UInt8) : Except CryptoError KeyExchangeMessage :=
  if bytes.isEmpty then .error (.serialization "KeyExchangeMessage: empty data")
  else do
    let tag ← item bytes 0
    if tag = KeyExchangeMessage.tagRequestBundle then return .requestBundle
    else if tag = KeyExchangeMessage.tagBundle then
      let payload ← slice bytes 1 bytes.length
      let bundle ← P.preKeyBundleFromBytes payload
      return .bundle bundle
    else if tag = KeyExchangeMessage.tagInitMessage then
      let payload ← slice bytes 1 bytes.length
      let init ← X3DHInitMessage.fromBytesAt payload
      return .initMessage init
    else if tag = KeyExchangeMessage.tagComplete then return .complete
    else .error (.serialization ("KeyExchangeMessage: unknown tag " ++ toString tag.toNat))

end IdentityPrimitives

/-! ## Readers do not panic -/

section Calm

variable {P : IdentityPrimitives} {bytes : List UInt8} {pos offset : ℕ}

theorem calm_kemCiphertextFromBytes (part : List UInt8) :
    Calm (fun _ => True) (kemCiphertextFromBytes part) := by
  unfold kemCiphertextFromBytes
  split_ifs
  · exact calm_ok trivial
  · exact calm_error fun _ h => by cases h

theorem calm_kemPublicKeyFromBytes (part : List UInt8) :
    Calm (fun _ => True) (kemPublicKeyFromBytes part) := calm_encodedKey ..

theorem calm_readBe32 (h : pos + 4 ≤ bytes.length) : Calm (fun _ => True) (readBe32 bytes pos) := by
  refine (calm_item (by omega)).bind fun _ _ => ?_
  refine (calm_item (by omega)).bind fun _ _ => ?_
  refine (calm_item (by omega)).bind fun _ _ => ?_
  exact (calm_item (by omega)).bind fun _ _ => calm_pure trivial

theorem calm_readField {n : ℕ} {fromBytes : List UInt8 → Except CryptoError (Bytes n)}
    (hfrom : ∀ part, Calm (fun _ => True) (fromBytes part)) (what : String) (present : Bool)
    (hpos : pos ≤ bytes.length) :
    Calm (fun read => read.2 ≤ bytes.length) (readField fromBytes what present bytes pos) := by
  refine calm_ite (fun _ => ?_) fun _ => calm_ok hpos
  refine calm_ite (fun _ => ?_) fun hlen => ?_
  · exact (calm_remaining hpos).bind fun _ _ => calm_serialization _
  · refine (calm_slice (Nat.le_add_right ..) (not_lt.mp hlen)).bind fun part _ => ?_
    exact (hfrom part).bind fun _ _ => calm_pure (not_lt.mp hlen)

/-- **No bytes make the reader of a header panic.** -/
theorem MessageHeader.calm_fromBytesAt (bytes : List UInt8) : Calm (fun _ => True) (fromBytesAt bytes) := by
  refine calm_ite (fun _ => calm_serialization _) fun hlen => ?_
  have hlen : 41 ≤ bytes.length := not_lt.mp hlen
  refine (calm_word (by omega)).bind fun _ _ => ?_
  refine (calm_readBe32 (by omega)).bind fun _ _ => ?_
  refine (calm_readBe32 (by omega)).bind fun _ _ => ?_
  refine (calm_item (by omega)).bind fun flags _ => ?_
  refine (calm_readField calm_kemCiphertextFromBytes _ _ hlen).bind fun read hread => ?_
  exact (calm_readField calm_kemPublicKeyFromBytes _ _ hread).bind fun _ _ => calm_pure trivial

namespace EncryptedMessage

theorem calm_readLength (what : String) :
    Calm (fun read => read.2 ≤ bytes.length) (readLength what bytes pos) := by
  refine calm_ite (fun _ => calm_serialization _) fun hlen => ?_
  exact (calm_readBe32 (not_lt.mp hlen)).bind fun _ _ => calm_pure (not_lt.mp hlen)

theorem calm_readPart (n : ℕ) (what : String) :
    Calm (fun read => read.2 ≤ bytes.length) (readPart n what bytes pos) := by
  refine calm_ite (fun _ => calm_serialization _) fun hlen => ?_
  exact (calm_slice (Nat.le_add_right ..) (not_lt.mp hlen)).bind fun _ _ => calm_pure (not_lt.mp hlen)

theorem calm_readNonce (what : String) :
    Calm (fun read => read.2 ≤ bytes.length) (readNonce what bytes pos) := by
  refine calm_ite (fun _ => calm_serialization _) fun hlen => ?_
  exact (calm_word (not_lt.mp hlen)).bind fun _ _ => calm_pure (not_lt.mp hlen)

/-- **No bytes make the reader of an encrypted message panic.** -/
theorem calm_fromBytesAt (bytes : List UInt8) : Calm (fun _ => True) (fromBytesAt bytes) := by
  refine (calm_readLength _).bind fun headerLen _ => ?_
  refine (calm_readPart ..).bind fun encryptedHeader _ => ?_
  refine (calm_readNonce _).bind fun headerNonce _ => ?_
  refine (calm_readLength _).bind fun ctLen _ => ?_
  refine (calm_readPart ..).bind fun ciphertext _ => ?_
  exact (calm_readNonce _).bind fun bodyNonce _ => calm_pure trivial

end EncryptedMessage

theorem IdentityPublicKey.calm_fromBytes (bytes : List UInt8) :
    Calm (fun _ => True) (fromBytes bytes) := by
  refine calm_ite (fun _ => calm_invalidKey _) fun hlen => ?_
  have hlen : bytes.length = 1984 := not_not.mp hlen
  have hle : verifyingKeyLen ≤ bytes.length := by
    rw [hlen]
    decide
  refine (calm_slice (Nat.zero_le _) hle).bind fun vk _ => ?_
  refine (calm_encodedKey _ vk).bind fun _ _ => ?_
  refine (calm_slice hle le_rfl).bind fun dh hdh => ?_
  refine (calm_exactly ?_).bind fun _ _ => calm_pure trivial
  rw [hdh, hlen]
  rfl

theorem OneTimePreKeyPublic.calm_fromBytes (bytes : List UInt8) :
    Calm (fun _ => True) (fromBytes bytes) := by
  refine calm_ite (fun _ => calm_serialization _) fun hlen => ?_
  have hlen : bytes.length = 36 := not_not.mp hlen
  refine (calm_readLe32 (by omega)).bind fun _ _ => ?_
  refine (calm_slice (by omega) le_rfl).bind fun part hpart => ?_
  refine (calm_exactly ?_).bind fun _ _ => calm_pure trivial
  rw [hpart, hlen]

theorem calm_signedPreKeyPublicFromBytes (bytes : List UInt8) :
    Calm (fun _ => True) (P.signedPreKeyPublicFromBytes bytes) := by
  refine calm_ite (fun _ => calm_serialization _) fun hlen => ?_
  have hlen : bytes.length = 3353 := not_not.mp hlen
  refine (calm_readLe32 (by omega)).bind fun _ _ => ?_
  refine (calm_word (by omega)).bind fun _ _ => ?_
  refine (calm_slice (Nat.le_add_right ..) (by rw [hlen]; decide)).bind fun part _ => ?_
  refine (calm_signatureFromBytes part).bind fun _ _ => ?_
  exact (calm_readLe64 (by rw [hlen]; decide)).bind fun _ _ => calm_pure trivial

theorem calm_kemPreKeyPublicFromBytes (bytes : List UInt8) :
    Calm (fun _ => True) (P.kemPreKeyPublicFromBytes bytes) := by
  refine calm_ite (fun _ => calm_serialization _) fun hlen => ?_
  have hlen : bytes.length = 4497 := not_not.mp hlen
  refine (calm_readLe32 (by omega)).bind fun _ _ => ?_
  refine (calm_slice (Nat.le_add_right ..) (by rw [hlen]; decide)).bind fun key _ => ?_
  refine (calm_kemPublicKeyFromBytes key).bind fun _ _ => ?_
  refine (calm_slice (Nat.le_add_right ..) (by rw [hlen]; decide)).bind fun part _ => ?_
  exact (calm_signatureFromBytes part).bind fun _ _ => calm_pure trivial

theorem X3DHInitMessage.calm_readUsedId :
    Calm (fun read => read.2 ≤ bytes.length) (fromBytesAt.readUsedId bytes offset) := by
  refine calm_ite (fun _ => calm_serialization _) fun hflag => ?_
  refine (calm_item (not_lt.mp hflag)).bind fun flag _ => ?_
  refine calm_ite (fun _ => ?_) fun _ => calm_pure (not_lt.mp hflag)
  refine calm_ite (fun _ => calm_serialization _) fun hid => ?_
  exact (calm_readLe32 (not_lt.mp hid)).bind fun _ _ => calm_pure (not_lt.mp hid)

/-- **No bytes make the reader of an init message panic.** -/
theorem X3DHInitMessage.calm_fromBytesAt (bytes : List UInt8) :
    Calm (fun _ => True) (fromBytesAt bytes) := by
  refine calm_ite (fun _ => calm_serialization _) fun hlen => ?_
  have hlen : 2029 ≤ bytes.length := not_lt.mp hlen
  have hidentity : identityPublicKeyLen = 1984 := rfl
  refine (calm_slice (Nat.le_add_right ..) (by omega)).bind fun part _ => ?_
  refine (IdentityPublicKey.calm_fromBytes part).bind fun _ _ => ?_
  refine (calm_word (by omega)).bind fun _ _ => ?_
  refine (calm_readLe32 (by omega)).bind fun kemCtLen _ => ?_
  refine calm_ite (fun _ => ?_) fun hct => ?_
  · exact (calm_remaining (by omega)).bind fun _ _ => calm_serialization _
  refine (calm_slice (Nat.le_add_right ..) (not_lt.mp hct)).bind fun ct _ => ?_
  refine (calm_kemCiphertextFromBytes ct).bind fun _ _ => ?_
  refine calm_readUsedId.bind fun read _ => ?_
  refine calm_ite (fun _ => calm_serialization _) fun hids => ?_
  refine (calm_readLe32 (by omega)).bind fun _ _ => ?_
  exact (calm_readLe32 (by omega)).bind fun _ _ => calm_pure trivial

theorem calm_readOneTimePreKey (h : offset < bytes.length) :
    Calm (fun _ => True) (IdentityPrimitives.readOneTimePreKey bytes offset) := by
  refine (calm_item h).bind fun flag _ => ?_
  refine calm_ite (fun _ => ?_) fun _ => calm_pure trivial
  refine calm_ite (fun _ => ?_) fun hlen => ?_
  · exact (calm_remaining h).bind fun _ _ => calm_serialization _
  · refine (calm_slice (Nat.le_add_right ..) (not_lt.mp hlen)).bind fun part _ => ?_
    exact (OneTimePreKeyPublic.calm_fromBytes part).bind fun _ _ => calm_pure trivial

/-- **No bytes make the reader of a bundle panic.** -/
theorem calm_preKeyBundleFromBytes (bytes : List UInt8) :
    Calm (fun _ => True) (P.preKeyBundleFromBytes bytes) := by
  refine calm_ite (fun _ => calm_serialization _) fun hlen => ?_
  have hlen : identityPublicKeyLen + signedPreKeyPublicLen + kemPreKeyPublicLen + 1 ≤ bytes.length :=
    not_lt.mp hlen
  refine (calm_slice (Nat.le_add_right ..) (by omega)).bind fun identity _ => ?_
  refine (IdentityPublicKey.calm_fromBytes identity).bind fun _ _ => ?_
  refine (calm_slice (Nat.le_add_right ..) (by omega)).bind fun signed _ => ?_
  refine (calm_signedPreKeyPublicFromBytes signed).bind fun _ _ => ?_
  refine (calm_slice (Nat.le_add_right ..) (by omega)).bind fun kem _ => ?_
  refine (calm_kemPreKeyPublicFromBytes kem).bind fun _ _ => ?_
  exact (calm_readOneTimePreKey (by omega)).bind fun _ _ => calm_pure trivial

/-- **No bytes make the reader of a key exchange panic.** -/
theorem calm_keyExchangeFromBytes (bytes : List UInt8) :
    Calm (fun _ => True) (P.keyExchangeFromBytes bytes) := by
  refine calm_ite (fun _ => calm_serialization _) fun hne => ?_
  have hpos : 1 ≤ bytes.length := List.length_pos_of_ne_nil fun hnil => hne (by rw [hnil]; rfl)
  refine (calm_item hpos).bind fun tag _ => ?_
  refine calm_ite (fun _ => calm_pure trivial) fun _ => ?_
  refine calm_ite (fun _ => ?_) fun _ => ?_
  · refine (calm_slice hpos le_rfl).bind fun payload _ => ?_
    exact (calm_preKeyBundleFromBytes payload).bind fun _ _ => calm_pure trivial
  refine calm_ite (fun _ => ?_) fun _ => ?_
  · refine (calm_slice hpos le_rfl).bind fun payload _ => ?_
    exact (X3DHInitMessage.calm_fromBytesAt payload).bind fun _ _ => calm_pure trivial
  · exact calm_ite (fun _ => calm_pure trivial) fun _ => calm_serialization _

end Calm

/-! ## Offsets and rests -/

section Rests

variable {bytes : List UInt8} {pos offset n : ℕ} {α β : Type}

/-- Two computations that go on alike once the first has read something and has a rest, and the
second knows where the rest begins. -/
theorem bind_eq_of_map {γ δ : Type} {x : Except CryptoError γ} {y : Except CryptoError δ}
    {h : δ → γ} {f : γ → Except CryptoError β} {g : δ → Except CryptoError β} (hx : x = y.map h)
    (hf : ∀ a, y = .ok a → f (h a) = g a) : x >>= f = y >>= g := by
  subst hx
  cases y with
  | ok a => exact hf a rfl
  | error e => rfl

theorem takeBytes_drop (hn : 0 < n) : takeBytes n (bytes.drop offset) =
    (word n bytes offset).map fun part => (part, bytes.drop (offset + n)) := by
  unfold takeBytes word slice
  rw [if_neg (by omega)]
  by_cases hlen : bytes.length < offset + n
  · rw [if_pos hlen, dif_neg (by rw [List.length_drop]; omega)]
    rfl
  · have hpart : ((bytes.drop offset).take (offset + n - offset)).length = n := by
      rw [List.length_take, List.length_drop]
      omega
    rw [if_neg hlen, dif_pos (by rw [List.length_drop]; omega), ok_bind, exactly, dif_pos hpart]
    simp only [Nat.add_sub_cancel_left, List.drop_drop]
    rfl

theorem takeU32_drop : takeU32 (bytes.drop offset) =
    (readLe32 bytes offset).map fun value => (value, bytes.drop (offset + 4)) := by
  unfold takeU32 readLe32
  rw [takeBytes_drop (by omega)]
  cases (word 4 bytes offset : Except CryptoError (Bytes 4)) with
  | ok part => rfl
  | error e => rfl

theorem exists_part (h : offset + n ≤ bytes.length) : ∃ part, part.length = n ∧
    slice bytes offset (offset + n) = (.ok part : Except CryptoError _) ∧
      bytes.drop offset = part ++ bytes.drop (offset + n) := by
  refine ⟨(bytes.drop offset).take n, ?_, ?_, ?_⟩
  · rw [List.length_take, List.length_drop]
    omega
  · unfold slice
    rw [if_neg (by omega), if_neg (not_lt.mpr h), Nat.add_sub_cancel_left]
  · rw [← List.drop_drop, List.take_append_drop]

theorem readBe32_eq (h : pos + 4 ≤ bytes.length) :
    readBe32 bytes pos = .ok (fromBeBytes (bytes.drop pos)) := by
  have hitem : ∀ i (hi : i < bytes.length), item bytes i = (.ok bytes[i] : Except CryptoError _) := by
    intro i hi
    unfold item
    rw [List.getElem?_eq_getElem hi]
  rw [List.drop_eq_getElem_cons (by omega), List.drop_eq_getElem_cons (by omega),
    List.drop_eq_getElem_cons (by omega), List.drop_eq_getElem_cons (by omega)]
  unfold readBe32
  rw [hitem pos (by omega), ok_bind, hitem (pos + 1) (by omega), ok_bind, hitem (pos + 1 + 1) (by omega),
    ok_bind, hitem (pos + 1 + 1 + 1) (by omega)]
  rfl

/-! ## Headers -/

theorem takeField_drop (fromBytes : List UInt8 → Except CryptoError (Bytes n))
    (hfrom : ∀ part (h : part.length = n), fromBytes part = .ok ⟨part, h⟩) (what : String)
    (present : Bool) (hpos : pos ≤ bytes.length) : takeField n what present (bytes.drop pos) =
      (readField fromBytes what present bytes pos).map fun read => (read.1, bytes.drop read.2) := by
  unfold takeField readField
  cases present with
  | false => rfl
  | true =>
    simp only [if_true]
    by_cases hlen : bytes.length < pos + n
    · rw [if_pos hlen, dif_neg (by rw [List.length_drop]; omega), remaining, if_neg (not_lt.mpr hpos),
        ok_bind, List.length_drop]
      rfl
    · obtain ⟨part, hpart, hslice, hdrop⟩ := exists_part (not_lt.mp hlen)
      have htake : (bytes.drop pos).take n = part := by rw [hdrop, List.take_left' hpart]
      rw [if_neg hlen, dif_pos (by rw [List.length_drop]; omega), hslice, ok_bind, hfrom part hpart,
        ok_bind]
      simp only [htake, List.drop_drop]
      rfl

/-- **The two readers of a header agree.** -/
theorem MessageHeader.fromBytesAt_eq (bytes : List UInt8) : fromBytesAt bytes = fromBytes bytes := by
  unfold fromBytesAt fromBytes
  by_cases hlen : bytes.length < headerFixedLen
  · rw [if_pos hlen, dif_pos hlen]
  have hnumber : 41 ≤ bytes.length := not_lt.mp hlen
  rw [if_neg hlen, dif_neg hlen]
  dsimp only
  -- the fixed part is in range
  have hdh : word 32 bytes 0 = (.ok ⟨bytes.take 32, by rw [List.length_take]; omega⟩ :
      Except CryptoError (Bytes 32)) := by
    obtain ⟨part, hpart, hslice, hdrop⟩ := exists_part (show 0 + 32 ≤ bytes.length by omega)
    have htake : bytes.take 32 = part := by
      rw [List.drop_zero] at hdrop
      rw [hdrop, List.take_left' hpart]
    unfold word
    rw [hslice, ok_bind, exactly, dif_pos hpart]
    simp only [htake]
  have hflags : item bytes (0 + 32 + 4 + 4) = (.ok (bytes.getD 40 0) : Except CryptoError _) := by
    unfold item
    rw [List.getElem?_eq_getElem (show 0 + 32 + 4 + 4 < bytes.length by omega), List.getD_eq_getElem?_getD,
      List.getElem?_eq_getElem (show 40 < bytes.length by omega)]
    rfl
  rw [hdh, ok_bind, readBe32_eq (by omega), ok_bind, readBe32_eq (by omega), ok_bind, hflags, ok_bind]
  have hct := takeField_drop kemCiphertextFromBytes (fun part h => dif_pos h)
    "KEM ciphertext" (bytes.getD 40 0 &&& flagKemCiphertext ≠ 0) hnumber
  refine (bind_eq_of_map hct ?_).symm
  rintro ⟨ct, pos⟩ hread
  have hpos := (calm_readField calm_kemCiphertextFromBytes _ _ hnumber).of_ok hread
  refine bind_eq_of_map (takeField_drop kemPublicKeyFromBytes (fun part h => dif_pos h) _ _ hpos) ?_
  rintro ⟨pk, pos⟩ -
  rfl

/-! ## Encrypted messages -/

namespace EncryptedMessage

theorem takeLength_drop (what : String) (hpos : pos ≤ bytes.length) :
    takeLength what (bytes.drop pos) =
      (readLength what bytes pos).map fun read => (read.1, bytes.drop read.2) := by
  unfold takeLength readLength takePart
  rw [List.length_drop]
  by_cases hlen : bytes.length < pos + 4
  · rw [if_pos hlen, if_pos (by omega)]
    rfl
  · obtain ⟨part, hpart, hslice, hdrop⟩ := exists_part (not_lt.mp hlen)
    rw [if_neg hlen, if_neg (by omega), readBe32_eq (not_lt.mp hlen)]
    have hword : fromBeBytes ((bytes.drop pos).take 4) = fromBeBytes (bytes.drop pos) := by
      rw [hdrop, List.take_left' hpart]
      obtain ⟨b₀, b₁, b₂, b₃, rfl⟩ := List.length_eq_four.mp hpart
      rfl
    simp only [ok_bind, hword, List.drop_drop]
    rfl

theorem takePart_drop (n : ℕ) (what : String) (hpos : pos ≤ bytes.length) :
    takePart n what (bytes.drop pos) =
      (readPart n what bytes pos).map fun read => (read.1, bytes.drop read.2) := by
  unfold takePart readPart
  rw [List.length_drop]
  by_cases hlen : bytes.length < pos + n
  · rw [if_pos hlen, if_pos (by omega)]
    rfl
  · obtain ⟨part, hpart, hslice, hdrop⟩ := exists_part (not_lt.mp hlen)
    have htake : (bytes.drop pos).take n = part := by rw [hdrop, List.take_left' hpart]
    rw [if_neg hlen, if_neg (by omega), hslice, ok_bind, htake, List.drop_drop]
    rfl

theorem takeNonce_drop (what : String) (hpos : pos ≤ bytes.length) :
    takeNonce what (bytes.drop pos) =
      (readNonce what bytes pos).map fun read => (read.1, bytes.drop read.2) := by
  unfold takeNonce readNonce
  rw [List.length_drop]
  by_cases hlen : bytes.length < pos + nonceSize
  · rw [if_pos hlen, if_pos (by omega)]
    rfl
  · rw [if_neg hlen, if_neg (by omega), takeBytes_drop (by omega)]
    cases (word 12 bytes pos : Except CryptoError Nonce) with
    | ok nonce => rfl
    | error e => rfl

/-- **The two readers of an encrypted message agree.** -/
theorem fromBytesAt_eq (bytes : List UInt8) : fromBytesAt bytes = fromBytes bytes := by
  unfold fromBytesAt fromBytes
  have hfirst := takeLength_drop "header length" (Nat.zero_le bytes.length)
  rw [List.drop_zero] at hfirst
  refine (bind_eq_of_map hfirst ?_).symm
  rintro ⟨headerLen, pos⟩ hread
  have hpos := (calm_readLength _).of_ok hread
  refine bind_eq_of_map (takePart_drop headerLen _ hpos) ?_
  rintro ⟨encryptedHeader, pos⟩ hread
  have hpos := (calm_readPart ..).of_ok hread
  refine bind_eq_of_map (takeNonce_drop _ hpos) ?_
  rintro ⟨headerNonce, pos⟩ hread
  have hpos := (calm_readNonce _).of_ok hread
  refine bind_eq_of_map (takeLength_drop _ hpos) ?_
  rintro ⟨ctLen, pos⟩ hread
  have hpos := (calm_readLength _).of_ok hread
  refine bind_eq_of_map (takePart_drop ctLen _ hpos) ?_
  rintro ⟨ciphertext, pos⟩ hread
  have hpos := (calm_readPart ..).of_ok hread
  refine bind_eq_of_map (takeNonce_drop _ hpos) ?_
  rintro ⟨bodyNonce, pos⟩ -
  rfl

end EncryptedMessage

/-! ## Keys of a fixed length

Any bytes of the right length are those of a key, but for its signature. -/

theorem leBytes_fromLeBytes (part : List UInt8) : leBytes part.length (fromLeBytes part) = part := by
  induction part with
  | nil => rfl
  | cons byte part ih =>
    have hlt := byte.toNat_lt
    rw [List.length_cons, leBytes, fromLeBytes]
    congr 1
    · rw [UInt8.ofNat_add, UInt8.ofNat_mul]
      simp
    · rw [show (byte.toNat + 256 * fromLeBytes part) / 256 = fromLeBytes part by omega, ih]

theorem fromLeBytes_lt (part : List UInt8) : fromLeBytes part < 256 ^ part.length := by
  induction part with
  | nil => simp [fromLeBytes]
  | cons byte part ih =>
    have hlt : byte.toNat < 256 := byte.toNat_lt
    rw [fromLeBytes, List.length_cons, pow_succ]
    omega

theorem exists_leBytes_four {part : List UInt8} (h : part.length = 4) :
    ∃ n : UInt32, leBytes 4 n.toNat = part := by
  have hlt := fromLeBytes_lt part
  have hback := leBytes_fromLeBytes part
  rw [h] at hlt hback
  refine ⟨.ofNat (fromLeBytes part), ?_⟩
  rw [UInt32.toNat_ofNat_of_lt' hlt, hback]

theorem exists_leBytes_eight {part : List UInt8} (h : part.length = 8) :
    ∃ n : UInt64, leBytes 8 n.toNat = part := by
  have hlt := fromLeBytes_lt part
  have hback := leBytes_fromLeBytes part
  rw [h] at hlt hback
  refine ⟨.ofNat (fromLeBytes part), ?_⟩
  rw [UInt64.toNat_ofNat_of_lt' hlt, hback]

theorem exists_append {part : List UInt8} {m n : ℕ} (h : part.length = m + n) :
    ∃ front back : List UInt8, part = front ++ back ∧ front.length = m ∧ back.length = n := by
  refine ⟨part.take m, part.drop m, (List.take_append_drop m part).symm, ?_, ?_⟩
  · rw [List.length_take]
    omega
  · rw [List.length_drop]
    omega

theorem IdentityPublicKey.exists_toBytes {part : List UInt8}
    (h : part.length = identityPublicKeyLen) : ∃ key : IdentityPublicKey, key.toBytes = part := by
  obtain ⟨vk, dh, rfl, hvk, hdh⟩ := exists_append h
  exact ⟨⟨⟨vk, hvk⟩, ⟨dh, hdh⟩⟩, rfl⟩

theorem IdentityPublicKey.fromBytes_toBytes (key : IdentityPublicKey) :
    fromBytes key.toBytes = .ok key := by
  obtain ⟨hvk, hdh⟩ := (standsAt_self key.toBytes).split key.verifyingKey.property
  have hlast : verifyingKeyLen + key.dhPublicKey.val.length = key.toBytes.length := by
    rw [length_toBytes_identity, key.dhPublicKey.property]
    rfl
  have hfirst : slice key.toBytes 0 verifyingKeyLen =
      (.ok key.verifyingKey.val : Except CryptoError _) := hvk.slice_eq key.verifyingKey.property
  have hrest : slice key.toBytes verifyingKeyLen key.toBytes.length =
      (.ok key.dhPublicKey.val : Except CryptoError _) := slice_last hdh hlast
  unfold fromBytes
  rw [if_neg (not_not.mpr (length_toBytes_identity key)), hfirst, ok_bind, encodedKey_val, ok_bind,
    hrest, ok_bind, exactly_val]
  rfl

theorem takeIdentity_part {part : List UInt8} (h : part.length = identityPublicKeyLen)
    (rest : List UInt8) :
    takeIdentity (part ++ rest) = (IdentityPublicKey.fromBytes part).map fun key => (key, rest) := by
  obtain ⟨key, rfl⟩ := IdentityPublicKey.exists_toBytes h
  rw [takeIdentity_toBytes, key.fromBytes_toBytes]
  rfl

theorem OneTimePreKeyPublic.exists_toBytes {part : List UInt8}
    (h : part.length = oneTimePreKeyPublicLen) : ∃ preKey : OneTimePreKeyPublic, preKey.toBytes = part := by
  obtain ⟨idPart, pk, rfl, hid, hpk⟩ := exists_append h
  obtain ⟨id, rfl⟩ := exists_leBytes_four hid
  exact ⟨⟨id, ⟨pk, hpk⟩⟩, rfl⟩

theorem OneTimePreKeyPublic.fromBytes_toBytes (preKey : OneTimePreKeyPublic) :
    fromBytes preKey.toBytes = .ok preKey := by
  obtain ⟨hid, hpk⟩ := (standsAt_self preKey.toBytes).split (length_leBytes 4 preKey.id.toNat)
  have hlength : preKey.toBytes.length = oneTimePreKeyPublicLen := by
    rw [toBytes, List.length_append, length_leBytes, preKey.publicKey.property]
    rfl
  have hlast : 4 + preKey.publicKey.val.length = preKey.toBytes.length := by
    rw [hlength, preKey.publicKey.property]
    rfl
  unfold fromBytes
  rw [if_neg (not_not.mpr hlength), readLe32_eq hid, ok_bind, slice_last hpk hlast, ok_bind, exactly_val]
  rfl

variable {P : IdentityPrimitives}

theorem takeSignature_part (signature : Signature) (rest : List UInt8) :
    P.takeSignature (signature.val ++ rest) =
      (P.signatureFromBytes signature.val).map fun signature => (signature, rest) := by
  unfold IdentityPrimitives.takeSignature IdentityPrimitives.signatureFromBytes
  rw [takeBytes_append, ok_bind, dif_pos signature.property]
  dsimp only
  split_ifs
  · rfl
  · rfl

theorem SignedPreKeyPublic.exists_toBytes {part : List UInt8} (h : part.length = signedPreKeyPublicLen) :
    ∃ preKey : SignedPreKeyPublic, preKey.toBytes = part := by
  obtain ⟨front, timePart, rfl, hfront, htime⟩ := exists_append h
  obtain ⟨front, signature, rfl, hfront, hsignature⟩ := exists_append hfront
  obtain ⟨idPart, pk, rfl, hid, hpk⟩ := exists_append hfront
  obtain ⟨id, rfl⟩ := exists_leBytes_four hid
  obtain ⟨timestamp, rfl⟩ := exists_leBytes_eight htime
  exact ⟨⟨id, ⟨pk, hpk⟩, ⟨signature, hsignature⟩, timestamp⟩, rfl⟩

theorem KemPreKeyPublic.exists_toBytes {part : List UInt8} (h : part.length = kemPreKeyPublicLen) :
    ∃ preKey : KemPreKeyPublic, preKey.toBytes = part := by
  obtain ⟨front, signature, rfl, hfront, hsignature⟩ := exists_append h
  obtain ⟨idPart, pk, rfl, hid, hpk⟩ := exists_append hfront
  obtain ⟨id, rfl⟩ := exists_leBytes_four hid
  exact ⟨⟨id, ⟨pk, hpk⟩, ⟨signature, hsignature⟩⟩, rfl⟩

theorem signedPreKeyPublicFromBytes_toBytes (preKey : SignedPreKeyPublic) :
    P.signedPreKeyPublicFromBytes preKey.toBytes = (P.signatureFromBytes preKey.signature.val).map
      fun signature => { preKey with signature } := by
  have hall := standsAt_self preKey.toBytes
  conv at hall =>
    arg 3
    rw [SignedPreKeyPublic.toBytes, List.append_assoc, List.append_assoc]
  obtain ⟨hid, hall⟩ := hall.split (length_leBytes ..)
  obtain ⟨hpublic, hall⟩ := hall.split preKey.publicKey.property
  obtain ⟨hsignature, htimestamp⟩ := hall.split preKey.signature.property
  unfold IdentityPrimitives.signedPreKeyPublicFromBytes
  rw [if_neg (not_not.mpr (length_toBytes_signedPreKey preKey))]
  dsimp only
  rw [readLe32_eq hid, ok_bind, hpublic.word_eq preKey.publicKey.property, ok_bind,
    show slice preKey.toBytes (0 + 4 + 32) (0 + 4 + 32 + signatureLen) = _ from
      hsignature.slice_eq preKey.signature.property, ok_bind]
  cases P.signatureFromBytes preKey.signature.val with
  | error e => rfl
  | ok signature =>
    rw [ok_bind, show readLe64 preKey.toBytes (0 + 4 + 32 + signatureLen) = _ from readLe64_eq htimestamp]
    rfl

theorem takeSignedPreKey_part {part : List UInt8} (h : part.length = signedPreKeyPublicLen)
    (rest : List UInt8) : P.takeSignedPreKey (part ++ rest) =
      (P.signedPreKeyPublicFromBytes part).map fun preKey => (preKey, rest) := by
  obtain ⟨preKey, rfl⟩ := SignedPreKeyPublic.exists_toBytes h
  rw [signedPreKeyPublicFromBytes_toBytes]
  simp only [IdentityPrimitives.takeSignedPreKey, SignedPreKeyPublic.toBytes, List.append_assoc,
    takeU32_leBytes, ok_bind, takeBytes_append, takeSignature_part]
  cases P.signatureFromBytes preKey.signature.val with
  | error e => rfl
  | ok signature =>
    simp only [Except.map, ok_bind, takeU64_leBytes]
    rfl

theorem kemPreKeyPublicFromBytes_toBytes (preKey : KemPreKeyPublic) :
    P.kemPreKeyPublicFromBytes preKey.toBytes = (P.signatureFromBytes preKey.signature.val).map
      fun signature => { preKey with signature } := by
  have hall := standsAt_self preKey.toBytes
  conv at hall =>
    arg 3
    rw [KemPreKeyPublic.toBytes, List.append_assoc]
  obtain ⟨hid, hall⟩ := hall.split (length_leBytes ..)
  obtain ⟨hpublic, hsignature⟩ := hall.split preKey.publicKey.property
  unfold IdentityPrimitives.kemPreKeyPublicFromBytes
  rw [if_neg (not_not.mpr (length_toBytes_kemPreKey preKey))]
  dsimp only
  rw [readLe32_eq hid, ok_bind,
    show slice preKey.toBytes (0 + 4) (0 + 4 + publicKeyLen) = _ from
      hpublic.slice_eq preKey.publicKey.property, ok_bind, kemPublicKeyFromBytes, encodedKey_val, ok_bind,
    show slice preKey.toBytes (0 + 4 + publicKeyLen) (0 + 4 + publicKeyLen + signatureLen) = _ from
      hsignature.slice_eq preKey.signature.property, ok_bind]
  cases P.signatureFromBytes preKey.signature.val with
  | error e => rfl
  | ok signature => rfl

theorem takeKemPreKey_part {part : List UInt8} (h : part.length = kemPreKeyPublicLen)
    (rest : List UInt8) : P.takeKemPreKey (part ++ rest) =
      (P.kemPreKeyPublicFromBytes part).map fun preKey => (preKey, rest) := by
  obtain ⟨preKey, rfl⟩ := KemPreKeyPublic.exists_toBytes h
  rw [kemPreKeyPublicFromBytes_toBytes]
  simp only [IdentityPrimitives.takeKemPreKey, KemPreKeyPublic.toBytes, List.append_assoc,
    takeU32_leBytes, ok_bind, takeBytes_append, takeSignature_part]
  cases P.signatureFromBytes preKey.signature.val with
  | error e => rfl
  | ok signature => rfl

/-! ## Bundles, init messages and key exchanges -/

theorem optionalOneTimePreKey_drop (h : offset ≤ bytes.length) :
    IdentityPrimitives.optionalOneTimePreKey (bytes.drop offset) =
      IdentityPrimitives.readOneTimePreKey bytes offset := by
  unfold IdentityPrimitives.readOneTimePreKey item
  rcases eq_or_lt_of_le h with rfl | hlt
  · rw [List.drop_length, List.getElem?_eq_none le_rfl]
    rfl
  rw [List.drop_eq_getElem_cons hlt, List.getElem?_eq_getElem hlt, IdentityPrimitives.optionalOneTimePreKey]
  simp only [ok_bind, List.length_drop]
  split_ifs with hflag hrest hlen hlen
  · rw [remaining, if_neg (not_lt.mpr hlt)]
    rfl
  · omega
  · omega
  · obtain ⟨part, hpart, hslice, hdrop⟩ := exists_part (not_lt.mp ‹_›)
    obtain ⟨preKey, rfl⟩ := OneTimePreKeyPublic.exists_toBytes hpart
    rw [hdrop, takeOneTimePreKey_toBytes, hslice, ok_bind, ok_bind, preKey.fromBytes_toBytes]
    rfl
  · rfl

/-- **The two readers of a bundle agree.** -/
theorem preKeyBundleFromBytes_eq (bytes : List UInt8) :
    P.preKeyBundleFromBytes bytes = P.parseBundle bytes := by
  unfold IdentityPrimitives.preKeyBundleFromBytes IdentityPrimitives.parseBundle
  dsimp only
  by_cases hlen : bytes.length < identityPublicKeyLen + signedPreKeyPublicLen + kemPreKeyPublicLen + 1
  · rw [if_pos hlen, if_pos hlen]
  rw [if_neg hlen, if_neg hlen]
  obtain ⟨identityPart, hidentity, hslice, hdrop⟩ :=
    exists_part (show 0 + identityPublicKeyLen ≤ bytes.length by omega)
  have hfirst := takeIdentity_part hidentity (bytes.drop (0 + identityPublicKeyLen))
  rw [← hdrop, List.drop_zero] at hfirst
  rw [hslice, ok_bind]
  refine (bind_eq_of_map hfirst fun identityPublic _ => ?_).symm
  obtain ⟨signedPart, hsigned, hslice, hdrop⟩ := exists_part
    (show 0 + identityPublicKeyLen + signedPreKeyPublicLen ≤ bytes.length by omega)
  dsimp only
  rw [hdrop, hslice, ok_bind]
  refine bind_eq_of_map (takeSignedPreKey_part hsigned _) fun signedPreKey _ => ?_
  obtain ⟨kemPart, hkem, hslice, hdrop⟩ := exists_part
    (show 0 + identityPublicKeyLen + signedPreKeyPublicLen + kemPreKeyPublicLen ≤ bytes.length by omega)
  dsimp only
  rw [hdrop, hslice, ok_bind]
  refine bind_eq_of_map (takeKemPreKey_part hkem _) fun kemPreKey _ => ?_
  dsimp only
  rw [optionalOneTimePreKey_drop (by omega)]

theorem takeUsedId_drop (h : offset ≤ bytes.length) : takeUsedId (bytes.drop offset) =
    (X3DHInitMessage.fromBytesAt.readUsedId bytes offset).map fun read => (read.1, bytes.drop read.2) := by
  unfold X3DHInitMessage.fromBytesAt.readUsedId item
  rcases eq_or_lt_of_le h with rfl | hlt
  · rw [List.drop_length, if_pos (Nat.lt_succ_self _)]
    rfl
  rw [if_neg (not_lt.mpr hlt), List.drop_eq_getElem_cons hlt, List.getElem?_eq_getElem hlt, takeUsedId]
  simp only [ok_bind, List.length_drop]
  split_ifs with hflag hrest hlen hlen
  · rfl
  · omega
  · omega
  · rw [takeU32_drop]
    cases readLe32 bytes (offset + 1) with
    | error e => rfl
    | ok id => rfl
  · rfl

/-- **The two readers of an init message agree.** -/
theorem X3DHInitMessage.fromBytesAt_eq (bytes : List UInt8) : fromBytesAt bytes = fromBytes bytes := by
  unfold fromBytesAt fromBytes
  dsimp only
  by_cases hlen : bytes.length < identityPublicKeyLen + 32 + 4 + 1 + 4 + 4
  · rw [if_pos hlen, if_pos hlen]
  rw [if_neg hlen, if_neg hlen]
  obtain ⟨identityPart, hidentity, hslice, hdrop⟩ :=
    exists_part (show 0 + identityPublicKeyLen ≤ bytes.length by omega)
  have hfirst := takeIdentity_part hidentity (bytes.drop (0 + identityPublicKeyLen))
  rw [← hdrop, List.drop_zero] at hfirst
  rw [hslice, ok_bind]
  refine (bind_eq_of_map hfirst fun senderIdentity _ => ?_).symm
  refine bind_eq_of_map (takeBytes_drop (by omega)) fun ephemeralPublic _ => ?_
  refine bind_eq_of_map takeU32_drop fun kemCtLen _ => ?_
  dsimp only
  have hoffset : 0 + identityPublicKeyLen + 32 + 4 ≤ bytes.length := by omega
  generalize 0 + identityPublicKeyLen + 32 + 4 = offset at hoffset
  rw [List.length_drop]
  by_cases hct : bytes.length < offset + kemCtLen.toNat
  · rw [if_pos hct, if_pos (by omega), remaining, if_neg (not_lt.mpr hoffset)]
    rfl
  obtain ⟨kemPart, hkem, hslice, hdrop⟩ := exists_part (not_lt.mp hct)
  rw [if_neg hct, if_neg (by omega), hslice, ok_bind, hdrop, List.take_left' hkem, List.drop_left' hkem]
  cases kemCiphertextFromBytes kemPart with
  | error e => rfl
  | ok kemCiphertext =>
    rw [ok_bind, ok_bind]
    refine bind_eq_of_map (takeUsedId_drop (not_lt.mp hct)) ?_
    rintro ⟨usedId, offset⟩ hread
    have hoffset := calm_readUsedId.of_ok hread
    dsimp only at hoffset ⊢
    rw [List.length_drop]
    by_cases hids : bytes.length < offset + 8
    · rw [if_pos hids, if_pos (by omega)]
    · rw [if_neg hids, if_neg (by omega)]
      refine bind_eq_of_map takeU32_drop fun usedSignedPreKeyId _ => ?_
      exact bind_eq_of_map takeU32_drop fun usedKemPreKeyId _ => rfl

/-- **The two readers of a key exchange agree.** -/
theorem keyExchangeFromBytes_eq (bytes : List UInt8) :
    P.keyExchangeFromBytes bytes = P.parseKeyExchange bytes := by
  unfold IdentityPrimitives.keyExchangeFromBytes
  cases bytes with
  | nil => rfl
  | cons tag payload =>
    have hslice : slice (tag :: payload) 1 (tag :: payload).length =
        (.ok payload : Except CryptoError _) := by
      unfold slice
      simp
    have hitem : item (tag :: payload) 0 = (.ok tag : Except CryptoError _) := rfl
    rw [IdentityPrimitives.parseKeyExchange, hitem, ok_bind, hslice, ok_bind, ok_bind,
      preKeyBundleFromBytes_eq, X3DHInitMessage.fromBytesAt_eq]
    simp only [List.isEmpty_cons, Bool.false_eq_true, if_false]
    split_ifs
    · rfl
    · cases P.parseBundle payload with
      | error e => rfl
      | ok bundle => rfl
    · cases X3DHInitMessage.fromBytes payload with
      | error e => rfl
      | ok init => rfl
    · rfl
    · rfl

end Rests

/-! ## All formats -/

section ReadBack

variable {P : IdentityPrimitives}

def PreKeyBundle.Signed (P : IdentityPrimitives) (bundle : PreKeyBundle) : Prop :=
  P.parseSignature bundle.signedPreKey.signature = true ∧
    P.parseSignature bundle.kemPreKey.signature = true

theorem EncryptedMessage.tryToBytes_eq {message : EncryptedMessage}
    (hheader : message.encryptedHeader.length < 2 ^ 32)
    (hciphertext : message.ciphertext.length < 2 ^ 32) :
    tryToBytes message = .ok message.toBytes := by
  unfold tryToBytes
  rw [if_neg (not_le.mpr hheader), if_neg (not_le.mpr hciphertext)]

/-- **What is written is read back**, in every format. -/
structure IdentityPrimitives.ReadsBack (P : IdentityPrimitives) : Prop where
  header (header : MessageHeader) : MessageHeader.fromBytesAt header.toBytes = .ok header
  encrypted (message : EncryptedMessage) (hheader : message.encryptedHeader.length < 2 ^ 32)
    (hciphertext : message.ciphertext.length < 2 ^ 32) :
    (message.tryToBytes >>= EncryptedMessage.fromBytesAt) = .ok message
  init (init : X3DHInitMessage) : X3DHInitMessage.fromBytesAt init.toBytes = .ok init
  bundle (bundle : PreKeyBundle) (hsigned : bundle.Signed P) :
    P.preKeyBundleFromBytes bundle.toBytes = .ok bundle
  keyExchange (message : KeyExchangeMessage)
    (hsigned : ∀ bundle, message = .bundle bundle → bundle.Signed P) :
    P.keyExchangeFromBytes message.toBytes = .ok message
  keyBundle (bundle : KeyBundle) (hstorable : bundle.Storable P) :
    P.deserialize bundle.serialize = .ok bundle

/-- **No bytes make a reader panic**, in any format. -/
structure IdentityPrimitives.ReadsCalmly (P : IdentityPrimitives) (bytes : List UInt8) : Prop where
  header (text : String) : MessageHeader.fromBytesAt bytes ≠ .error (.panicked text)
  encrypted (text : String) : EncryptedMessage.fromBytesAt bytes ≠ .error (.panicked text)
  init (text : String) : X3DHInitMessage.fromBytesAt bytes ≠ .error (.panicked text)
  bundle (text : String) : P.preKeyBundleFromBytes bytes ≠ .error (.panicked text)
  keyExchange (text : String) : P.keyExchangeFromBytes bytes ≠ .error (.panicked text)
  keyBundle (text : String) : P.deserialize bytes ≠ .error (.panicked text)

theorem readsBack (P : IdentityPrimitives) : P.ReadsBack where
  header header := by
    rw [MessageHeader.fromBytesAt_eq, MessageHeader.fromBytes_toBytes]
  encrypted message hheader hciphertext := by
    rw [EncryptedMessage.tryToBytes_eq hheader hciphertext, ok_bind,
      EncryptedMessage.fromBytesAt_eq, EncryptedMessage.fromBytes_toBytes hheader hciphertext]
  init init := by
    rw [X3DHInitMessage.fromBytesAt_eq, X3DHInitMessage.fromBytes_toBytes]
  bundle bundle hsigned := by
    rw [preKeyBundleFromBytes_eq, parseBundle_toBytes hsigned.1 hsigned.2]
  keyExchange message hsigned := by
    rw [keyExchangeFromBytes_eq, parseKeyExchange_toBytes hsigned]
  keyBundle _ hstorable := KeyBundle.deserialize_serialize hstorable

theorem readsCalmly (P : IdentityPrimitives) (bytes : List UInt8) : P.ReadsCalmly bytes where
  header := (MessageHeader.calm_fromBytesAt bytes).ne_panicked
  encrypted := (EncryptedMessage.calm_fromBytesAt bytes).ne_panicked
  init := (X3DHInitMessage.calm_fromBytesAt bytes).ne_panicked
  bundle := (calm_preKeyBundleFromBytes bytes).ne_panicked
  keyExchange := (calm_keyExchangeFromBytes bytes).ne_panicked
  keyBundle := (KeyBundle.calm_deserialize bytes).ne_panicked

def toyBundle : PreKeyBundle where
  identityPublic := signingPrimitives.publicIdentity signingIdentity
  signedPreKey := ⟨1, signingPrimitives.publicKey toyPair, fill 3309 fun _ => 0, 0⟩
  oneTimePreKey := some ⟨3, signingPrimitives.publicKey toyPair⟩
  kemPreKey := ⟨2, toyKemPair.ek, fill 3309 fun _ => 0⟩

def toyInit : X3DHInitMessage where
  senderIdentity := toyBundle.identityPublic
  ephemeralPublic := signingPrimitives.publicKey toyPair
  kemCiphertext := fill 1088 fun _ => 0
  usedOneTimePreKeyId := some 3
  usedSignedPreKeyId := 1
  usedKemPreKeyId := 2

def toyMessage : EncryptedMessage where
  encryptedHeader := [1, 2]
  headerNonce := fill 12 fun _ => 0
  ciphertext := [3]
  bodyNonce := fill 12 fun _ => 0

def toyKeys : KeyBundle where
  identity := signingIdentity
  signedPreKeys := [⟨1, toyPair, fill 3309 fun _ => 0, 0⟩]
  oneTimePreKeys := [⟨3, toyPair⟩]
  kemPreKeys := [⟨2, toyKemPair, fill 3309 fun _ => 0⟩]
  nextPreKeyId := 4
  kemPreKeyTimestamps := [0]

/-- **The binary formats**: what is written is read back, and no bytes make a reader panic. -/
theorem formats_readBack (P : IdentityPrimitives) : P.ReadsBack ∧ ∀ bytes, P.ReadsCalmly bytes :=
  ⟨readsBack P, readsCalmly P⟩

/-- An init message, an encrypted message and a bundle of the toy keys are read back. -/
theorem formats_readBack_toy :
    X3DHInitMessage.fromBytesAt toyInit.toBytes = .ok toyInit ∧
      (toyMessage.tryToBytes >>= EncryptedMessage.fromBytesAt) = .ok toyMessage ∧
      signingPrimitives.preKeyBundleFromBytes toyBundle.toBytes = .ok toyBundle ∧
      signingPrimitives.keyExchangeFromBytes (KeyExchangeMessage.bundle toyBundle).toBytes =
        .ok (.bundle toyBundle) ∧
      signingPrimitives.deserialize toyKeys.serialize = .ok toyKeys := by
  have hread := (formats_readBack signingPrimitives).1
  have hsigned : toyBundle.Signed signingPrimitives := by
    simp [PreKeyBundle.Signed, toyBundle, signingPrimitives]
  refine ⟨hread.init toyInit, hread.encrypted toyMessage (by decide) (by decide),
    hread.bundle toyBundle hsigned, hread.keyExchange _ fun bundle heq => ?_,
    hread.keyBundle toyKeys ?_⟩
  · obtain rfl := KeyExchangeMessage.bundle.inj heq
    exact hsigned
  · exact ⟨by simp [toyKeys, signingPrimitives], by simp [toyKeys, signingPrimitives],
      Nat.one_lt_two_pow (by decide), Nat.one_lt_two_pow (by decide), Nat.one_lt_two_pow (by decide),
      Nat.one_lt_two_pow (by decide)⟩

def largeMessage : EncryptedMessage where
  encryptedHeader := []
  headerNonce := fill 12 fun _ => 0
  ciphertext := List.replicate (2 ^ 32) 0
  bodyNonce := fill 12 fun _ => 0

def largeBundle : KeyBundle where
  identity := signingIdentity
  signedPreKeys := []
  oneTimePreKeys := []
  kemPreKeys := []
  nextPreKeyId := 1
  kemPreKeyTimestamps := List.replicate (2 ^ 32) 0

/-- **A large message cannot be written, and of a large bundle not all is read back.** -/
theorem not_readBack_large :
    largeMessage.tryToBytes = .error (.panicked "ciphertext exceeds u32::MAX bytes") ∧
      signingPrimitives.deserialize largeBundle.serialize ≠ .ok largeBundle := by
  constructor
  · have hlen : largeMessage.ciphertext.length = 2 ^ 32 := List.length_replicate
    unfold EncryptedMessage.tryToBytes
    rw [hlen, if_pos le_rfl, if_neg (by exact Nat.not_succ_le_zero _)]
  · have hlen : largeBundle.kemPreKeyTimestamps.length = 2 ^ 32 := List.length_replicate
    have hcount : (UInt32.ofNat (2 ^ 32)).toNat = 0 := rfl
    have hsigned : ∀ preKey ∈ largeBundle.signedPreKeys,
        signingPrimitives.parseSignature preKey.signature = true :=
      fun _ hmem => absurd hmem List.not_mem_nil
    have hkemSigned : ∀ preKey ∈ largeBundle.kemPreKeys,
        signingPrimitives.parseSignature preKey.signature = true :=
      fun _ hmem => absurd hmem List.not_mem_nil
    have hnone : 0 < 2 ^ 32 := Nat.two_pow_pos 32
    rw [KeyBundle.deserialize_serialize_take hsigned hkemSigned hnone hnone hnone, hlen, hcount]
    -- no timestamp is read back
    intro heq
    have hnil := congrArg (fun bundle => bundle.kemPreKeyTimestamps.length) (Except.ok.inj heq)
    dsimp only at hnil
    rw [hlen, List.take_zero] at hnil
    cases hnil

end ReadBack

end Pirc.Crypto
