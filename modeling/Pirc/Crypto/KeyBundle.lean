import Pirc.Crypto.Bytes
import Pirc.Crypto.Conversation
import Pirc.Lib.Slices

/-!
# Crypto: stored keys, as bytes

The formats in which `key_storage` keeps the secret keys of a user. Each key is a block of a fixed
length, read at offsets that are kept by hand; the bundle of all keys is a sequence of blocks with
their lengths. Counts and lengths are written in 32 bits without a check.
-/

namespace Pirc.Crypto

instance : Panics CryptoError := ⟨.panicked⟩

/-- `u32::from_le_bytes` of the four bytes from an offset on. -/
def readLe32 (bytes : List UInt8) (offset : ℕ) : Except CryptoError UInt32 := do
  let part ← word 4 bytes offset
  return .ofNat (fromLeBytes part.val)

/-- `u64::from_le_bytes` of the eight bytes from an offset on. -/
def readLe64 (bytes : List UInt8) (offset : ℕ) : Except CryptoError UInt64 := do
  let part ← word 8 bytes offset
  return .ofNat (fromLeBytes part.val)

def encodedKey (n : ℕ) (what : String) (part : List UInt8) : Except CryptoError (Bytes n) :=
  if h : part.length = n then .ok ⟨part, h⟩ else .error (.invalidKey what)

/-! ## Key pairs -/

def signingKeyLen : ℕ := 4032

def verifyingKeyLen : ℕ := 1952

def signatureLen : ℕ := 3309

def identityKeyPairLen : ℕ := signingKeyLen + verifyingKeyLen + 32

def SigningKeyPair.toBytes (pair : SigningKeyPair) : List UInt8 := pair.sk.val ++ pair.vk.val

def SigningKeyPair.fromBytes (bytes : List UInt8) : Except CryptoError SigningKeyPair :=
  let expected := signingKeyLen + verifyingKeyLen
  if bytes.length ≠ expected then
    .error (.invalidKey ("SigningKeyPair: expected " ++ toString expected ++ " bytes, got " ++
      toString bytes.length))
  else do
    let skPart ← slice bytes 0 signingKeyLen
    let sk ← encodedKey 4032 "invalid signing key length" skPart
    let vkPart ← slice bytes signingKeyLen bytes.length
    let vk ← encodedKey 1952 "invalid verifying key length" vkPart
    return { sk, vk }

def IdentityKeyPair.toBytes (identity : IdentityKeyPair) : List UInt8 :=
  identity.signingKey.toBytes ++ identity.dhKey.secret.val

def IdentityKeyPair.fromBytes (bytes : List UInt8) : Except CryptoError IdentityKeyPair :=
  if bytes.length ≠ identityKeyPairLen then
    .error (.invalidKey ("IdentityKeyPair: expected " ++ toString identityKeyPairLen ++
      " bytes, got " ++ toString bytes.length))
  else do
    let skLen := signingKeyLen + verifyingKeyLen
    let skPart ← slice bytes 0 skLen
    let signingKey ← SigningKeyPair.fromBytes skPart
    let dhPart ← slice bytes skLen bytes.length
    let secret ← exactly 32 dhPart
    return { signingKey, dhKey := ⟨secret⟩ }

def KemKeyPair.toBytes (pair : KemKeyPair) : List UInt8 := pair.dk.val ++ pair.ek.val

def KemKeyPair.fromBytes (bytes : List UInt8) : Except CryptoError KemKeyPair :=
  let expected := secretKeyLen + publicKeyLen
  if bytes.length ≠ expected then
    .error (.invalidKey ("KemKeyPair: expected " ++ toString expected ++ " bytes, got " ++
      toString bytes.length))
  else do
    let dkPart ← slice bytes 0 secretKeyLen
    let dk ← encodedKey 2400 "invalid decapsulation key length" dkPart
    let ekPart ← slice bytes secretKeyLen bytes.length
    let ek ← encodedKey 1184 "invalid encapsulation key length" ekPart
    return { dk, ek }

/-! ## Pre-keys -/

def SignedPreKey.toBytes (preKey : SignedPreKey) : List UInt8 :=
  leBytes 4 preKey.id.toNat ++ preKey.keyPair.secret.val ++ preKey.signature.val ++
    leBytes 8 preKey.timestamp.toNat

def OneTimePreKey.toBytes (preKey : OneTimePreKey) : List UInt8 :=
  leBytes 4 preKey.id.toNat ++ preKey.keyPair.secret.val

def OneTimePreKey.fromBytes (bytes : List UInt8) : Except CryptoError OneTimePreKey :=
  let expected := 4 + 32
  if bytes.length ≠ expected then
    .error (.serialization ("OneTimePreKey: expected " ++ toString expected ++ " bytes, got " ++
      toString bytes.length))
  else do
    let id ← readLe32 bytes 0
    let skPart ← slice bytes 4 bytes.length
    let secret ← exactly 32 skPart
    return { id, keyPair := ⟨secret⟩ }

def KemPreKey.toBytes (preKey : KemPreKey) : List UInt8 :=
  leBytes 4 preKey.id.toNat ++ preKey.kemPair.toBytes ++ preKey.signature.val

namespace IdentityPrimitives

variable (P : IdentityPrimitives)

/-- `Signature::from_bytes`. -/
def signatureFromBytes (part : List UInt8) : Except CryptoError Signature :=
  if h : part.length = 3309 then
    if P.parseSignature ⟨part, h⟩ then .ok ⟨part, h⟩
    else .error (.signature "invalid signature: signature error")
  else .error (.signature "invalid signature: signature error")

/-- `SignedPreKey::from_bytes`. -/
def signedPreKeyFromBytes (bytes : List UInt8) : Except CryptoError SignedPreKey :=
  let expected := 4 + 32 + signatureLen + 8
  if bytes.length ≠ expected then
    .error (.serialization ("SignedPreKey: expected " ++ toString expected ++ " bytes, got " ++
      toString bytes.length))
  else do
    let offset := 0
    let id ← readLe32 bytes offset
    let offset := offset + 4
    let secret ← word 32 bytes offset
    let offset := offset + 32
    let signaturePart ← slice bytes offset (offset + signatureLen)
    let signature ← P.signatureFromBytes signaturePart
    let offset := offset + signatureLen
    let timestamp ← readLe64 bytes offset
    return { id, keyPair := ⟨secret⟩, signature, timestamp }

/-- `KemPreKey::from_bytes`. -/
def kemPreKeyFromBytes (bytes : List UInt8) : Except CryptoError KemPreKey :=
  let kemPairLen := secretKeyLen + publicKeyLen
  let expected := 4 + kemPairLen + signatureLen
  if bytes.length ≠ expected then
    .error (.serialization ("KemPreKey: expected " ++ toString expected ++ " bytes, got " ++
      toString bytes.length))
  else do
    let offset := 0
    let id ← readLe32 bytes offset
    let offset := offset + 4
    let kemPart ← slice bytes offset (offset + kemPairLen)
    let kemPair ← KemKeyPair.fromBytes kemPart
    let offset := offset + kemPairLen
    let signaturePart ← slice bytes offset (offset + signatureLen)
    let signature ← P.signatureFromBytes signaturePart
    return { id, kemPair, signature }

end IdentityPrimitives

/-! ## Bundles of keys -/

/-- All keys of a user. The timestamps are those of the KEM pre-keys, in their order. -/
structure KeyBundle where
  identity : IdentityKeyPair
  signedPreKeys : List SignedPreKey
  oneTimePreKeys : List OneTimePreKey
  kemPreKeys : List KemPreKey
  nextPreKeyId : UInt32
  kemPreKeyTimestamps : List UInt64
  deriving DecidableEq

namespace KeyBundle

def writeCount (count : ℕ) : List UInt8 := leBytes 4 (UInt32.ofNat count).toNat

def writeBlob (data : List UInt8) : List UInt8 := writeCount data.length ++ data

/-- All keys of a user as bytes. -/
def serialize (bundle : KeyBundle) : List UInt8 :=
  writeBlob bundle.identity.toBytes ++
    (writeCount bundle.signedPreKeys.length ++
    ((bundle.signedPreKeys.flatMap fun preKey => writeBlob preKey.toBytes) ++
    (writeCount bundle.oneTimePreKeys.length ++
    ((bundle.oneTimePreKeys.flatMap fun preKey => writeBlob preKey.toBytes) ++
    (writeCount bundle.kemPreKeys.length ++
    ((bundle.kemPreKeys.flatMap fun preKey => writeBlob preKey.toBytes) ++
    (leBytes 4 bundle.nextPreKeyId.toNat ++
    (writeCount bundle.kemPreKeyTimestamps.length ++
    (bundle.kemPreKeyTimestamps.flatMap fun timestamp => leBytes 8 timestamp.toNat)))))))))

def readU32 (data : List UInt8) (offset : ℕ) : Except CryptoError (UInt32 × ℕ) :=
  if data.length < offset + 4 then .error (.serialization "unexpected end of data")
  else do
    let value ← readLe32 data offset
    return (value, offset + 4)

def readBlob (data : List UInt8) (offset : ℕ) : Except CryptoError (List UInt8 × ℕ) := do
  let (len, offset) ← readU32 data offset
  if data.length < offset + len.toNat then
    let rest ← remaining data offset
    .error (.serialization ("expected " ++ toString len.toNat ++ " bytes at offset " ++
      toString offset ++ ", got " ++ toString rest))
  else
    let part ← slice data offset (offset + len.toNat)
    return (part, offset + len.toNat)

def readKeys {α : Type} (fromBytes : List UInt8 → Except CryptoError α) (data : List UInt8) :
    ℕ → ℕ → Except CryptoError (List α × ℕ)
  | 0, offset => .ok ([], offset)
  | count + 1, offset => do
    let (blob, offset) ← readBlob data offset
    let key ← fromBytes blob
    let (keys, offset) ← readKeys fromBytes data count offset
    return (key :: keys, offset)

def readTimestamps (data : List UInt8) : ℕ → ℕ → Except CryptoError (List UInt64)
  | 0, _ => .ok []
  | count + 1, offset =>
    if data.length < offset + 8 then
      .error (.serialization "unexpected end of data reading KEM timestamps")
    else do
      let timestamp ← readLe64 data offset
      let timestamps ← readTimestamps data count (offset + 8)
      return timestamp :: timestamps

def readKemTimestamps (data : List UInt8) (kemPreKeys offset : ℕ) : Except CryptoError (List UInt64) :=
  if offset + 4 ≤ data.length then do
    let (count, offset) ← readU32 data offset
    readTimestamps data count.toNat offset
  else .ok (List.replicate kemPreKeys 0)

end KeyBundle

open KeyBundle in
/-- `KeyBundle::deserialize`; bytes after the timestamps are ignored. -/
def IdentityPrimitives.deserialize (P : IdentityPrimitives) (data : List UInt8) :
    Except CryptoError KeyBundle := do
  let (idBytes, offset) ← readBlob data 0
  let identity ← IdentityKeyPair.fromBytes idBytes
  let (spkCount, offset) ← readU32 data offset
  let (signedPreKeys, offset) ← readKeys P.signedPreKeyFromBytes data spkCount.toNat offset
  let (otpkCount, offset) ← readU32 data offset
  let (oneTimePreKeys, offset) ← readKeys OneTimePreKey.fromBytes data otpkCount.toNat offset
  let (kpkCount, offset) ← readU32 data offset
  let (kemPreKeys, offset) ← readKeys P.kemPreKeyFromBytes data kpkCount.toNat offset
  let (nextPreKeyId, offset) ← readU32 data offset
  let kemPreKeyTimestamps ← readKemTimestamps data kemPreKeys.length offset
  return {
    identity := identity
    signedPreKeys := signedPreKeys
    oneTimePreKeys := oneTimePreKeys
    kemPreKeys := kemPreKeys
    nextPreKeyId := nextPreKeyId
    kemPreKeyTimestamps := kemPreKeyTimestamps }

/-! ## Keys are read back -/

section RoundTrip

variable {P : IdentityPrimitives} {data : List UInt8} {offset : ℕ}

theorem readLe32_eq {n : UInt32} (h : StandsAt data offset (leBytes 4 n.toNat)) :
    readLe32 data offset = .ok n := by
  have hlt : n.toNat < 256 ^ 4 := n.toNat_lt
  have hword := h.word_eq (ε := CryptoError) (length_leBytes ..)
  unfold readLe32
  rw [hword, ok_bind, fromLeBytes_leBytes, Nat.mod_eq_of_lt hlt, UInt32.ofNat_toNat]
  rfl

theorem readLe64_eq {n : UInt64} (h : StandsAt data offset (leBytes 8 n.toNat)) :
    readLe64 data offset = .ok n := by
  have hlt : n.toNat < 256 ^ 8 := n.toNat_lt
  have hword := h.word_eq (ε := CryptoError) (length_leBytes ..)
  unfold readLe64
  rw [hword, ok_bind, fromLeBytes_leBytes, Nat.mod_eq_of_lt hlt, UInt64.ofNat_toNat]
  rfl

theorem encodedKey_val {n : ℕ} (what : String) (key : Bytes n) : encodedKey n what key.val = .ok key :=
  dif_pos key.property

theorem exactly_val {n : ℕ} (key : Bytes n) : exactly n key.val = (.ok key : Except CryptoError _) :=
  dif_pos key.property

theorem slice_last {part : List UInt8} (h : StandsAt data offset part)
    (hlast : offset + part.length = data.length) :
    slice data offset data.length = (.ok part : Except CryptoError _) := by
  rw [← hlast]
  exact h.slice_eq rfl

@[simp] theorem length_toBytes_signingKeyPair (pair : SigningKeyPair) :
    pair.toBytes.length = signingKeyLen + verifyingKeyLen := by
  simp [SigningKeyPair.toBytes, pair.sk.property, pair.vk.property, signingKeyLen, verifyingKeyLen]

theorem SigningKeyPair.fromBytes_toBytes (pair : SigningKeyPair) : fromBytes pair.toBytes = .ok pair := by
  obtain ⟨hsk, hvk⟩ := (standsAt_self pair.toBytes).split pair.sk.property
  have hlast : signingKeyLen + pair.vk.val.length = pair.toBytes.length := by
    rw [length_toBytes_signingKeyPair, pair.vk.property]
    rfl
  have hfirst : slice pair.toBytes 0 signingKeyLen = (.ok pair.sk.val : Except CryptoError _) :=
    hsk.slice_eq pair.sk.property
  have hrest : slice pair.toBytes signingKeyLen pair.toBytes.length =
      (.ok pair.vk.val : Except CryptoError _) := slice_last hvk hlast
  unfold fromBytes
  rw [if_neg (not_not.mpr (length_toBytes_signingKeyPair pair)), hfirst, ok_bind, encodedKey_val,
    ok_bind, hrest, ok_bind, encodedKey_val]
  rfl

@[simp] theorem length_toBytes_identityKeyPair (identity : IdentityKeyPair) :
    identity.toBytes.length = identityKeyPairLen := by
  rw [IdentityKeyPair.toBytes, List.length_append, length_toBytes_signingKeyPair,
    identity.dhKey.secret.property]
  rfl

theorem IdentityKeyPair.fromBytes_toBytes (identity : IdentityKeyPair) :
    fromBytes identity.toBytes = .ok identity := by
  have hsigning := length_toBytes_signingKeyPair identity.signingKey
  obtain ⟨hsk, hdh⟩ := (standsAt_self identity.toBytes).split hsigning
  have hlast : 0 + (signingKeyLen + verifyingKeyLen) + identity.dhKey.secret.val.length =
      identity.toBytes.length := by
    rw [length_toBytes_identityKeyPair, identity.dhKey.secret.property]
    rfl
  have hfirst := hsk.slice_eq (ε := CryptoError) hsigning
  have hrest := slice_last hdh hlast
  rw [Nat.zero_add] at hfirst hrest
  unfold fromBytes
  rw [if_neg (not_not.mpr (length_toBytes_identityKeyPair identity))]
  dsimp only
  rw [hfirst, ok_bind, SigningKeyPair.fromBytes_toBytes, ok_bind, hrest, ok_bind, exactly_val]
  rfl

@[simp] theorem length_toBytes_kemKeyPair (pair : KemKeyPair) :
    pair.toBytes.length = secretKeyLen + publicKeyLen := by
  rw [KemKeyPair.toBytes, List.length_append, pair.dk.property, pair.ek.property]
  rfl

theorem KemKeyPair.fromBytes_toBytes (pair : KemKeyPair) : fromBytes pair.toBytes = .ok pair := by
  obtain ⟨hdk, hek⟩ := (standsAt_self pair.toBytes).split pair.dk.property
  have hlast : secretKeyLen + pair.ek.val.length = pair.toBytes.length := by
    rw [length_toBytes_kemKeyPair, pair.ek.property]
    rfl
  have hfirst : slice pair.toBytes 0 secretKeyLen = (.ok pair.dk.val : Except CryptoError _) :=
    hdk.slice_eq pair.dk.property
  have hrest : slice pair.toBytes secretKeyLen pair.toBytes.length =
      (.ok pair.ek.val : Except CryptoError _) := slice_last hek hlast
  unfold fromBytes
  rw [if_neg (not_not.mpr (length_toBytes_kemKeyPair pair)), hfirst, ok_bind, encodedKey_val,
    ok_bind, hrest, ok_bind, encodedKey_val]
  rfl

theorem signatureFromBytes_val {signature : Signature} (h : P.parseSignature signature = true) :
    P.signatureFromBytes signature.val = .ok signature := by
  unfold IdentityPrimitives.signatureFromBytes
  rw [dif_pos signature.property]
  exact if_pos h

@[simp] theorem length_toBytes_signedPreKeySecret (preKey : SignedPreKey) :
    preKey.toBytes.length = 4 + 32 + signatureLen + 8 := by
  simp only [SignedPreKey.toBytes, List.length_append, length_leBytes,
    preKey.keyPair.secret.property, preKey.signature.property]
  rfl

theorem signedPreKeyFromBytes_toBytes {preKey : SignedPreKey}
    (h : P.parseSignature preKey.signature = true) :
    P.signedPreKeyFromBytes preKey.toBytes = .ok preKey := by
  have hall := standsAt_self preKey.toBytes
  conv at hall =>
    arg 3
    rw [SignedPreKey.toBytes, List.append_assoc, List.append_assoc]
  obtain ⟨hid, hall⟩ := hall.split (length_leBytes ..)
  obtain ⟨hsecret, hall⟩ := hall.split preKey.keyPair.secret.property
  obtain ⟨hsignature, htimestamp⟩ := hall.split preKey.signature.property
  unfold IdentityPrimitives.signedPreKeyFromBytes
  rw [if_neg (not_not.mpr (length_toBytes_signedPreKeySecret preKey))]
  dsimp only
  rw [readLe32_eq hid, ok_bind, hsecret.word_eq preKey.keyPair.secret.property, ok_bind,
    show slice preKey.toBytes (0 + 4 + 32) (0 + 4 + 32 + signatureLen) = _ from
      hsignature.slice_eq preKey.signature.property, ok_bind, signatureFromBytes_val h, ok_bind,
    show readLe64 preKey.toBytes (0 + 4 + 32 + signatureLen) = _ from readLe64_eq htimestamp]
  rfl

@[simp] theorem length_toBytes_oneTimePreKey (preKey : OneTimePreKey) :
    preKey.toBytes.length = 4 + 32 := by
  rw [OneTimePreKey.toBytes, List.length_append, length_leBytes, preKey.keyPair.secret.property]

theorem OneTimePreKey.fromBytes_toBytes (preKey : OneTimePreKey) :
    fromBytes preKey.toBytes = .ok preKey := by
  obtain ⟨hid, hsecret⟩ := (standsAt_self preKey.toBytes).split (length_leBytes 4 preKey.id.toNat)
  have hlast : 4 + preKey.keyPair.secret.val.length = preKey.toBytes.length := by
    rw [length_toBytes_oneTimePreKey, preKey.keyPair.secret.property]
  unfold fromBytes
  rw [if_neg (not_not.mpr (length_toBytes_oneTimePreKey preKey)), readLe32_eq hid, ok_bind,
    slice_last hsecret hlast, ok_bind, exactly_val]
  rfl

@[simp] theorem length_toBytes_kemPreKeySecret (preKey : KemPreKey) :
    preKey.toBytes.length = 4 + (secretKeyLen + publicKeyLen) + signatureLen := by
  simp only [KemPreKey.toBytes, List.length_append, length_leBytes, length_toBytes_kemKeyPair,
    preKey.signature.property]
  rfl

theorem kemPreKeyFromBytes_toBytes {preKey : KemPreKey} (h : P.parseSignature preKey.signature = true) :
    P.kemPreKeyFromBytes preKey.toBytes = .ok preKey := by
  have hpair := length_toBytes_kemKeyPair preKey.kemPair
  have hall := standsAt_self preKey.toBytes
  conv at hall =>
    arg 3
    rw [KemPreKey.toBytes, List.append_assoc]
  obtain ⟨hid, hall⟩ := hall.split (length_leBytes ..)
  obtain ⟨hkem, hsignature⟩ := hall.split hpair
  unfold IdentityPrimitives.kemPreKeyFromBytes
  rw [if_neg (not_not.mpr (length_toBytes_kemPreKeySecret preKey))]
  dsimp only
  rw [readLe32_eq hid, ok_bind, hkem.slice_eq hpair, ok_bind, KemKeyPair.fromBytes_toBytes, ok_bind,
    show slice preKey.toBytes (0 + 4 + (secretKeyLen + publicKeyLen))
        (0 + 4 + (secretKeyLen + publicKeyLen) + signatureLen) = _ from
      hsignature.slice_eq preKey.signature.property, ok_bind, signatureFromBytes_val h]
  rfl

namespace KeyBundle

theorem toNat_ofNat_count {count : ℕ} (h : count < 2 ^ 32) : (UInt32.ofNat count).toNat = count :=
  UInt32.toNat_ofNat_of_lt' h

@[simp] theorem length_writeCount (count : ℕ) : (writeCount count).length = 4 := length_leBytes ..

@[simp] theorem length_writeBlob (blob : List UInt8) : (writeBlob blob).length = 4 + blob.length := by
  rw [writeBlob, List.length_append, length_writeCount]

theorem readU32_eq {n : UInt32} (h : StandsAt data offset (leBytes 4 n.toNat)) :
    readU32 data offset = .ok (n, offset + 4) := by
  have hle := h.le
  rw [length_leBytes] at hle
  unfold readU32
  rw [if_neg (not_lt.mpr hle), readLe32_eq h]
  rfl

theorem readBlob_eq {blob : List UInt8} (h : StandsAt data offset (writeBlob blob))
    (hlen : blob.length < 2 ^ 32) :
    readBlob data offset = .ok (blob, offset + (writeBlob blob).length) := by
  obtain ⟨hcount, hblob⟩ := h.split (length_writeCount ..)
  have hle := hblob.le
  unfold readBlob
  rw [readU32_eq hcount, ok_bind]
  dsimp only
  rw [toNat_ofNat_count hlen, if_neg (not_lt.mpr hle), hblob.slice_eq rfl, length_writeBlob,
    ← Nat.add_assoc]
  rfl

/-- **Keys are read back**, one block after another. -/
theorem readKeys_eq {α : Type} {toBytes : α → List UInt8}
    {fromBytes : List UInt8 → Except CryptoError α} (hlen : ∀ key, (toBytes key).length < 2 ^ 32)
    {keys : List α}
    (hback : ∀ key ∈ keys, fromBytes (toBytes key) = .ok key)
    (h : StandsAt data offset (keys.flatMap fun key => writeBlob (toBytes key))) :
    readKeys fromBytes data keys.length offset =
      .ok (keys, offset + (keys.flatMap fun key => writeBlob (toBytes key)).length) := by
  induction keys generalizing offset with
  | nil => rfl
  | cons key keys ih =>
    rw [List.flatMap_cons] at h ⊢
    obtain ⟨hkey, hkeys⟩ := h.split rfl
    have hrest := ih (fun key hmem => hback key (List.mem_cons_of_mem _ hmem)) hkeys
    rw [List.length_cons, readKeys, readBlob_eq hkey (hlen key), ok_bind]
    dsimp only
    rw [hback key List.mem_cons_self, ok_bind, hrest, ok_bind, List.length_append, Nat.add_assoc]
    rfl

theorem readTimestamps_eq {timestamps : List UInt64} {count : ℕ} (hcount : count ≤ timestamps.length)
    (h : StandsAt data offset (timestamps.flatMap fun timestamp => leBytes 8 timestamp.toNat)) :
    readTimestamps data count offset = .ok (timestamps.take count) := by
  induction count generalizing timestamps offset with
  | zero => rfl
  | succ count ih =>
    cases timestamps with
    | nil => cases hcount
    | cons timestamp timestamps =>
      rw [List.flatMap_cons] at h
      obtain ⟨hfirst, hrest⟩ := h.split (length_leBytes ..)
      have hle := hfirst.le
      rw [length_leBytes] at hle
      rw [readTimestamps, if_neg (not_lt.mpr hle), readLe64_eq hfirst, ok_bind,
        ih (Nat.le_of_succ_le_succ hcount) hrest]
      rfl

/-- A bundle with signatures that are signatures, and with fewer than `2 ^ 32` keys of each kind. -/
structure Storable (P : IdentityPrimitives) (bundle : KeyBundle) : Prop where
  signed : ∀ preKey ∈ bundle.signedPreKeys, P.parseSignature preKey.signature = true
  kemSigned : ∀ preKey ∈ bundle.kemPreKeys, P.parseSignature preKey.signature = true
  signedPreKeys : bundle.signedPreKeys.length < 2 ^ 32
  oneTimePreKeys : bundle.oneTimePreKeys.length < 2 ^ 32
  kemPreKeys : bundle.kemPreKeys.length < 2 ^ 32
  timestamps : bundle.kemPreKeyTimestamps.length < 2 ^ 32

theorem deserialize_serialize_take {bundle : KeyBundle}
    (hsigned : ∀ preKey ∈ bundle.signedPreKeys, P.parseSignature preKey.signature = true)
    (hkemSigned : ∀ preKey ∈ bundle.kemPreKeys, P.parseSignature preKey.signature = true)
    (hspk : bundle.signedPreKeys.length < 2 ^ 32) (hotpk : bundle.oneTimePreKeys.length < 2 ^ 32)
    (hkpk : bundle.kemPreKeys.length < 2 ^ 32) :
    P.deserialize bundle.serialize = .ok { bundle with
      kemPreKeyTimestamps :=
        bundle.kemPreKeyTimestamps.take (UInt32.ofNat bundle.kemPreKeyTimestamps.length).toNat } := by
  have hall := standsAt_self bundle.serialize
  conv at hall =>
    arg 3
    rw [serialize]
  -- the parts of the bundle, one behind the other
  obtain ⟨hidentity, hall⟩ := hall.split rfl
  obtain ⟨hspkCount, hall⟩ := hall.split (length_writeCount ..)
  obtain ⟨hspks, hall⟩ := hall.split rfl
  obtain ⟨hotpkCount, hall⟩ := hall.split (length_writeCount ..)
  obtain ⟨hotpks, hall⟩ := hall.split rfl
  obtain ⟨hkpkCount, hall⟩ := hall.split (length_writeCount ..)
  obtain ⟨hkpks, hall⟩ := hall.split rfl
  obtain ⟨hnext, hall⟩ := hall.split (length_leBytes ..)
  obtain ⟨htsCount, htimestamps⟩ := hall.split (length_writeCount ..)
  have hspkRead := readKeys_eq (fun preKey => by rw [length_toBytes_signedPreKeySecret]; decide)
    (fun preKey hmem => signedPreKeyFromBytes_toBytes (hsigned preKey hmem)) hspks
  have hotpkRead := readKeys_eq (fun preKey => by rw [length_toBytes_oneTimePreKey]; decide)
    (fun preKey _ => preKey.fromBytes_toBytes) hotpks
  have hkpkRead := readKeys_eq (fun preKey => by rw [length_toBytes_kemPreKeySecret]; decide)
    (fun preKey hmem => kemPreKeyFromBytes_toBytes (hkemSigned preKey hmem)) hkpks
  unfold IdentityPrimitives.deserialize
  rw [readBlob_eq hidentity (by rw [length_toBytes_identityKeyPair]; decide), ok_bind]
  dsimp only
  rw [IdentityKeyPair.fromBytes_toBytes, ok_bind, readU32_eq hspkCount, ok_bind]
  dsimp only
  rw [toNat_ofNat_count hspk, hspkRead, ok_bind, readU32_eq hotpkCount, ok_bind]
  dsimp only
  rw [toNat_ofNat_count hotpk, hotpkRead, ok_bind, readU32_eq hkpkCount, ok_bind]
  dsimp only
  rw [toNat_ofNat_count hkpk, hkpkRead, ok_bind, readU32_eq hnext, ok_bind]
  dsimp only
  have hle := htsCount.le
  rw [length_writeCount] at hle
  rw [readKemTimestamps, if_pos hle, readU32_eq htsCount, ok_bind]
  dsimp only
  rw [readTimestamps_eq (by rw [UInt32.toNat_ofNat']; exact Nat.mod_le ..) htimestamps]
  rfl

/-- **A bundle of keys is read back as it was written.** -/
theorem deserialize_serialize {bundle : KeyBundle} (h : bundle.Storable P) :
    P.deserialize bundle.serialize = .ok bundle := by
  rw [deserialize_serialize_take h.signed h.kemSigned h.signedPreKeys h.oneTimePreKeys h.kemPreKeys,
    toNat_ofNat_count h.timestamps, List.take_length]

end KeyBundle

end RoundTrip

/-! ## Readers do not panic -/

section Calm

variable {P : IdentityPrimitives} {data : List UInt8} {offset : ℕ}

theorem calm_readLe32 (h : offset + 4 ≤ data.length) : Calm (fun _ => True) (readLe32 data offset) :=
  (calm_word h).bind fun _ _ => calm_pure trivial

theorem calm_readLe64 (h : offset + 8 ≤ data.length) : Calm (fun _ => True) (readLe64 data offset) :=
  (calm_word h).bind fun _ _ => calm_pure trivial

theorem calm_serialization {α : Type} {Q : α → Prop} (text : String) :
    Calm Q (.error (.serialization text) : Except CryptoError α) :=
  calm_error fun _ h => by cases h

theorem calm_invalidKey {α : Type} {Q : α → Prop} (text : String) :
    Calm Q (.error (.invalidKey text) : Except CryptoError α) :=
  calm_error fun _ h => by cases h

theorem calm_signature {α : Type} {Q : α → Prop} (text : String) :
    Calm Q (.error (.signature text) : Except CryptoError α) :=
  calm_error fun _ h => by cases h

theorem calm_encodedKey {n : ℕ} (what : String) (part : List UInt8) :
    Calm (fun _ => True) (encodedKey n what part) := by
  unfold encodedKey
  split_ifs
  · exact calm_ok trivial
  · exact calm_invalidKey _

theorem calm_signatureFromBytes (part : List UInt8) : Calm (fun _ => True) (P.signatureFromBytes part) := by
  unfold IdentityPrimitives.signatureFromBytes
  split_ifs
  · exact calm_ok trivial
  · exact calm_signature _
  · exact calm_signature _

theorem SigningKeyPair.calm_fromBytes (bytes : List UInt8) : Calm (fun _ => True) (fromBytes bytes) := by
  refine calm_ite (fun _ => calm_invalidKey _) fun hlen => ?_
  have hlen := not_not.mp hlen
  refine (calm_slice (Nat.zero_le _) (by rw [hlen]; exact Nat.le_add_right ..)).bind fun sk _ => ?_
  refine (calm_encodedKey _ sk).bind fun _ _ => ?_
  refine (calm_slice (by rw [hlen]; exact Nat.le_add_right ..) le_rfl).bind fun vk _ => ?_
  exact (calm_encodedKey _ vk).bind fun _ _ => calm_pure trivial

theorem IdentityKeyPair.calm_fromBytes (bytes : List UInt8) :
    Calm (fun _ => True) (fromBytes bytes) := by
  refine calm_ite (fun _ => calm_invalidKey _) fun hlen => ?_
  have hlen := not_not.mp hlen
  have hle : signingKeyLen + verifyingKeyLen ≤ bytes.length := by
    rw [hlen]
    exact Nat.le_add_right ..
  refine (calm_slice (Nat.zero_le _) hle).bind fun sk _ => ?_
  refine (SigningKeyPair.calm_fromBytes sk).bind fun _ _ => ?_
  refine (calm_slice hle le_rfl).bind fun dh hdh => ?_
  refine (calm_exactly ?_).bind fun _ _ => calm_pure trivial
  rw [hdh, hlen]
  rfl

theorem KemKeyPair.calm_fromBytes (bytes : List UInt8) : Calm (fun _ => True) (fromBytes bytes) := by
  refine calm_ite (fun _ => calm_invalidKey _) fun hlen => ?_
  have hlen := not_not.mp hlen
  refine (calm_slice (Nat.zero_le _) (by rw [hlen]; exact Nat.le_add_right ..)).bind fun dk _ => ?_
  refine (calm_encodedKey _ dk).bind fun _ _ => ?_
  refine (calm_slice (by rw [hlen]; exact Nat.le_add_right ..) le_rfl).bind fun ek _ => ?_
  exact (calm_encodedKey _ ek).bind fun _ _ => calm_pure trivial

theorem calm_signedPreKeyFromBytes (bytes : List UInt8) :
    Calm (fun _ => True) (P.signedPreKeyFromBytes bytes) := by
  refine calm_ite (fun _ => calm_serialization _) fun hlen => ?_
  have hlen := not_not.mp hlen
  have hnumber : bytes.length = 3353 := hlen
  refine (calm_readLe32 (by omega)).bind fun _ _ => ?_
  refine (calm_word (by omega)).bind fun _ _ => ?_
  refine (calm_slice (Nat.le_add_right ..) (by rw [hlen]; decide)).bind fun part _ => ?_
  refine (calm_signatureFromBytes part).bind fun _ _ => ?_
  exact (calm_readLe64 (by rw [hlen])).bind fun _ _ => calm_pure trivial

theorem OneTimePreKey.calm_fromBytes (bytes : List UInt8) : Calm (fun _ => True) (fromBytes bytes) := by
  refine calm_ite (fun _ => calm_serialization _) fun hlen => ?_
  have hlen := not_not.mp hlen
  refine (calm_readLe32 (by rw [hlen]; decide)).bind fun _ _ => ?_
  refine (calm_slice (by rw [hlen]; decide) le_rfl).bind fun part hpart => ?_
  refine (calm_exactly ?_).bind fun _ _ => calm_pure trivial
  rw [hpart, hlen]

theorem calm_kemPreKeyFromBytes (bytes : List UInt8) :
    Calm (fun _ => True) (P.kemPreKeyFromBytes bytes) := by
  refine calm_ite (fun _ => calm_serialization _) fun hlen => ?_
  have hlen := not_not.mp hlen
  refine (calm_readLe32 (by rw [hlen]; decide)).bind fun _ _ => ?_
  refine (calm_slice (Nat.le_add_right ..) (by rw [hlen]; decide)).bind fun kem _ => ?_
  refine (KemKeyPair.calm_fromBytes kem).bind fun _ _ => ?_
  refine (calm_slice (Nat.le_add_right ..) (by rw [hlen])).bind fun part _ => ?_
  exact (calm_signatureFromBytes part).bind fun _ _ => calm_pure trivial

namespace KeyBundle

theorem calm_readU32 : Calm (fun read => read.2 ≤ data.length) (readU32 data offset) := by
  refine calm_ite (fun _ => calm_serialization _) fun hlen => ?_
  exact (calm_readLe32 (not_lt.mp hlen)).bind fun _ _ => calm_pure (not_lt.mp hlen)

theorem calm_readBlob : Calm (fun _ => True) (readBlob data offset) := by
  refine calm_readU32.bind ?_
  rintro ⟨len, offset⟩ hoffset
  refine calm_ite (fun _ => ?_) fun hlen => ?_
  · exact (calm_remaining hoffset).bind fun _ _ => calm_serialization _
  · exact (calm_slice (Nat.le_add_right ..) (not_lt.mp hlen)).bind fun _ _ => calm_pure trivial

theorem calm_readKeys {α : Type} {fromBytes : List UInt8 → Except CryptoError α}
    (h : ∀ bytes, Calm (fun _ => True) (fromBytes bytes)) (count offset : ℕ) :
    Calm (fun _ => True) (readKeys fromBytes data count offset) := by
  induction count generalizing offset with
  | zero => exact calm_ok trivial
  | succ count ih =>
    refine calm_readBlob.bind fun blob _ => ?_
    refine (h blob.1).bind fun _ _ => ?_
    exact (ih blob.2).bind fun _ _ => calm_pure trivial

theorem calm_readTimestamps (count offset : ℕ) :
    Calm (fun _ => True) (readTimestamps data count offset) := by
  induction count generalizing offset with
  | zero => exact calm_ok trivial
  | succ count ih =>
    refine calm_ite (fun _ => calm_serialization _) fun hlen => ?_
    refine (calm_readLe64 (not_lt.mp hlen)).bind fun _ _ => ?_
    exact (ih _).bind fun _ _ => calm_pure trivial

theorem calm_readKemTimestamps (kemPreKeys : ℕ) :
    Calm (fun _ => True) (readKemTimestamps data kemPreKeys offset) := by
  refine calm_ite (fun _ => ?_) fun _ => calm_ok trivial
  exact calm_readU32.bind fun read _ => calm_readTimestamps ..

/-- **No bytes make the reader of a bundle panic.** -/
theorem calm_deserialize (data : List UInt8) : Calm (fun _ => True) (P.deserialize data) := by
  refine calm_readBlob.bind fun blob _ => ?_
  refine (IdentityKeyPair.calm_fromBytes blob.1).bind fun _ _ => ?_
  refine calm_readU32.bind fun spkCount _ => ?_
  refine (calm_readKeys calm_signedPreKeyFromBytes ..).bind fun spks _ => ?_
  refine calm_readU32.bind fun otpkCount _ => ?_
  refine (calm_readKeys OneTimePreKey.calm_fromBytes ..).bind fun otpks _ => ?_
  refine calm_readU32.bind fun kpkCount _ => ?_
  refine (calm_readKeys calm_kemPreKeyFromBytes ..).bind fun kpks _ => ?_
  refine calm_readU32.bind fun next _ => ?_
  exact (calm_readKemTimestamps _).bind fun _ _ => calm_pure trivial

end KeyBundle

end Calm

/-! ## Toy keys -/

section Toy

def signingPrimitives : IdentityPrimitives where
  toPrimitives := toyPrimitives
  signingGenerate _ := ⟨fill 4032 fun _ => 0, fill 1952 fun _ => 0⟩
  signDeterministic _ _ := some (fill 3309 fun _ => 0)
  verifySignature _ _ signature := signature = fill 3309 fun _ => 0
  parseSignature signature := signature = fill 3309 fun _ => 0

theorem signingPrimitives_correct : signingPrimitives.Correct where
  toCorrect := toyPrimitives_correct
  kemEncapsulate_isSome _ _ := rfl
  kemDecapsulate_eq _ _ _ _ heq :=
    congrArg (fun x : KemCiphertext × Key => some x.2) (Option.some.inj heq)
  signDeterministic_isSome _ _ := rfl
  verifySignature_eq _ _ _ heq := decide_eq_true (Option.some.inj heq).symm
  parseSignature_eq _ _ _ heq := decide_eq_true (Option.some.inj heq).symm

def signingIdentity : IdentityKeyPair := ⟨signingPrimitives.signingGenerate toyKey, toyPair⟩

end Toy

end Pirc.Crypto
