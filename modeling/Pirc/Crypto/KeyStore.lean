import Pirc.Crypto.KeyBundle

/-!
# Crypto: the key store

`key_storage` keeps the pre-keys of a user: it makes new ones, retains old ones for a while after a
rotation, removes them when they expire, and saves all of them encrypted. The timestamps of the KEM
pre-keys stand in a list of their own beside the keys.
-/

namespace Pirc.Crypto

/-! ## The store -/

/-- The keys of a user, as they are kept. -/
structure KeyStore where
  bundle : KeyBundle
  deriving DecidableEq

structure EncryptedKeyStore where
  salt : Bytes 16
  nonce : Nonce
  ciphertext : List UInt8
  deriving DecidableEq

namespace KeyStore

def consumeOneTimePreKey (id : UInt32) (store : KeyStore) : Option OneTimePreKey × KeyStore :=
  match store.bundle.oneTimePreKeys.findIdx? fun preKey => preKey.id = id with
  | none => (none, store)
  | some pos =>
    (store.bundle.oneTimePreKeys[pos]?,
      ⟨{ store.bundle with oneTimePreKeys := store.bundle.oneTimePreKeys.eraseIdx pos }⟩)

/-- `Vec::retain` with a flag that spares the first item. -/
def retainFirst {α : Type} (p : α → Bool) : List α → List α
  | [] => []
  | first :: retained => first :: retained.filter p

/-- The loop over the KEM pre-keys from an index on. `Vec::remove` panics out of range. -/
def cleanupKemFrom (cutoff : UInt64) (i : ℕ) (keys : List KemPreKey) (timestamps : List UInt64) :
    Except CryptoError (List KemPreKey × List UInt64) :=
  if i < keys.length then
    if timestamps.getD i 0 < cutoff then
      if i < timestamps.length then cleanupKemFrom cutoff i (keys.eraseIdx i) (timestamps.eraseIdx i)
      else .error (.panicked "removal index out of range")
    else cleanupKemFrom cutoff (i + 1) keys timestamps
  else .ok (keys, timestamps)
termination_by keys.length - i
decreasing_by
  · rw [List.length_eraseIdx_of_lt ‹_›]
    omega
  · omega

def cleanupSigned (cutoff : UInt64) (keys : List SignedPreKey) : List SignedPreKey :=
  if 1 < keys.length then retainFirst (fun preKey => cutoff ≤ preKey.timestamp) keys else keys

def cleanupKem (cutoff : UInt64) (keys : List KemPreKey) (timestamps : List UInt64) :
    Except CryptoError (List KemPreKey × List UInt64) :=
  if 1 < keys.length then cleanupKemFrom cutoff 1 keys timestamps else .ok (keys, timestamps)

/-- Remove the retained pre-keys that are older than the cutoff, and count them. -/
def cleanupExpiredPreKeys (cutoff : UInt64) (store : KeyStore) : Except CryptoError (ℕ × KeyStore) := do
  let bundle := store.bundle
  let signedPreKeys := cleanupSigned cutoff bundle.signedPreKeys
  let removed := bundle.signedPreKeys.length - signedPreKeys.length
  let (kemPreKeys, kemPreKeyTimestamps) ←
    cleanupKem cutoff bundle.kemPreKeys bundle.kemPreKeyTimestamps
  return (removed + (bundle.kemPreKeys.length - kemPreKeys.length),
    ⟨{ bundle with signedPreKeys, kemPreKeys, kemPreKeyTimestamps }⟩)

/-- How many retained pre-keys are older than the cutoff. -/
def countExpiredPreKeys (cutoff : UInt64) (store : KeyStore) : ℕ :=
  ((store.bundle.signedPreKeys.drop 1).countP fun preKey => preKey.timestamp < cutoff) +
    (store.bundle.kemPreKeyTimestamps.drop 1).countP fun timestamp => timestamp < cutoff

/-- The next identifier. A `+= 1` that overflows wraps or panics, by how the crate is built. -/
def takePreKeyId : CryptoM KeyStore UInt32 := do
  let (store, _) ← get
  modify fun (store, rng) =>
    (⟨{ store.bundle with nextPreKeyId := store.bundle.nextPreKeyId + 1 }⟩, rng)
  return store.bundle.nextPreKeyId

end KeyStore

namespace IdentityPrimitives

variable (P : IdentityPrimitives)

/-- `KeyStore::create`. -/
def createKeyStore {σ : Type} (seed : Bytes 32) : CryptoM σ KeyStore := do
  let identity ← P.generateIdentity seed
  let timestamp : UInt64 := 0
  let spk ← P.generateSignedPreKey 1 identity timestamp
  let kpk ← P.generateKemPreKey 2 identity
  return ⟨{
    identity := identity
    signedPreKeys := [spk]
    oneTimePreKeys := []
    kemPreKeys := [kpk]
    nextPreKeyId := 3
    kemPreKeyTimestamps := [timestamp] }⟩

def rotateSignedPreKey (timestamp : UInt64) : CryptoM KeyStore SignedPreKeyPublic := do
  let id ← KeyStore.takePreKeyId
  let (store, _) ← get
  let spk ← P.generateSignedPreKey id store.bundle.identity timestamp
  modify fun (store, rng) =>
    (⟨{ store.bundle with signedPreKeys := spk :: store.bundle.signedPreKeys }⟩, rng)
  return P.signedPreKeyPublic spk

def rotateKemPreKey (timestamp : UInt64) : CryptoM KeyStore KemPreKeyPublic := do
  let id ← KeyStore.takePreKeyId
  let (store, _) ← get
  let kpk ← P.generateKemPreKey id store.bundle.identity
  modify fun (store, rng) =>
    (⟨{ store.bundle with
        kemPreKeys := kpk :: store.bundle.kemPreKeys
        kemPreKeyTimestamps := timestamp :: store.bundle.kemPreKeyTimestamps }⟩, rng)
  return kpk.toPublic

def addOneTimePreKey : CryptoM KeyStore OneTimePreKeyPublic := do
  let id ← KeyStore.takePreKeyId
  let otpk ← generateOneTimePreKey id
  modify fun (store, rng) =>
    (⟨{ store.bundle with oneTimePreKeys := store.bundle.oneTimePreKeys ++ [otpk] }⟩, rng)
  return P.oneTimePreKeyPublic otpk

def generateOneTimePreKeys : ℕ → CryptoM KeyStore (List OneTimePreKeyPublic)
  | 0 => return []
  | count + 1 => do
    let first ← P.addOneTimePreKey
    let rest ← generateOneTimePreKeys count
    return first :: rest

def replenishOneTimePreKeys (target : UInt32) : CryptoM KeyStore (List OneTimePreKeyPublic) := do
  let (store, _) ← get
  let current := UInt32.ofNat store.bundle.oneTimePreKeys.length
  if target ≤ current then return []
  else P.generateOneTimePreKeys (target - current).toNat

variable (deriveKey : List UInt8 → Bytes 16 → Except CryptoError Key)

/-- `KeyStore::save`, with Argon2id and the random bytes of the salt. -/
def saveKeyStore (passphrase : List UInt8) (salt : Bytes 16) : CryptoM KeyStore EncryptedKeyStore := do
  let storageKey ← check (deriveKey passphrase salt)
  let nonce ← generateNonce
  let (store, _) ← get
  let ciphertext ← check
    (P.encrypt storageKey nonce store.bundle.serialize (utf8 "pirc-key-store-v1".toList))
  return { salt, nonce, ciphertext }

/-- `KeyStore::open`. -/
def openKeyStore (encrypted : EncryptedKeyStore) (passphrase : List UInt8) :
    Except CryptoError KeyStore := do
  let storageKey ← deriveKey passphrase encrypted.salt
  match P.decrypt storageKey encrypted.nonce encrypted.ciphertext (utf8 "pirc-key-store-v1".toList) with
  | .error _ => .error (.aead "wrong passphrase or corrupted data")
  | .ok plaintext =>
    let bundle ← P.deserialize plaintext
    return ⟨bundle⟩

end IdentityPrimitives

/-! ## Operations one after another -/

namespace KeyStore

inductive Operation
  | create (seed : Bytes 32)
  | rotateSignedPreKey (timestamp : UInt64)
  | rotateKemPreKey (timestamp : UInt64)
  | generateOneTimePreKeys (count : UInt32)
  | replenishOneTimePreKeys (target : UInt32)
  | consumeOneTimePreKey (id : UInt32)
  | cleanupExpiredPreKeys (cutoff : UInt64)
  | saveThenOpen (passphrase : List UInt8) (salt : Bytes 16)

/-- A store, with a record of the rotated keys, the newest first, each with its identifier and
timestamp, and of how many keys were generated since the store was created. -/
structure History where
  store : KeyStore
  signedLog : List (UInt32 × UInt64)
  kemLog : List (UInt32 × UInt64)
  generated : ℕ

def History.start (store : KeyStore) : History where
  store := store
  signedLog := [(1, 0)]
  kemLog := [(2, 0)]
  generated := 0

end KeyStore

namespace IdentityPrimitives

open KeyStore

variable (P : IdentityPrimitives) (deriveKey : List UInt8 → Bytes 16 → Except CryptoError Key)

def perform (s : History × OsRng) : Operation → History × OsRng
  | .create seed =>
    match (P.createKeyStore seed).run ((), s.2) with
    | .ok store (_, rng) => (.start store, rng)
    | .error _ (_, rng) => (s.1, rng)
  | .rotateSignedPreKey timestamp =>
    match (P.rotateSignedPreKey timestamp).run (s.1.store, s.2) with
    | .ok preKey (store, rng) =>
      ({ s.1 with
        store := store
        signedLog := (preKey.id, timestamp) :: s.1.signedLog
        generated := s.1.generated + 1 }, rng)
    | .error _ (store, rng) => ({ s.1 with store := store }, rng)
  | .rotateKemPreKey timestamp =>
    match (P.rotateKemPreKey timestamp).run (s.1.store, s.2) with
    | .ok preKey (store, rng) =>
      ({ s.1 with
        store := store
        kemLog := (preKey.id, timestamp) :: s.1.kemLog
        generated := s.1.generated + 1 }, rng)
    | .error _ (store, rng) => ({ s.1 with store := store }, rng)
  | .generateOneTimePreKeys count =>
    match (P.generateOneTimePreKeys count.toNat).run (s.1.store, s.2) with
    | .ok preKeys (store, rng) =>
      ({ s.1 with store := store, generated := s.1.generated + preKeys.length }, rng)
    | .error _ (store, rng) => ({ s.1 with store := store }, rng)
  | .replenishOneTimePreKeys target =>
    match (P.replenishOneTimePreKeys target).run (s.1.store, s.2) with
    | .ok preKeys (store, rng) =>
      ({ s.1 with store := store, generated := s.1.generated + preKeys.length }, rng)
    | .error _ (store, rng) => ({ s.1 with store := store }, rng)
  | .consumeOneTimePreKey id => ({ s.1 with store := (s.1.store.consumeOneTimePreKey id).2 }, s.2)
  | .cleanupExpiredPreKeys cutoff =>
    match s.1.store.cleanupExpiredPreKeys cutoff with
    | .ok (_, store) => ({ s.1 with store := store }, s.2)
    | .error _ => s
  | .saveThenOpen passphrase salt =>
    match (P.saveKeyStore deriveKey passphrase salt).run (s.1.store, s.2) with
    | .ok encrypted (store, rng) =>
      match P.openKeyStore deriveKey encrypted passphrase with
      | .ok reopened => ({ s.1 with store := reopened }, rng)
      | .error _ => ({ s.1 with store := store }, rng)
    | .error _ (store, rng) => ({ s.1 with store := store }, rng)

/-- **Keeping a store**: operations in any order. -/
def keeping : System (History × OsRng) Operation where
  enabled _ _ := True
  step := P.perform deriveKey

end IdentityPrimitives

/-! ## A store in order -/

namespace KeyStore

def preKeyIds (store : KeyStore) : List UInt32 :=
  store.bundle.signedPreKeys.map SignedPreKey.id ++
    (store.bundle.kemPreKeys.map KemPreKey.id ++ store.bundle.oneTimePreKeys.map OneTimePreKey.id)

def signedRecords (store : KeyStore) : List (UInt32 × UInt64) :=
  store.bundle.signedPreKeys.map fun preKey => (preKey.id, preKey.timestamp)

/-- The KEM pre-keys, by identifier and the timestamp at the same position. -/
def kemRecords (store : KeyStore) : List (UInt32 × UInt64) :=
  (store.bundle.kemPreKeys.map KemPreKey.id).zip store.bundle.kemPreKeyTimestamps

/-- The newest of the recorded keys is kept first, and others of them behind it, newer before
older. -/
def Retains (records log : List (UInt32 × UInt64)) : Prop :=
  records.Sublist log ∧ records.head? = log.head? ∧ log.Pairwise fun newer older => older.1 < newer.1

/-- **A store in order.** -/
structure History.InOrder (h : History) : Prop where
  distinct : h.store.preKeyIds.Nodup
  below : ∀ id ∈ h.store.preKeyIds, id < h.store.bundle.nextPreKeyId
  aligned : h.store.bundle.kemPreKeyTimestamps.length = h.store.bundle.kemPreKeys.length
  /-- The signed pre-keys are recorded ones, the newest first. -/
  signed : Retains h.store.signedRecords h.signedLog
  /-- The KEM pre-keys are recorded ones with the timestamps they were made with, the newest
  first. -/
  kem : Retains h.store.kemRecords h.kemLog
  /-- Cleaning up removes as many keys as were counted, and leaves none to be counted. -/
  cleanup : ∀ cutoff, ∃ store, h.store.cleanupExpiredPreKeys cutoff =
      .ok (h.store.countExpiredPreKeys cutoff, store) ∧
    store.bundle.signedPreKeys.length + store.bundle.kemPreKeys.length +
        h.store.countExpiredPreKeys cutoff =
      h.store.bundle.signedPreKeys.length + h.store.bundle.kemPreKeys.length ∧
    store.countExpiredPreKeys cutoff = 0

/-! ## Cleaning up -/

section Cleanup

variable {α β : Type} {p : α → Bool} {xs : List α} {log : List (UInt32 × UInt64)} {store : KeyStore}

theorem retainFirst_of_length_le (h : xs.length ≤ 1) : retainFirst p xs = xs := by
  match xs, h with
  | [], _ => rfl
  | [x], _ => rfl

theorem length_retainFirst (p : α → Bool) (xs : List α) :
    (retainFirst p xs).length + (xs.drop 1).countP (fun x => !p x) = xs.length := by
  cases xs with
  | nil => rfl
  | cons x xs =>
    have hsplit : xs.length = xs.countP p + xs.countP fun x => !p x := by
      rw [List.length_eq_countP_add_countP p]
      simp
    simp only [retainFirst, List.length_cons, List.drop_succ_cons, List.drop_zero]
    rw [← List.countP_eq_length_filter]
    omega

theorem countP_retainFirst (p : α → Bool) (xs : List α) :
    ((retainFirst p xs).drop 1).countP (fun x => !p x) = 0 := by
  cases xs with
  | nil => rfl
  | cons x xs =>
    simp only [retainFirst, List.drop_succ_cons, List.drop_zero, List.countP_eq_zero, List.mem_filter]
    rintro y ⟨-, hy⟩
    simp [hy]

theorem sublist_retainFirst (p : α → Bool) (xs : List α) : (retainFirst p xs).Sublist xs := by
  cases xs with
  | nil => exact .slnil
  | cons x xs => exact List.filter_sublist.cons_cons x

theorem head?_retainFirst (p : α → Bool) (xs : List α) : (retainFirst p xs).head? = xs.head? := by
  cases xs with
  | nil => rfl
  | cons x xs => rfl

theorem Retains.retainFirst {f : α → UInt32 × UInt64} (h : Retains (xs.map f) log) :
    Retains ((retainFirst p xs).map f) log := by
  obtain ⟨hsub, hhead, hnewest⟩ := h
  refine ⟨((sublist_retainFirst p xs).map f).trans hsub, ?_, hnewest⟩
  rw [List.head?_map, head?_retainFirst, ← List.head?_map, hhead]

/-- **The loop over the KEM pre-keys** keeps those before the index, and of the others those that
are not too old, each with its timestamp. -/
theorem cleanupKemFrom_eq (cutoff : UInt64) (i : ℕ) (pairs : List (KemPreKey × UInt64)) :
    cleanupKemFrom cutoff i (pairs.map Prod.fst) (pairs.map Prod.snd) =
      let kept := pairs.take i ++ (pairs.drop i).filter fun pair => cutoff ≤ pair.2
      .ok (kept.map Prod.fst, kept.map Prod.snd) := by
  rw [cleanupKemFrom]
  by_cases hi : i < pairs.length
  · have hts : (pairs.map Prod.snd).getD i 0 = pairs[i].2 := by
      simp [List.getD, hi]
    rw [if_pos (by rwa [List.length_map]), hts, List.drop_eq_getElem_cons hi]
    by_cases hold : pairs[i].2 < cutoff
    · have herase := List.eraseIdx_eq_take_drop_succ pairs i
      have hlen : (pairs.take i).length = i := List.length_take_of_le hi.le
      rw [if_pos hold, if_pos (by rwa [List.length_map]), List.eraseIdx_map, List.eraseIdx_map,
        cleanupKemFrom_eq cutoff i (pairs.eraseIdx i), herase, List.take_left' hlen, List.drop_left' hlen,
        List.filter_cons_of_neg (by simpa using hold)]
    · have hkeep : cutoff ≤ pairs[i].2 := UInt64.not_lt.mp hold
      rw [if_neg hold, cleanupKemFrom_eq cutoff (i + 1) pairs,
        List.filter_cons_of_pos (by simpa using hkeep),
        List.take_succ_eq_append_getElem hi]
      simp only [List.append_assoc, List.singleton_append]
  · have hle := not_lt.mp hi
    rw [if_neg (by rwa [List.length_map]), List.take_of_length_le hle, List.drop_of_length_le hle]
    simp
termination_by pairs.length - i
decreasing_by
  · rw [List.length_eraseIdx_of_lt hi]
    omega
  · omega

theorem cleanupKem_eq (cutoff : UInt64) (pairs : List (KemPreKey × UInt64)) :
    cleanupKem cutoff (pairs.map Prod.fst) (pairs.map Prod.snd) =
      let kept := retainFirst (fun pair => cutoff ≤ pair.2) pairs
      .ok (kept.map Prod.fst, kept.map Prod.snd) := by
  unfold cleanupKem
  split_ifs with hlen
  · rw [cleanupKemFrom_eq]
    cases pairs with
    | nil => rfl
    | cons pair pairs => rfl
  · rw [List.length_map] at hlen
    rw [retainFirst_of_length_le (not_lt.mp hlen)]

theorem cleanupSigned_eq (cutoff : UInt64) (keys : List SignedPreKey) :
    cleanupSigned cutoff keys = retainFirst (fun preKey => cutoff ≤ preKey.timestamp) keys := by
  unfold cleanupSigned
  split_ifs with hlen
  · rfl
  · exact (retainFirst_of_length_le (not_lt.mp hlen)).symm

/-- A store after a cleanup: of the retained keys, those that are not too old. -/
def cleaned (cutoff : UInt64) (store : KeyStore) : KeyStore :=
  let kept := retainFirst (fun pair => cutoff ≤ pair.2)
    (store.bundle.kemPreKeys.zip store.bundle.kemPreKeyTimestamps)
  ⟨{ store.bundle with
    signedPreKeys := retainFirst (fun preKey => cutoff ≤ preKey.timestamp) store.bundle.signedPreKeys
    kemPreKeys := kept.map Prod.fst
    kemPreKeyTimestamps := kept.map Prod.snd }⟩

theorem not_decide_le (cutoff timestamp : UInt64) :
    (!decide (cutoff ≤ timestamp)) = decide (timestamp < cutoff) := by
  rw [← decide_not]
  exact decide_eq_decide.mpr UInt64.not_le

/-- **Cleaning up removes as many keys as were counted**, and leaves none to be counted. -/
theorem cleanupExpiredPreKeys_eq
    (haligned : store.bundle.kemPreKeyTimestamps.length = store.bundle.kemPreKeys.length)
    (cutoff : UInt64) :
    store.cleanupExpiredPreKeys cutoff =
      .ok (store.countExpiredPreKeys cutoff, store.cleaned cutoff) ∧
    (store.cleaned cutoff).bundle.signedPreKeys.length +
        (store.cleaned cutoff).bundle.kemPreKeys.length + store.countExpiredPreKeys cutoff =
      store.bundle.signedPreKeys.length + store.bundle.kemPreKeys.length ∧
    (store.cleaned cutoff).countExpiredPreKeys cutoff = 0 := by
  have hkeys := List.map_fst_zip haligned.ge
  have htimestamps := List.map_snd_zip haligned.le
  unfold cleanupExpiredPreKeys countExpiredPreKeys cleaned
  dsimp only
  generalize store.bundle.kemPreKeys.zip store.bundle.kemPreKeyTimestamps = pairs at hkeys htimestamps
  rw [← hkeys, ← htimestamps, cleanupSigned_eq, cleanupKem_eq, ok_bind]
  have hsigned := length_retainFirst
    (fun preKey : SignedPreKey => decide (cutoff ≤ preKey.timestamp)) store.bundle.signedPreKeys
  have hkem := length_retainFirst (fun pair : KemPreKey × UInt64 => decide (cutoff ≤ pair.2)) pairs
  have hsignedLeft := countP_retainFirst
    (fun preKey : SignedPreKey => decide (cutoff ≤ preKey.timestamp)) store.bundle.signedPreKeys
  have hkemLeft := countP_retainFirst (fun pair : KemPreKey × UInt64 => decide (cutoff ≤ pair.2)) pairs
  simp only [not_decide_le] at hsigned hkem hsignedLeft hkemLeft
  simp only [← List.map_drop, List.countP_map, List.length_map, Function.comp_def]
  refine ⟨?_, by omega, by omega⟩
  refine congrArg Except.ok (Prod.ext ?_ rfl)
  dsimp only
  omega

end Cleanup

/-! ## What operations keep -/

section Kept

variable {P : IdentityPrimitives} {h : History} {store : KeyStore} {log : List (UInt32 × UInt64)}
  {records : List (UInt32 × UInt64)} {id : UInt32}

/-- The identifiers given to the recorded keys and to the one-time pre-keys that are left. -/
def History.issued (h : History) : List UInt32 :=
  h.signedLog.map Prod.fst ++
    (h.kemLog.map Prod.fst ++ h.store.bundle.oneTimePreKeys.map OneTimePreKey.id)

/-- **The invariant**: identifiers are given out in order and once, and the keys are recorded. -/
structure History.Kept (P : IdentityPrimitives) (h : History) : Prop where
  next : h.store.bundle.nextPreKeyId.toNat = 3 + h.generated
  distinct : h.issued.Nodup
  below : ∀ id ∈ h.issued, id.toNat < 3 + h.generated
  aligned : h.store.bundle.kemPreKeyTimestamps.length = h.store.bundle.kemPreKeys.length
  signed : Retains h.store.signedRecords h.signedLog
  kem : Retains h.store.kemRecords h.kemLog
  signatures : ∀ preKey ∈ h.store.bundle.signedPreKeys, P.parseSignature preKey.signature = true
  kemSignatures : ∀ preKey ∈ h.store.bundle.kemPreKeys, P.parseSignature preKey.signature = true

theorem Retains.cons {timestamp : UInt64} (hretains : Retains records log)
    (hnew : ∀ old ∈ log.map Prod.fst, old < id) :
    Retains ((id, timestamp) :: records) ((id, timestamp) :: log) := by
  obtain ⟨hsub, -, hnewest⟩ := hretains
  refine ⟨hsub.cons_cons _, rfl, List.pairwise_cons.mpr ⟨?_, hnewest⟩⟩
  intro old hold
  exact hnew old.1 (List.mem_map_of_mem hold)

theorem issued_cons {ids ids' : List UInt32} {n : ℕ} (hdistinct : ids.Nodup)
    (hbelow : ∀ id ∈ ids, id.toNat < n) (hid : id.toNat = n) (hperm : ids'.Perm (id :: ids)) :
    ids'.Nodup ∧ ∀ id ∈ ids', id.toNat < n + 1 := by
  constructor
  · refine hperm.nodup_iff.mpr (List.nodup_cons.mpr ⟨fun hmem => ?_, hdistinct⟩)
    have hlt := hbelow id hmem
    omega
  · intro other hmem
    rcases List.mem_cons.mp (hperm.mem_iff.mp hmem) with rfl | hold
    · omega
    · exact Nat.lt_succ_of_lt (hbelow other hold)

theorem toNat_succ (hlt : id.toNat + 1 < 2 ^ 32) : (id + 1).toNat = id.toNat + 1 := by
  have hone : (1 : UInt32).toNat = 1 := rfl
  rw [UInt32.toNat_add, hone, Nat.mod_eq_of_lt hlt]

namespace History

namespace Kept

theorem fst_signedLog_lt (hkept : h.Kept P) :
    ∀ old ∈ h.signedLog.map Prod.fst, old < h.store.bundle.nextPreKeyId := by
  intro old hold
  have hlt := hkept.below old (List.mem_append_left _ hold)
  exact UInt32.lt_iff_toNat_lt.mpr (by rw [hkept.next]; exact hlt)

theorem fst_kemLog_lt (hkept : h.Kept P) :
    ∀ old ∈ h.kemLog.map Prod.fst, old < h.store.bundle.nextPreKeyId := by
  intro old hold
  have hlt := hkept.below old (List.mem_append_right _ (List.mem_append_left _ hold))
  exact UInt32.lt_iff_toNat_lt.mpr (by rw [hkept.next]; exact hlt)

variable (hkept : h.Kept P)
include hkept

theorem rotateSigned (hlt : h.generated + 1 < 2 ^ 32 - 3) {spk : SignedPreKey}
    (hid : spk.id = h.store.bundle.nextPreKeyId) (hparse : P.parseSignature spk.signature = true) :
    Kept P { h with
      store := ⟨{ h.store.bundle with
        nextPreKeyId := h.store.bundle.nextPreKeyId + 1
        signedPreKeys := spk :: h.store.bundle.signedPreKeys }⟩
      signedLog := (spk.id, spk.timestamp) :: h.signedLog
      generated := h.generated + 1 } := by
  have hnext := hkept.next
  obtain ⟨hdistinct, hbelow⟩ := issued_cons hkept.distinct hkept.below (hid ▸ hnext) (.refl _)
  exact {
    next := by
      rw [toNat_succ (by omega), hnext]
      rfl
    distinct := hdistinct
    below := hbelow
    aligned := hkept.aligned
    signed := hkept.signed.cons (hid ▸ hkept.fst_signedLog_lt)
    kem := hkept.kem
    signatures := List.forall_mem_cons.mpr ⟨hparse, hkept.signatures⟩
    kemSignatures := hkept.kemSignatures }

theorem rotateKem (hlt : h.generated + 1 < 2 ^ 32 - 3) {kpk : KemPreKey} (timestamp : UInt64)
    (hid : kpk.id = h.store.bundle.nextPreKeyId) (hparse : P.parseSignature kpk.signature = true) :
    Kept P { h with
      store := ⟨{ h.store.bundle with
        nextPreKeyId := h.store.bundle.nextPreKeyId + 1
        kemPreKeys := kpk :: h.store.bundle.kemPreKeys
        kemPreKeyTimestamps := timestamp :: h.store.bundle.kemPreKeyTimestamps }⟩
      kemLog := (kpk.id, timestamp) :: h.kemLog
      generated := h.generated + 1 } := by
  have hnext := hkept.next
  obtain ⟨hdistinct, hbelow⟩ := issued_cons hkept.distinct hkept.below (hid ▸ hnext) List.perm_middle
  exact {
    next := by
      rw [toNat_succ (by omega), hnext]
      rfl
    distinct := hdistinct
    below := hbelow
    aligned := congrArg (· + 1) hkept.aligned
    signed := hkept.signed
    kem := hkept.kem.cons (hid ▸ hkept.fst_kemLog_lt)
    signatures := hkept.signatures
    kemSignatures := List.forall_mem_cons.mpr ⟨hparse, hkept.kemSignatures⟩ }

theorem addOneTime (hlt : h.generated + 1 < 2 ^ 32 - 3) (otpk : OneTimePreKey)
    (hid : otpk.id = h.store.bundle.nextPreKeyId) :
    Kept P { h with
      store := ⟨{ h.store.bundle with
        nextPreKeyId := h.store.bundle.nextPreKeyId + 1
        oneTimePreKeys := h.store.bundle.oneTimePreKeys ++ [otpk] }⟩
      generated := h.generated + 1 } := by
  have hnext := hkept.next
  have hperm : (h.signedLog.map Prod.fst ++ (h.kemLog.map Prod.fst ++
      (h.store.bundle.oneTimePreKeys ++ [otpk]).map OneTimePreKey.id)).Perm (otpk.id :: h.issued) := by
    rw [List.map_append, ← List.append_assoc, ← List.append_assoc, issued, ← List.append_assoc]
    exact List.perm_append_singleton ..
  obtain ⟨hdistinct, hbelow⟩ := issued_cons hkept.distinct hkept.below (hid ▸ hnext) hperm
  exact {
    next := by
      rw [toNat_succ (by omega), hnext]
      rfl
    distinct := hdistinct
    below := hbelow
    aligned := hkept.aligned
    signed := hkept.signed
    kem := hkept.kem
    signatures := hkept.signatures
    kemSignatures := hkept.kemSignatures }

theorem consume (id : UInt32) : Kept P { h with store := (h.store.consumeOneTimePreKey id).2 } := by
  unfold consumeOneTimePreKey
  split
  · exact hkept
  · next pos _ =>
    have hsub : (h.signedLog.map Prod.fst ++ (h.kemLog.map Prod.fst ++
        (h.store.bundle.oneTimePreKeys.eraseIdx pos).map OneTimePreKey.id)).Sublist h.issued :=
      (List.Sublist.refl _).append
        ((List.Sublist.refl _).append ((List.eraseIdx_sublist ..).map _))
    exact {
      next := hkept.next
      distinct := hkept.distinct.sublist hsub
      below := fun id hmem => hkept.below id (hsub.subset hmem)
      aligned := hkept.aligned
      signed := hkept.signed
      kem := hkept.kem
      signatures := hkept.signatures
      kemSignatures := hkept.kemSignatures }

theorem cleanup (cutoff : UInt64) : Kept P { h with store := h.store.cleaned cutoff } where
  next := hkept.next
  distinct := hkept.distinct
  below := hkept.below
  aligned := by simp [cleaned]
  signed := hkept.signed.retainFirst
  kem := by
    have hkem := hkept.kem
    rw [kemRecords, List.zip_map_left] at hkem
    have hzip : ∀ pairs : List (KemPreKey × UInt64),
        ((pairs.map Prod.fst).map KemPreKey.id).zip (pairs.map Prod.snd) =
          pairs.map (Prod.map KemPreKey.id id) := by
      intro pairs
      rw [List.map_map, List.zip_map']
      rfl
    rw [kemRecords, cleaned, hzip]
    exact hkem.retainFirst
  signatures := fun preKey hmem => hkept.signatures preKey ((sublist_retainFirst ..).subset hmem)
  kemSignatures := by
    intro preKey hmem
    obtain ⟨pair, hpair, rfl⟩ := List.mem_map.mp hmem
    have hzip := (sublist_retainFirst ..).subset hpair
    exact hkept.kemSignatures pair.1 (List.of_mem_zip hzip).1

theorem length_lt {ids : List UInt32} (hsub : ids.Sublist h.issued) : ids.length < 2 ^ 32 := by
  have hnext := hkept.next
  have hbound := h.store.bundle.nextPreKeyId.toNat_lt
  have hmap : (ids.map UInt32.toNat).Nodup :=
    (hkept.distinct.sublist hsub).map fun _ _ heq => UInt32.toNat_inj.mp heq
  have hrange : ids.map UInt32.toNat ⊆ List.range (3 + h.generated) := by
    intro n hn
    obtain ⟨id, hmem, rfl⟩ := List.mem_map.mp hn
    exact List.mem_range.mpr (hkept.below id (hsub.subset hmem))
  have hle := (List.subperm_of_subset hmap hrange).length_le
  rw [List.length_map, List.length_range] at hle
  omega

omit hkept in
theorem map_signedRecords : h.store.bundle.signedPreKeys.map SignedPreKey.id =
    h.store.signedRecords.map Prod.fst := by
  rw [signedRecords, List.map_map]
  rfl

theorem map_kemRecords : h.store.bundle.kemPreKeys.map KemPreKey.id =
    h.store.kemRecords.map Prod.fst := by
  rw [kemRecords, List.map_fst_zip]
  rw [List.length_map, hkept.aligned]

theorem signed_sublist :
    (h.store.bundle.signedPreKeys.map SignedPreKey.id).Sublist (h.signedLog.map Prod.fst) := by
  rw [map_signedRecords]
  exact hkept.signed.1.map _

theorem kem_sublist :
    (h.store.bundle.kemPreKeys.map KemPreKey.id).Sublist (h.kemLog.map Prod.fst) := by
  rw [hkept.map_kemRecords]
  exact hkept.kem.1.map _

theorem preKeyIds_sublist : h.store.preKeyIds.Sublist h.issued :=
  hkept.signed_sublist.append (hkept.kem_sublist.append (.refl _))

/-- **A kept store is in order.** -/
theorem inOrder : h.InOrder where
  distinct := hkept.distinct.sublist hkept.preKeyIds_sublist
  below := by
    intro id hmem
    have hlt := hkept.below id (hkept.preKeyIds_sublist.subset hmem)
    rw [← hkept.next] at hlt
    exact UInt32.lt_iff_toNat_lt.mpr hlt
  aligned := hkept.aligned
  signed := hkept.signed
  kem := hkept.kem
  cleanup := by
    intro cutoff
    obtain ⟨hclean, hlength, hleft⟩ := cleanupExpiredPreKeys_eq hkept.aligned cutoff
    exact ⟨h.store.cleaned cutoff, hclean, hlength, hleft⟩

theorem storable : h.store.bundle.Storable P where
  signed := hkept.signatures
  kemSigned := hkept.kemSignatures
  signedPreKeys := by
    have hlt := hkept.length_lt (hkept.signed_sublist.trans (List.sublist_append_left ..))
    rwa [List.length_map] at hlt
  oneTimePreKeys := by
    have hlt := hkept.length_lt ((List.sublist_append_right (h.kemLog.map Prod.fst) _).trans
      (List.sublist_append_right ..))
    rwa [List.length_map] at hlt
  kemPreKeys := by
    have hlt := hkept.length_lt ((hkept.kem_sublist.trans (List.sublist_append_left ..)).trans
      (List.sublist_append_right ..))
    rwa [List.length_map] at hlt
  timestamps := by
    have hlt := hkept.length_lt ((hkept.kem_sublist.trans (List.sublist_append_left ..)).trans
      (List.sublist_append_right ..))
    rwa [List.length_map, ← hkept.aligned] at hlt

end Kept

end History

/-! ## Operations as computations -/

theorem run_check_eq_ok {σ α : Type} {x : Except CryptoError α} {s t : σ × OsRng} {a : α} :
    (check x : CryptoM σ α).run s = .ok a t ↔ x = .ok a ∧ s = t := by
  cases x with
  | error e => simp
  | ok b => simp

section Operations

variable {σ : Type} {s : σ} (hP : P.Correct)
include hP

theorem exists_sign (identity : IdentityKeyPair) (message : List UInt8) :
    ∃ signature, P.sign identity message = .ok signature ∧ P.parseSignature signature = true := by
  obtain ⟨signature, hsign⟩ := Option.isSome_iff_exists.mp
    (hP.signDeterministic_isSome identity.signingKey.sk message)
  refine ⟨signature, ?_, hP.parseSignature_eq _ _ _ hsign⟩
  rw [IdentityPrimitives.sign, hsign]

theorem exists_generateSignedPreKey (rng : OsRng) (id : UInt32) (identity : IdentityKeyPair)
    (timestamp : UInt64) :
    ∃ spk rng', (P.generateSignedPreKey id identity timestamp).run (s, rng) = .ok spk (s, rng') ∧
      spk.id = id ∧ spk.timestamp = timestamp ∧ P.parseSignature spk.signature = true := by
  obtain ⟨signature, hsign, hparse⟩ := exists_sign hP identity (P.publicKey ⟨rng.x25519.head⟩).val
  refine ⟨⟨id, ⟨rng.x25519.head⟩, signature, timestamp⟩,
    { rng with x25519 := rng.x25519.tail }, ?_, rfl, rfl, hparse⟩
  rw [IdentityPrimitives.generateSignedPreKey, run_bind_ok (run_generateKeyPair s rng),
    EStateM.run_bind, run_check, hsign]
  rfl

theorem exists_generateKemPreKey (rng : OsRng) (id : UInt32) (identity : IdentityKeyPair) :
    ∃ kpk rng', (P.generateKemPreKey id identity).run (s, rng) = .ok kpk (s, rng') ∧
      kpk.id = id ∧ P.parseSignature kpk.signature = true := by
  obtain ⟨signature, hsign, hparse⟩ := exists_sign hP identity (P.kemGenerate rng.mlKem.head).ek.val
  refine ⟨⟨id, P.kemGenerate rng.mlKem.head, signature⟩,
    { rng with mlKem := rng.mlKem.tail }, ?_, rfl, hparse⟩
  rw [IdentityPrimitives.generateKemPreKey, run_bind_ok (P.run_generateKemKeyPair s rng),
    EStateM.run_bind, run_check, hsign]
  rfl

theorem exists_createKeyStore (rng : OsRng) (seed : Bytes 32) :
    ∃ store rng', (P.createKeyStore seed).run (s, rng) = .ok store (s, rng') ∧
      (History.start store).Kept P := by
  have hidentity : (P.generateIdentity seed : CryptoM σ IdentityKeyPair).run (s, rng) =
      .ok ⟨P.signingGenerate seed, ⟨rng.x25519.head⟩⟩ (s, { rng with x25519 := rng.x25519.tail }) := rfl
  obtain ⟨spk, rng₁, hspk, hspkId, hspkTime, hspkParse⟩ := exists_generateSignedPreKey hP (s := s)
    { rng with x25519 := rng.x25519.tail } 1 ⟨P.signingGenerate seed, ⟨rng.x25519.head⟩⟩ 0
  obtain ⟨kpk, rng₂, hkpk, hkpkId, hkpkParse⟩ := exists_generateKemPreKey hP (s := s) rng₁ 2
    ⟨P.signingGenerate seed, ⟨rng.x25519.head⟩⟩
  refine ⟨⟨⟨⟨P.signingGenerate seed, ⟨rng.x25519.head⟩⟩, [spk], [], [kpk], 3, [0]⟩⟩, rng₂, ?_, ?_⟩
  · unfold IdentityPrimitives.createKeyStore
    rw [run_bind_ok hidentity, run_bind_ok hspk, run_bind_ok hkpk]
    rfl
  · exact {
      next := rfl
      distinct := by simp [History.issued, History.start]
      below := by
        intro id hid
        have hcases : id = 1 ∨ id = 2 := by simpa [History.issued, History.start] using hid
        rcases hcases with rfl | rfl
        · exact Nat.lt_of_lt_of_le (by decide : 1 < 3) (Nat.le_add_right ..)
        · exact Nat.lt_of_lt_of_le (by decide : 2 < 3) (Nat.le_add_right ..)
      aligned := rfl
      signed := by
        refine ⟨?_, ?_, List.pairwise_singleton ..⟩ <;>
          simp [signedRecords, History.start, hspkId, hspkTime]
      kem := by
        refine ⟨?_, ?_, List.pairwise_singleton ..⟩ <;> simp [kemRecords, History.start, hkpkId]
      signatures := by simpa [History.start] using hspkParse
      kemSignatures := by simpa [History.start] using hkpkParse }

theorem exists_rotateSignedPreKey (store : KeyStore) (rng : OsRng) (timestamp : UInt64) :
    ∃ spk rng', (P.rotateSignedPreKey timestamp).run (store, rng) = .ok (P.signedPreKeyPublic spk)
        (⟨{ store.bundle with
          nextPreKeyId := store.bundle.nextPreKeyId + 1
          signedPreKeys := spk :: store.bundle.signedPreKeys }⟩, rng') ∧
      spk.id = store.bundle.nextPreKeyId ∧ spk.timestamp = timestamp ∧
      P.parseSignature spk.signature = true := by
  obtain ⟨spk, rng', hrun, hspk⟩ := exists_generateSignedPreKey hP
    (s := (⟨{ store.bundle with nextPreKeyId := store.bundle.nextPreKeyId + 1 }⟩ : KeyStore)) rng
    store.bundle.nextPreKeyId store.bundle.identity timestamp
  refine ⟨spk, rng', ?_, hspk⟩
  change EStateM.run (P.generateSignedPreKey _ _ _ >>= _) _ = _
  rw [run_bind_ok hrun]
  rfl

theorem exists_rotateKemPreKey (store : KeyStore) (rng : OsRng) (timestamp : UInt64) :
    ∃ kpk rng', (P.rotateKemPreKey timestamp).run (store, rng) = .ok kpk.toPublic
        (⟨{ store.bundle with
          nextPreKeyId := store.bundle.nextPreKeyId + 1
          kemPreKeys := kpk :: store.bundle.kemPreKeys
          kemPreKeyTimestamps := timestamp :: store.bundle.kemPreKeyTimestamps }⟩, rng') ∧
      kpk.id = store.bundle.nextPreKeyId ∧ P.parseSignature kpk.signature = true := by
  obtain ⟨kpk, rng', hrun, hkpk⟩ := exists_generateKemPreKey hP
    (s := (⟨{ store.bundle with nextPreKeyId := store.bundle.nextPreKeyId + 1 }⟩ : KeyStore)) rng
    store.bundle.nextPreKeyId store.bundle.identity
  refine ⟨kpk, rng', ?_, hkpk⟩
  change EStateM.run (P.generateKemPreKey _ _ >>= _) _ = _
  rw [run_bind_ok hrun]
  rfl

omit hP in
theorem exists_generateOneTimePreKeys (count : ℕ) (s : KeyStore × OsRng) :
    ∃ preKeys t, (P.generateOneTimePreKeys count).run s = .ok preKeys t ∧ preKeys.length = count := by
  induction count generalizing s with
  | zero => exact ⟨[], s, rfl, rfl⟩
  | succ count ih =>
    obtain ⟨preKey, t, hfirst⟩ : ∃ preKey t, P.addOneTimePreKey.run s = .ok preKey t := ⟨_, _, rfl⟩
    obtain ⟨preKeys, u, hrest, hlen⟩ := ih t
    refine ⟨preKey :: preKeys, u, ?_, congrArg (· + 1) hlen⟩
    rw [IdentityPrimitives.generateOneTimePreKeys, run_bind_ok hfirst, run_bind_ok hrest]
    rfl

omit hP in
theorem kept_generateOneTimePreKeys {count : ℕ} {h : History} {rng : OsRng} (hkept : h.Kept P)
    (hlt : h.generated + count < 2 ^ 32 - 3) {preKeys : List OneTimePreKeyPublic}
    {t : KeyStore × OsRng}
    (hrun : (P.generateOneTimePreKeys count).run (h.store, rng) = .ok preKeys t) :
    History.Kept P { h with store := t.1, generated := h.generated + count } := by
  induction count generalizing h rng preKeys with
  | zero =>
    cases hrun
    exact hkept
  | succ count ih =>
    have hadd := hkept.addOneTime (by omega) ⟨h.store.bundle.nextPreKeyId, ⟨rng.x25519.head⟩⟩ rfl
    obtain ⟨first, u, hfirst, hrest⟩ := run_bind_eq_ok.mp hrun
    cases hfirst
    obtain ⟨rest, v, hrest, hreturn⟩ := run_bind_eq_ok.mp hrest
    cases hreturn
    have hkept' := ih hadd (by dsimp only; omega) hrest
    rw [Nat.add_right_comm, Nat.add_assoc] at hkept'
    exact hkept'

/-- **What was saved is read back.** -/
theorem openKeyStore_saveKeyStore {deriveKey : List UInt8 → Bytes 16 → Except CryptoError Key}
    {store store' : KeyStore} (hstorable : store.bundle.Storable P) {rng rng' : OsRng}
    {passphrase : List UInt8} {salt : Bytes 16} {encrypted : EncryptedKeyStore}
    (hrun : (P.saveKeyStore deriveKey passphrase salt).run (store, rng) = .ok encrypted (store', rng')) :
    P.openKeyStore deriveKey encrypted passphrase = .ok store := by
  obtain ⟨storageKey, t, hkey, hrun⟩ := run_bind_eq_ok.mp hrun
  obtain ⟨hderive, rfl⟩ := run_check_eq_ok.mp hkey
  obtain ⟨nonce, t, hnonce, hrun⟩ := run_bind_eq_ok.mp hrun
  cases hnonce
  obtain ⟨current, t, hget, hrun⟩ := run_bind_eq_ok.mp hrun
  cases hget
  obtain ⟨ciphertext, t, hcheck, hrun⟩ := run_bind_eq_ok.mp hrun
  obtain ⟨hencrypt, rfl⟩ := run_check_eq_ok.mp hcheck
  cases hrun
  unfold IdentityPrimitives.openKeyStore
  rw [hderive, ok_bind, Primitives.decrypt_encrypt hP.toCorrect hencrypt]
  dsimp only
  rw [KeyBundle.deserialize_serialize hstorable]
  rfl

omit hP in
theorem saveKeyStore_within (deriveKey : List UInt8 → Bytes 16 → Except CryptoError Key)
    (passphrase : List UInt8) (salt : Bytes 16) :
    Within (Unchanged Prod.fst) (P.saveKeyStore deriveKey passphrase salt) := by
  refine (within_check _).bind fun storageKey => ?_
  refine Within.bind (fun s => rfl) fun nonce => ?_
  refine Within.bind (fun s => rfl) fun s => ?_
  refine (within_check _).bind fun ciphertext => ?_
  exact within_pure _

end Operations

/-! ## Runs -/

section Runs

variable {deriveKey : List UInt8 → Bytes 16 → Except CryptoError Key}

/-- **One operation** keeps a store, as long as identifiers are left. -/
theorem perform_kept (hP : P.Correct) (s : History × OsRng) (op : Operation)
    (hs : s.1.generated < 2 ^ 32 - 3 → s.1.Kept P)
    (hlt : (P.perform deriveKey s op).1.generated < 2 ^ 32 - 3) :
    (P.perform deriveKey s op).1.Kept P := by
  obtain ⟨h, rng⟩ := s
  cases op with
  | create seed =>
    obtain ⟨store, rng', hrun, hkept⟩ := exists_createKeyStore hP (s := ()) rng seed
    simp only [IdentityPrimitives.perform, hrun]
    exact hkept
  | rotateSignedPreKey timestamp =>
    obtain ⟨spk, rng', hrun, hid, rfl, hparse⟩ := exists_rotateSignedPreKey hP h.store rng timestamp
    simp only [IdentityPrimitives.perform, hrun] at hlt ⊢
    exact (hs (Nat.lt_of_succ_lt hlt)).rotateSigned hlt hid hparse
  | rotateKemPreKey timestamp =>
    obtain ⟨kpk, rng', hrun, hid, hparse⟩ := exists_rotateKemPreKey hP h.store rng timestamp
    simp only [IdentityPrimitives.perform, hrun] at hlt ⊢
    exact (hs (Nat.lt_of_succ_lt hlt)).rotateKem hlt timestamp hid hparse
  | generateOneTimePreKeys count =>
    obtain ⟨preKeys, t, hrun, hlen⟩ := exists_generateOneTimePreKeys (P := P) count.toNat (h.store, rng)
    simp only [IdentityPrimitives.perform, hrun, hlen] at hlt ⊢
    exact kept_generateOneTimePreKeys (hs (Nat.lt_of_le_of_lt (Nat.le_add_right ..) hlt)) hlt hrun
  | replenishOneTimePreKeys target =>
    by_cases henough : target ≤ UInt32.ofNat h.store.bundle.oneTimePreKeys.length
    · have hrun : (P.replenishOneTimePreKeys target).run (h.store, rng) = .ok [] (h.store, rng) := by
        change EStateM.run (if _ then _ else _) _ = _
        rw [if_pos henough]
        rfl
      simp only [IdentityPrimitives.perform, hrun, List.length_nil, Nat.add_zero] at hlt ⊢
      exact hs hlt
    · obtain ⟨preKeys, t, hrun, hlen⟩ := exists_generateOneTimePreKeys (P := P)
        (target - UInt32.ofNat h.store.bundle.oneTimePreKeys.length).toNat (h.store, rng)
      have hreplenish : (P.replenishOneTimePreKeys target).run (h.store, rng) = .ok preKeys t := by
        change EStateM.run (if _ then _ else _) _ = _
        rw [if_neg henough]
        exact hrun
      simp only [IdentityPrimitives.perform, hreplenish, hlen] at hlt ⊢
      exact kept_generateOneTimePreKeys (hs (Nat.lt_of_le_of_lt (Nat.le_add_right ..) hlt)) hlt hrun
  | consumeOneTimePreKey id => exact (hs hlt).consume id
  | cleanupExpiredPreKeys cutoff =>
    unfold IdentityPrimitives.perform at hlt ⊢
    have hkept : h.Kept P := by
      refine hs ?_
      dsimp only at hlt
      split at hlt <;> exact hlt
    simp only [(cleanupExpiredPreKeys_eq hkept.aligned cutoff).1]
    exact hkept.cleanup cutoff
  | saveThenOpen passphrase salt =>
    have hwithin := saveKeyStore_within (P := P) deriveKey passphrase salt
    simp only [IdentityPrimitives.perform] at hlt ⊢
    cases hsave : (P.saveKeyStore deriveKey passphrase salt).run (h.store, rng) with
    | error e t =>
      obtain ⟨store, rng'⟩ := t
      obtain rfl : store = h.store := hwithin.error hsave
      rw [hsave] at hlt
      exact hs hlt
    | ok encrypted t =>
      obtain ⟨store, rng'⟩ := t
      obtain rfl : store = h.store := hwithin.ok hsave
      rw [hsave] at hlt
      dsimp only at hlt ⊢
      have hkept : h.Kept P := by
        refine hs ?_
        split at hlt <;> exact hlt
      rw [openKeyStore_saveKeyStore hP hkept.storable hsave]
      exact hkept

end Runs

end Kept

end KeyStore

section Created

open KeyStore

variable {P : IdentityPrimitives} (hP : P.Correct)
  {deriveKey : List UInt8 → Bytes 16 → Except CryptoError Key} (seed : Bytes 32) (rng : OsRng)
  {store : KeyStore} {rng' : OsRng} (hcreate : (P.createKeyStore seed).run ((), rng) = .ok store ((), rng'))
  {s : History × OsRng} (hrun : System.Steps (P.keeping deriveKey) System.Free (.start store, rng') s)
  (hlt : s.1.generated < 2 ^ 32 - 3)

include hP hcreate hrun hlt

theorem kept_of_created : s.1.Kept P := by
  suffices hkept : s.1.generated < 2 ^ 32 - 3 → s.1.Kept P from hkept hlt
  refine hrun.invariant (fun s op _ _ hs => perform_kept hP s op hs) fun _ => ?_
  obtain ⟨store', rng'', hcreate', hkept⟩ := exists_createKeyStore hP (s := ()) rng seed
  obtain ⟨rfl, -⟩ := EStateM.Result.ok.inj (hcreate.symm.trans hcreate')
  exact hkept

/-- **A store is in order** after it was created and any operations followed, as long as fewer than
`2 ^ 32 - 3` keys were generated for it. -/
theorem keyStore_inOrder : s.1.InOrder :=
  (kept_of_created hP seed rng hcreate hrun hlt).inOrder

/-- **A store that was saved is opened as it was**: whatever happened to it since it was created,
what is written under a passphrase is read back with all its keys, identifiers and timestamps, as
long as fewer than `2 ^ 32 - 3` keys were generated. To save it changes nothing. -/
theorem keyStore_reopened {passphrase : List UInt8} {salt : Bytes 16}
    {encrypted : EncryptedKeyStore} {t : KeyStore × OsRng}
    (hsave : (P.saveKeyStore deriveKey passphrase salt).run (s.1.store, s.2) = .ok encrypted t) :
    P.openKeyStore deriveKey encrypted passphrase = .ok s.1.store ∧ t.1 = s.1.store := by
  have hstorable := (kept_of_created hP seed rng hcreate hrun hlt).storable
  exact ⟨openKeyStore_saveKeyStore hP hstorable hsave,
    (saveKeyStore_within deriveKey passphrase salt).ok hsave⟩

end Created

section Toy

open KeyStore

def toyStore : KeyStore where
  bundle :=
    { identity := signingIdentity
      signedPreKeys := [⟨1, toyPair, fill 3309 fun _ => 0, 0⟩]
      oneTimePreKeys := []
      kemPreKeys := [⟨2, toyKemPair, fill 3309 fun _ => 0⟩]
      nextPreKeyId := 3
      kemPreKeyTimestamps := [0] }

/-- Both pre-keys are rotated, the old ones are removed, and one of two one-time pre-keys is
used. -/
def toyOperations : List Operation :=
  [.rotateSignedPreKey 5, .rotateKemPreKey 7, .cleanupExpiredPreKeys 6, .generateOneTimePreKeys 2,
    .consumeOneTimePreKey 5]

theorem keyStore_inOrder_toy :
    (((signingPrimitives.keeping fun _ _ => .ok toyKey).exec (.start toyStore, toyRng)
      toyOperations).1).InOrder :=
  keyStore_inOrder signingPrimitives_correct toyKey toyRng rfl
    (System.legal_free (fun _ _ => trivial) toyOperations _).steps (by decide +kernel)

/-- What is left after the operations is saved and opened. -/
theorem keyStore_reopened_toy :
    let s := (signingPrimitives.keeping fun _ _ => .ok toyKey).exec (.start toyStore, toyRng) toyOperations
    s.1.store ≠ toyStore ∧ ∃ encrypted,
      signingPrimitives.openKeyStore (fun _ _ => .ok toyKey) encrypted [1] = .ok s.1.store := by
  intro s
  have hrun : System.Steps (signingPrimitives.keeping fun _ _ => .ok toyKey) System.Free
      (.start toyStore, toyRng) s :=
    (System.legal_free (fun _ _ => trivial) toyOperations _).steps
  obtain ⟨encrypted, t, hsave⟩ : ∃ encrypted t, (signingPrimitives.saveKeyStore (fun _ _ => .ok toyKey) [1]
      (fill 16 fun _ => 0)).run (s.1.store, s.2) = .ok encrypted t := ⟨_, _, rfl⟩
  exact ⟨by decide +kernel, encrypted, (keyStore_reopened signingPrimitives_correct toyKey toyRng rfl hrun
    (by decide +kernel) hsave).1⟩

end Toy

end Pirc.Crypto
