import Pirc.Crypto.Primitives

/-!
# Crypto: message headers

`message.rs` and `header.rs`: the headers of encrypted messages, their bytes, and their encryption.
Counters are 32 bits wide and wrap around, as in a release build.

## Main results

* `decryptHeader_eq`, `decryptHeader_other`: the right key opens a header, and no other
-/

namespace Pirc.Crypto

/-! ## Integers as bytes -/

/-- `u32::to_be_bytes`. -/
def beBytes (n : UInt32) : List UInt8 :=
  [.ofNat (n.toNat / 2 ^ 24), .ofNat (n.toNat / 2 ^ 16), .ofNat (n.toNat / 2 ^ 8), .ofNat n.toNat]

/-- `u32::from_be_bytes` of the first four bytes. -/
def fromBeBytes : List UInt8 → UInt32
  | a :: b :: c :: d :: _ =>
    .ofNat (a.toNat * 2 ^ 24 + b.toNat * 2 ^ 16 + c.toNat * 2 ^ 8 + d.toNat)
  | _ => 0

@[simp] theorem length_beBytes (n : UInt32) : (beBytes n).length = 4 := rfl

@[simp] theorem fromBeBytes_beBytes (n : UInt32) (rest : List UInt8) :
    fromBeBytes (beBytes n ++ rest) = n := by
  have hlt : n.toNat < 2 ^ 32 := n.toNat_lt
  apply UInt32.toNat_inj.mp
  simp only [beBytes, fromBeBytes, List.cons_append, UInt32.toNat_ofNat', UInt8.toNat_ofNat']
  omega

/-! ## Headers -/

/-- The metadata of a message; the last two are there when a post-quantum step happens. -/
structure MessageHeader where
  dhPublic : PublicKey
  messageNumber : UInt32
  previousChainLength : UInt32
  kemCiphertext : Option KemCiphertext
  kemPublic : Option KemPublicKey
  deriving DecidableEq

def headerFixedLen : ℕ := 32 + 4 + 4 + 1

def flagKemCiphertext : UInt8 := 1

def flagKemPublic : UInt8 := 2

def takeField (n : ℕ) (what : String) (present : Bool) (rest : List UInt8) :
    Except CryptoError (Option (Bytes n) × List UInt8) :=
  if present then
    if h : n ≤ rest.length then .ok (some ⟨rest.take n, by simpa using h⟩, rest.drop n)
    else .error (.serialization ("header too short for " ++ what ++ ": need " ++ toString n ++
      " more bytes, have " ++ toString rest.length))
  else .ok (none, rest)

def fieldBytes {n : ℕ} (field : Option (Bytes n)) : List UInt8 := field.elim [] Subtype.val

theorem takeField_fieldBytes {n : ℕ} (what : String) (field : Option (Bytes n))
    (rest : List UInt8) :
    takeField n what field.isSome (fieldBytes field ++ rest) = .ok (field, rest) := by
  cases field with
  | none => rfl
  | some bytes =>
    obtain ⟨bytes, rfl⟩ := bytes
    have hle : bytes.length ≤ (bytes ++ rest).length := by simp
    simp [takeField, fieldBytes]

namespace MessageHeader

def flags (header : MessageHeader) : UInt8 :=
  (if header.kemCiphertext.isSome then flagKemCiphertext else 0) |||
    (if header.kemPublic.isSome then flagKemPublic else 0)

def toBytes (header : MessageHeader) : List UInt8 :=
  header.dhPublic.val ++ beBytes header.messageNumber ++ beBytes header.previousChainLength ++
    [header.flags] ++ fieldBytes header.kemCiphertext ++ fieldBytes header.kemPublic

def fromBytes (bytes : List UInt8) : Except CryptoError MessageHeader :=
  if h : bytes.length < headerFixedLen then
    .error (.serialization ("header too short: expected at least " ++ toString headerFixedLen ++
      " bytes, got " ++ toString bytes.length))
  else do
    let flags := bytes.getD 40 0
    let (kemCiphertext, rest) ← takeField ciphertextLen "KEM ciphertext"
      (flags &&& flagKemCiphertext ≠ 0) (bytes.drop headerFixedLen)
    let (kemPublic, _) ← takeField publicKeyLen "KEM public key" (flags &&& flagKemPublic ≠ 0) rest
    return {
      dhPublic := ⟨bytes.take 32, by unfold headerFixedLen at h; simp; omega⟩
      messageNumber := fromBeBytes (bytes.drop 32)
      previousChainLength := fromBeBytes (bytes.drop 36)
      kemCiphertext := kemCiphertext
      kemPublic := kemPublic }

theorem flags_eq (header : MessageHeader) :
    decide (header.flags &&& flagKemCiphertext ≠ 0) = header.kemCiphertext.isSome ∧
      decide (header.flags &&& flagKemPublic ≠ 0) = header.kemPublic.isSome := by
  unfold flags
  cases header.kemCiphertext.isSome <;> cases header.kemPublic.isSome <;> decide

def fixedBytes (header : MessageHeader) : List UInt8 :=
  header.dhPublic.val ++ beBytes header.messageNumber ++ beBytes header.previousChainLength ++
    [header.flags]

@[simp] theorem length_fixedBytes (header : MessageHeader) :
    header.fixedBytes.length = headerFixedLen := by
  simp [fixedBytes, header.dhPublic.property, headerFixedLen]

theorem toBytes_eq (header : MessageHeader) :
    header.toBytes =
      header.fixedBytes ++ (fieldBytes header.kemCiphertext ++ fieldBytes header.kemPublic) := by
  simp only [toBytes, fixedBytes, List.append_assoc]

/-- **A header is read back as it was written**, whichever of its fields are there. -/
theorem fromBytes_toBytes (header : MessageHeader) : fromBytes header.toBytes = .ok header := by
  obtain ⟨hciphertext, hpublic⟩ := header.flags_eq
  have hdh : header.dhPublic.val.length = 32 := header.dhPublic.property
  have hlen : ¬ header.toBytes.length < headerFixedLen := by
    rw [toBytes_eq]
    simp
  -- the fixed part, field by field
  have hflags : header.toBytes.getD 40 0 = header.flags := by
    have hbefore : (header.dhPublic.val ++ beBytes header.messageNumber ++
        beBytes header.previousChainLength).length = 40 := by
      simp [hdh]
    rw [toBytes_eq, fixedBytes, List.append_assoc, List.getD_eq_getElem?_getD,
      List.getElem?_append_right hbefore.le, hbefore]
    rfl
  have htake : header.toBytes.take 32 = header.dhPublic.val := by
    simp only [toBytes, List.append_assoc]
    exact List.take_left' hdh
  have hnumber : fromBeBytes (header.toBytes.drop 32) = header.messageNumber := by
    simp only [toBytes, List.append_assoc]
    rw [List.drop_left' hdh, fromBeBytes_beBytes]
  have hprevious : fromBeBytes (header.toBytes.drop 36) = header.previousChainLength := by
    have hbefore : (header.dhPublic.val ++ beBytes header.messageNumber).length = 36 := by
      simp [hdh]
    have happend : header.toBytes = (header.dhPublic.val ++ beBytes header.messageNumber) ++
        (beBytes header.previousChainLength ++ ([header.flags] ++
          (fieldBytes header.kemCiphertext ++ fieldBytes header.kemPublic))) := by
      simp only [toBytes, List.append_assoc]
    rw [happend, List.drop_left' hbefore, fromBeBytes_beBytes]
  have hdrop : header.toBytes.drop headerFixedLen =
      fieldBytes header.kemCiphertext ++ fieldBytes header.kemPublic := by
    rw [toBytes_eq, List.drop_left' header.length_fixedBytes]
  -- the optional fields: the public key ends the header
  have hfirst := takeField_fieldBytes "KEM ciphertext" header.kemCiphertext
    (fieldBytes header.kemPublic)
  have hsecond := takeField_fieldBytes "KEM public key" header.kemPublic []
  rw [List.append_nil] at hsecond
  rw [fromBytes, dif_neg hlen]
  simp only [hflags, hciphertext, hpublic, hdrop, htake, hnumber, hprevious]
  exact Except.bind_eq_ok.mpr ⟨_, hfirst, Except.bind_eq_ok.mpr ⟨_, hsecond, rfl⟩⟩

end MessageHeader

/-! ## Encryption -/

/-- A message as it travels: header and body, each with its nonce. -/
structure EncryptedMessage where
  encryptedHeader : List UInt8
  headerNonce : Nonce
  ciphertext : List UInt8
  bodyNonce : Nonce
  deriving DecidableEq

namespace Primitives

variable (P : Primitives)

/-- A header under a header key. -/
def encryptHeader {σ : Type} (headerKey : Key) (header : MessageHeader) :
    CryptoM σ (List UInt8 × Nonce) := do
  let nonce ← generateNonce
  match P.encrypt headerKey nonce header.toBytes [] with
  | .ok ciphertext => return (ciphertext, nonce)
  | .error e => throw (.headerEncryption ("encrypt failed: " ++ e.display))

/-- The header, if this is its key. -/
def decryptHeader (headerKey : Key) (encrypted : List UInt8) (nonce : Nonce) :
    Except CryptoError MessageHeader :=
  match P.decrypt headerKey nonce encrypted [] with
  | .ok plaintext => MessageHeader.fromBytes plaintext
  | .error e => .error (.headerEncryption ("decrypt failed: " ++ e.display))

variable {P} {key key' : Key} {nonce : Nonce} {header : MessageHeader} {encrypted : List UInt8}

theorem decryptHeader_eq (h : P.Correct)
    (heq : P.encrypt key nonce header.toBytes [] = .ok encrypted) :
    P.decryptHeader key encrypted nonce = .ok header := by
  rw [decryptHeader, decrypt_encrypt h heq]
  exact header.fromBytes_toBytes

theorem decryptHeader_other (h : P.Committing)
    (heq : P.encrypt key nonce header.toBytes [] = .ok encrypted) (hne : key' ≠ key) :
    ∃ e, P.decryptHeader key' encrypted nonce = .error e := by
  rw [decryptHeader, decrypt_other h heq hne]
  exact ⟨_, rfl⟩

end Primitives

end Pirc.Crypto
