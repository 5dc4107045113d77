import Pirc.Crypto.Ratchets
import Mathlib.Data.List.AList

/-!
# Crypto: the triple ratchet session

`triple_ratchet/mod.rs`. A session encrypts with a key of its sending chain and a header under its
sending header key; a received header that opens with the next receiving header key, or carries a
new public key, is the first of a new DH step.
-/

namespace Pirc.Crypto

def maxSkippedKeys : ℕ := 1000

def defaultPqInterval : UInt32 := 20

def maxRetainedHeaderKeys : ℕ := 10

/-- A skipped message key, with the DH step at which it was cached. -/
structure SkippedKey where
  key : Key
  dhStep : UInt32
  deriving DecidableEq

/-- Skipped keys by public key and message number; a `HashMap` in the source. -/
abbrev SkippedKeys := AList fun _ : PublicKey × UInt32 => SkippedKey

/-- A session; its counters of messages sent and received in total are not modelled. -/
structure TripleRatchetSession where
  dhRatchet : DhRatchetState
  pqRatchet : PqRatchetState
  sendingHeaderKey : Key
  receivingHeaderKey : Key
  previousReceivingHeaderKey : Option Key := none
  retainedHeaderKeys : List Key := []
  nextSendingHeaderKey : Key
  nextReceivingHeaderKey : Key
  skippedKeys : SkippedKeys := ∅
  pqStepInterval : UInt32 := defaultPqInterval
  dhStepsSincePq : UInt32 := 0
  previousChainLength : UInt32 := 0
  sendingMessageNumber : UInt32 := 0

namespace TripleRatchetSession

/-- Cache a skipped key; an arbitrary one makes room for it if there are too many. -/
def storeSkippedKey (session : TripleRatchetSession) (dhPublic : PublicKey) (msgNum : UInt32)
    (key : Key) : TripleRatchetSession :=
  let kept :=
    if maxSkippedKeys ≤ session.skippedKeys.keys.length then
      match session.skippedKeys.keys with
      | [] => session.skippedKeys
      | firstKey :: _ => session.skippedKeys.erase firstKey
    else session.skippedKeys
  { session with
    skippedKeys := kept.insert (dhPublic, msgNum)
      { key := key, dhStep := session.dhRatchet.stepCount } }

def storeSkippedKeys (session : TripleRatchetSession) (dhPublic : PublicKey)
    (keys : List (UInt32 × Key)) : TripleRatchetSession :=
  keys.foldl (fun session key => session.storeSkippedKey dhPublic key.1 key.2) session

/-- Promote the next header keys; the receiving key before the current one is retained. -/
def rotateHeaderKeys (session : TripleRatchetSession) : TripleRatchetSession :=
  { session with
    previousReceivingHeaderKey := some session.receivingHeaderKey
    retainedHeaderKeys :=
      match session.previousReceivingHeaderKey with
      | some previous =>
        if session.retainedHeaderKeys.length < maxRetainedHeaderKeys then
          session.retainedHeaderKeys ++ [previous]
        else session.retainedHeaderKeys
      | none => session.retainedHeaderKeys
    receivingHeaderKey := session.nextReceivingHeaderKey
    sendingHeaderKey := session.nextSendingHeaderKey }

def pqDue (session : TripleRatchetSession) : Bool :=
  0 < session.pqStepInterval && session.pqStepInterval ≤ session.dhStepsSincePq

end TripleRatchetSession

section Parts

variable {α : Type}

def onDhRatchet (x : CryptoM DhRatchetState α) : CryptoM TripleRatchetSession α :=
  onPart TripleRatchetSession.dhRatchet (fun ratchet session => { session with dhRatchet := ratchet }) x

def onPqRatchet (x : CryptoM PqRatchetState α) : CryptoM TripleRatchetSession α :=
  onPart TripleRatchetSession.pqRatchet (fun ratchet session => { session with pqRatchet := ratchet }) x

def modifySession (f : TripleRatchetSession → TripleRatchetSession) :
    CryptoM TripleRatchetSession Unit :=
  modify fun (session, rng) => (f session, rng)

end Parts

namespace Primitives

variable (P : Primitives)

/-! ## Building sessions -/

def deriveInitialKey (sharedSecret : Key) (info : String) : Except CryptoError Key :=
  P.deriveKeyInto sharedSecret.val [] (utf8 info.toList) 32

def headerKeyMaterial (sharedSecret : Key) : Except CryptoError (Bytes 96) :=
  P.deriveKeyInto sharedSecret.val [] (utf8 "pirc-triple-ratchet-header-keys".toList) 96

def initSender (sharedSecret : Key) (remoteDhPublic : PublicKey) (remoteKemPublic : KemPublicKey) :
    CryptoM Unit TripleRatchetSession := do
  let rootKey ← check (P.deriveInitialKey sharedSecret "pirc-triple-ratchet-root")
  let material ← check (P.headerKeyMaterial sharedSecret)
  let (dhRatchet, initHeaderKey) ← P.initDhSender rootKey remoteDhPublic
  let pqChainKey ← check (P.deriveInitialKey sharedSecret "pirc-triple-ratchet-pq-chain")
  let pqRatchet ← P.newPqRatchet pqChainKey
  return {
    dhRatchet := dhRatchet
    pqRatchet := { pqRatchet with remoteKemPublic := some remoteKemPublic }
    sendingHeaderKey := extractKey material 0
    receivingHeaderKey := extractKey material 1
    nextSendingHeaderKey := initHeaderKey
    nextReceivingHeaderKey := extractKey material 2 }

def initReceiver (sharedSecret : Key) (dhPair : KeyPair) (kemPair : KemKeyPair) :
    Except CryptoError TripleRatchetSession := do
  let rootKey ← P.deriveInitialKey sharedSecret "pirc-triple-ratchet-root"
  let material ← P.headerKeyMaterial sharedSecret
  let pqChainKey ← P.deriveInitialKey sharedSecret "pirc-triple-ratchet-pq-chain"
  return {
    dhRatchet := DhRatchetState.initReceiver rootKey dhPair
    pqRatchet := PqRatchetState.withKeypair pqChainKey kemPair
    sendingHeaderKey := extractKey material 1
    receivingHeaderKey := extractKey material 0
    nextSendingHeaderKey := extractKey material 2
    nextReceivingHeaderKey := extractKey material 2 }

/-! ## Encryption -/

/-- What a post-quantum step puts into the header, if one is due. -/
def preparePqStep : CryptoM TripleRatchetSession (Option KemCiphertext × Option KemPublicKey) := do
  let (session, _) ← get
  if session.pqDue then
    let (ciphertext, newPk) ← onPqRatchet P.initiateStep
    modifySession fun session => { session with dhStepsSincePq := 0 }
    return (some ciphertext, some newPk)
  else return (none, none)

/-- `TripleRatchetSession::encrypt`. -/
def encryptMessage (plaintext : List UInt8) : CryptoM TripleRatchetSession EncryptedMessage := do
  let (kemCiphertext, kemPublic) ← P.preparePqStep
  let (messageKey, msgNum, dhPublic) ← onDhRatchet P.encryptMessageKey
  modifySession fun session => { session with sendingMessageNumber := msgNum + 1 }
  let (session, _) ← get
  let header : MessageHeader :=
    { dhPublic := dhPublic
      messageNumber := msgNum
      previousChainLength := session.previousChainLength
      kemCiphertext := kemCiphertext
      kemPublic := kemPublic }
  let (encryptedHeader, headerNonce) ← P.encryptHeader session.sendingHeaderKey header
  -- the encrypted header is bound to the body
  let bodyNonce ← generateNonce
  let ciphertext ← check (P.encrypt messageKey bodyNonce plaintext encryptedHeader)
  return {
    encryptedHeader := encryptedHeader
    headerNonce := headerNonce
    ciphertext := ciphertext
    bodyNonce := bodyNonce }

/-! ## Decryption -/

def tryDecryptHeaderWithKey (key : Key) (message : EncryptedMessage) : Option MessageHeader :=
  (P.decryptHeader key message.encryptedHeader message.headerNonce).toOption

/-- The header under the first key that opens it: current, next, previous, retained. -/
def tryHeaderKeys (session : TripleRatchetSession) (message : EncryptedMessage) :
    Option MessageHeader :=
  ([session.receivingHeaderKey, session.nextReceivingHeaderKey] ++
    session.previousReceivingHeaderKey.toList ++ session.retainedHeaderKeys).findSome?
      (P.tryDecryptHeaderWithKey · message)

/-- Decrypt with a cached key, if there is one; it is used up even when that fails. -/
def trySkippedKeys (message : EncryptedMessage) :
    CryptoM TripleRatchetSession (Option (List UInt8)) := do
  let (session, _) ← get
  if session.skippedKeys.keys.isEmpty then return none
  else
    match P.tryHeaderKeys session message with
    | none => return none
    | some header =>
      match session.skippedKeys.lookup (header.dhPublic, header.messageNumber) with
      | none => return none
      | some skipped =>
        modifySession fun session =>
          { session with
            skippedKeys := session.skippedKeys.erase (header.dhPublic, header.messageNumber) }
        let plaintext ← check
          (P.decrypt skipped.key message.bodyNonce message.ciphertext message.encryptedHeader)
        return some plaintext

/-- The header, and whether it starts a new DH step: the next header key opens it, or the current
one does and the public key is new. -/
def tryDecryptHeaderAndDetectRatchet (session : TripleRatchetSession) (message : EncryptedMessage) :
    Except CryptoError (MessageHeader × Bool) :=
  match P.tryDecryptHeaderWithKey session.nextReceivingHeaderKey message with
  | some header => .ok (header, true)
  | none =>
    match P.tryDecryptHeaderWithKey session.receivingHeaderKey message with
    | some header => .ok (header, session.dhRatchet.remotePublic ≠ some header.dhPublic)
    | none =>
      match session.previousReceivingHeaderKey.bind (P.tryDecryptHeaderWithKey · message) with
      | some header => .ok (header, false)
      | none => .error (.headerEncryption "no header key could decrypt the header")

/-- Keep the keys of the old receiving chain that its sender used and we did not see. -/
def saveRemainingKeys (header : MessageHeader) : CryptoM TripleRatchetSession Unit := do
  let (session, _) ← get
  match session.dhRatchet.remotePublic with
  | none => return
  | some oldRemote =>
    let oldKeys ← onDhRatchet (P.skipRemainingReceivingKeys header.previousChainLength)
    modifySession (·.storeSkippedKeys oldRemote oldKeys)

/-- A new DH step of the peer: rotate the header keys and step the DH ratchet. -/
def followRatchet (header : MessageHeader) : CryptoM TripleRatchetSession Unit := do
  P.saveRemainingKeys header
  modifySession TripleRatchetSession.rotateHeaderKeys
  let (recvHeaderKey, sendHeaderKey) ← onDhRatchet (P.ratchetStep header.dhPublic)
  modifySession fun session =>
    { session with
      dhStepsSincePq := session.dhStepsSincePq + 1
      nextReceivingHeaderKey := recvHeaderKey
      nextSendingHeaderKey := sendHeaderKey
      previousChainLength := session.sendingMessageNumber
      sendingMessageNumber := 0 }

/-- Complete a post-quantum step of the peer, if the header brings one. -/
def followPqStep (header : MessageHeader) : CryptoM TripleRatchetSession Unit :=
  match header.kemCiphertext, header.kemPublic with
  | some ciphertext, some newPk => onPqRatchet (P.completeStep ciphertext newPk)
  | _, _ => return

def decryptBody (header : MessageHeader) (message : EncryptedMessage) :
    CryptoM TripleRatchetSession (List UInt8) := do
  let (messageKey, skipped) ← onDhRatchet (P.receiveMessageKey header.messageNumber)
  modifySession (·.storeSkippedKeys header.dhPublic skipped)
  check (P.decrypt messageKey message.bodyNonce message.ciphertext message.encryptedHeader)

/-- `TripleRatchetSession::decrypt`. -/
def decryptMessage (message : EncryptedMessage) : CryptoM TripleRatchetSession (List UInt8) := do
  match ← P.trySkippedKeys message with
  | some plaintext => return plaintext
  | none =>
    let (session, _) ← get
    let (header, dhChanged) ← check (P.tryDecryptHeaderAndDetectRatchet session message)
    if dhChanged then P.followRatchet header
    P.followPqStep header
    P.decryptBody header message

end Primitives

end Pirc.Crypto
