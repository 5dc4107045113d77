import Pirc.Crypto.Message

/-!
# Crypto: the three ratchets

`symmetric_ratchet.rs`, `dh_ratchet.rs` and `pq_ratchet.rs`.
-/

namespace Pirc.Crypto

/-! ## The symmetric ratchet -/

def maxSkip : UInt32 := 1000

structure SymmetricRatchet where
  chainKey : Key
  messageNumber : UInt32 := 0
  deriving DecidableEq

namespace Primitives

variable (P : Primitives)

/-- One step of a chain: the message key, and the chain after it. -/
def advance (ratchet : SymmetricRatchet) : Key × SymmetricRatchet :=
  let (newChainKey, messageKey) := P.kdfChain ratchet.chainKey []
  (messageKey, { chainKey := newChainKey, messageNumber := ratchet.messageNumber + 1 })

def advanceN : ℕ → SymmetricRatchet → List (UInt32 × Key) × SymmetricRatchet
  | 0, ratchet => ([], ratchet)
  | n + 1, ratchet =>
    let (messageKey, next) := P.advance ratchet
    let (keys, last) := advanceN n next
    ((ratchet.messageNumber, messageKey) :: keys, last)

theorem length_advanceN (n : ℕ) (chain : SymmetricRatchet) : (P.advanceN n chain).1.length = n := by
  induction n generalizing chain with
  | zero => rfl
  | succ n ih => simp [advanceN, ih]

/-- Skip to a message, collecting the keys up to its own. -/
def skipTo (target : UInt32) : CryptoM SymmetricRatchet (List (UInt32 × Key)) := do
  let (ratchet, rng) ← get
  if target < ratchet.messageNumber then
    throw (.ratchet ("cannot skip backwards: current " ++ toString ratchet.messageNumber ++
      ", target " ++ toString target))
  else
    let skipCount := target - ratchet.messageNumber + 1
    if maxSkip < skipCount then
      throw (.ratchet ("skip distance " ++ toString skipCount ++ " exceeds MAX_SKIP (" ++
        toString maxSkip ++ ")"))
    else
      let (keys, ratchet) := P.advanceN skipCount.toNat ratchet
      set (ratchet, rng)
      return keys

end Primitives

/-! ## The DH ratchet -/

/-- The X25519 ratchet, with a sending and a receiving chain. -/
structure DhRatchetState where
  dhPair : KeyPair
  remotePublic : Option PublicKey
  rootKey : Key
  sendingChain : Option SymmetricRatchet
  receivingChain : Option SymmetricRatchet
  stepCount : UInt32
  deriving DecidableEq

/-- The receiver's side: both chains come with the first ratchet step. -/
def DhRatchetState.initReceiver (rootKey : Key) (dhPair : KeyPair) : DhRatchetState where
  dhPair := dhPair
  remotePublic := none
  rootKey := rootKey
  sendingChain := none
  receivingChain := none
  stepCount := 0

instance neZeroThree : NeZero 3 := ⟨Nat.succ_ne_zero 2⟩

def extractKey (buf : Bytes 96) (index : Fin 3) : Key :=
  ⟨(buf.val.drop (index * 32)).take 32, by
    have hlen := buf.property
    have hindex := index.isLt
    rw [List.length_take, List.length_drop, hlen]
    omega⟩

namespace Primitives

variable (P : Primitives)

def rootKdf (rootKey dhOutput : Key) : Except CryptoError (Key × Key × Key) := do
  let output ← P.deriveKeyInto rootKey.val dhOutput.val (utf8 "pirc-dh-ratchet-root".toList) 96
  return (extractKey output 0, extractKey output 1, extractKey output 2)

/-- The sender's side: it has a sending chain at once. Also the header key of its first step. -/
def initDhSender (rootKey : Key) (remotePublic : PublicKey) :
    CryptoM Unit (DhRatchetState × Key) := do
  let dhPair ← generateKeyPair
  let dhOutput ← check (P.diffieHellmanKeypair dhPair remotePublic)
  let (newRootKey, sendingChainKey, headerKey) ← check (P.rootKdf rootKey dhOutput)
  return (
    { dhPair := dhPair
      remotePublic := some remotePublic
      rootKey := newRootKey
      sendingChain := some { chainKey := sendingChainKey }
      receivingChain := none
      stepCount := 0 }, headerKey)

/-- A step of the DH ratchet: a receiving chain with our current key pair and a sending chain with a
new one. Gives the header keys derived with them. -/
def ratchetStep (newRemotePublic : PublicKey) : CryptoM DhRatchetState (Key × Key) := do
  let (ratchet, _) ← get
  let dhOutputRecv ← check (P.diffieHellmanKeypair ratchet.dhPair newRemotePublic)
  let (recvRootKey, recvChainKey, recvHeaderKey) ← check (P.rootKdf ratchet.rootKey dhOutputRecv)
  modify fun (ratchet, rng) =>
    ({ ratchet with
      rootKey := recvRootKey
      receivingChain := some { chainKey := recvChainKey } }, rng)
  let dhPair ← generateKeyPair
  modify fun (ratchet, rng) => ({ ratchet with dhPair := dhPair }, rng)
  let dhOutputSend ← check (P.diffieHellmanKeypair dhPair newRemotePublic)
  let (sendRootKey, sendChainKey, sendHeaderKey) ← check (P.rootKdf recvRootKey dhOutputSend)
  modify fun (ratchet, rng) =>
    ({ ratchet with
      rootKey := sendRootKey
      sendingChain := some { chainKey := sendChainKey }
      remotePublic := some newRemotePublic
      stepCount := ratchet.stepCount + 1 }, rng)
  return (recvHeaderKey, sendHeaderKey)

/-- The key for the next message to send, its number, and our public key. -/
def encryptMessageKey : CryptoM DhRatchetState (Key × UInt32 × PublicKey) := do
  let (ratchet, rng) ← get
  match ratchet.sendingChain with
  | none => throw (.ratchet "sending chain not initialized")
  | some chain =>
    let (messageKey, next) := P.advance chain
    set ({ ratchet with sendingChain := some next }, rng)
    return (messageKey, chain.messageNumber, P.publicKey ratchet.dhPair)

def onReceivingChain {α : Type} (chain : SymmetricRatchet) (x : CryptoM SymmetricRatchet α) :
    CryptoM DhRatchetState α :=
  onPart (fun _ => chain) (fun next ratchet => { ratchet with receivingChain := some next }) x

def receiveMessageKey (msgNum : UInt32) : CryptoM DhRatchetState (Key × List (UInt32 × Key)) := do
  let (ratchet, rng) ← get
  match ratchet.receivingChain with
  | none => throw (.ratchet "receiving chain not initialized")
  | some chain =>
    if msgNum < chain.messageNumber then
      throw (.ratchet ("message number " ++ toString msgNum ++ " already consumed (current: " ++
        toString chain.messageNumber ++ ")"))
    else if msgNum = chain.messageNumber then
      let (messageKey, next) := P.advance chain
      set ({ ratchet with receivingChain := some next }, rng)
      return (messageKey, [])
    else
      let keys ← onReceivingChain chain (P.skipTo msgNum)
      -- the last key is the target's, the others were skipped
      match keys.getLast? with
      | some (_, messageKey) => return (messageKey, keys.dropLast)
      | none => throw (.panicked "skip_to always returns at least one key")

def skipRemainingReceivingKeys (upTo : UInt32) : CryptoM DhRatchetState (List (UInt32 × Key)) := do
  let (ratchet, _) ← get
  match ratchet.receivingChain with
  | none => return []
  | some chain =>
    if upTo ≤ chain.messageNumber then return []
    else onReceivingChain chain (P.skipTo (upTo - 1))

end Primitives

/-! ## The PQ ratchet -/

/-- One party's side of the post-quantum ratchet. -/
structure PqRatchetState where
  kemPair : KemKeyPair
  remoteKemPublic : Option KemPublicKey
  pqChainKey : Key
  stepCounter : UInt32
  deriving DecidableEq

/-- A ratchet with an existing key pair (`PqRatchetState::with_keypair`). -/
def PqRatchetState.withKeypair (initialKey : Key) (kemPair : KemKeyPair) : PqRatchetState where
  kemPair := kemPair
  remoteKemPublic := none
  pqChainKey := initialKey
  stepCounter := 0

namespace Primitives

variable (P : Primitives)

/-- A ratchet with a fresh key pair (`PqRatchetState::new`). -/
def newPqRatchet (initialKey : Key) : CryptoM Unit PqRatchetState := do
  let kemPair ← P.generateKemKeyPair
  return { kemPair := kemPair, remoteKemPublic := none, pqChainKey := initialKey, stepCounter := 0 }

def mixSecret (pqChainKey secret : Key) : Except CryptoError Key :=
  P.deriveKeyInto pqChainKey.val secret.val (utf8 "pirc-pq-ratchet-chain".toList) 32

/-- Start a post-quantum step: what the peer needs to complete it. -/
def initiateStep : CryptoM PqRatchetState (KemCiphertext × KemPublicKey) := do
  let (ratchet, _) ← get
  match ratchet.remoteKemPublic with
  | none => throw (.ratchet "remote KEM public key not set")
  | some remotePk =>
    let (ciphertext, sharedSecret) ← P.encapsulate remotePk
    let newKey ← check (P.mixSecret ratchet.pqChainKey sharedSecret)
    let kemPair ← P.generateKemKeyPair
    modify fun (ratchet, rng) =>
      ({ ratchet with
        pqChainKey := newKey
        kemPair := kemPair
        stepCounter := ratchet.stepCounter + 1 }, rng)
    return (ciphertext, kemPair.ek)

/-- Complete the peer's post-quantum step. -/
def completeStep (ciphertext : KemCiphertext) (newRemotePublic : KemPublicKey) :
    CryptoM PqRatchetState Unit := do
  let (ratchet, _) ← get
  let sharedSecret ← check (P.decapsulate ratchet.kemPair ciphertext)
  let newKey ← check (P.mixSecret ratchet.pqChainKey sharedSecret)
  let kemPair ← P.generateKemKeyPair
  modify fun (ratchet, rng) =>
    ({ ratchet with
      pqChainKey := newKey
      remoteKemPublic := some newRemotePublic
      kemPair := kemPair
      stepCounter := ratchet.stepCounter + 1 }, rng)

end Primitives

end Pirc.Crypto
