import Pirc.Crypto.Bytes
import Pirc.Crypto.Conversation
import Pirc.Protocol.Message

/-!
# Client: the encryption manager

`pirc-client/src/encryption/mod.rs`: the sessions of a user with its peers, by nickname, and the key
exchanges that are under way. Storage of keys on disk and fingerprints for display are not modelled.
-/

namespace Pirc.Client

open Crypto Protocol

def oneTimePreKeyBatchSize : ℕ := 10

inductive EncryptionStatus
  | none
  | establishing
  | active
  deriving DecidableEq

/-- An exchange that we began: the peer's bundle was requested, or our half is done. -/
inductive PendingExchange
  | awaitingBundle (queuedMessages : List (List UInt8))
  | awaitingComplete (session : TripleRatchetSession) (queuedMessages : List (List UInt8))

def PendingExchange.queuedMessages : PendingExchange → List (List UInt8)
  | awaitingBundle queued => queued
  | awaitingComplete _ queued => queued

def PendingExchange.push (plaintext : List UInt8) : PendingExchange → PendingExchange
  | awaitingBundle queued => awaitingBundle (queued ++ [plaintext])
  | awaitingComplete session queued => awaitingComplete session (queued ++ [plaintext])

/-- The state of the manager; hash maps by nickname are functions. -/
structure EncryptionManager where
  identity : IdentityKeyPair
  sessions : Str → Option TripleRatchetSession := fun _ => none
  pendingExchanges : Str → Option PendingExchange := fun _ => none
  signedPreKey : SignedPreKey
  kemPreKey : KemPreKey
  oneTimePreKeys : List OneTimePreKey
  peerIdentities : Str → Option IdentityPublicKey := fun _ => none

namespace EncryptionManager

variable (manager : EncryptionManager)

def insertSession (peer : Str) (session : TripleRatchetSession) : EncryptionManager :=
  { manager with sessions := Function.update manager.sessions peer (some session) }

def insertPending (peer : Str) (pending : PendingExchange) : EncryptionManager :=
  { manager with
    pendingExchanges := Function.update manager.pendingExchanges peer (some pending) }

def removePending (peer : Str) : EncryptionManager :=
  { manager with pendingExchanges := Function.update manager.pendingExchanges peer none }

def insertPeerIdentity (peer : Str) (identity : IdentityPublicKey) : EncryptionManager :=
  { manager with peerIdentities := Function.update manager.peerIdentities peer (some identity) }

def hasSession (peer : Str) : Bool := (manager.sessions peer).isSome

def hasPendingExchange (peer : Str) : Bool := (manager.pendingExchanges peer).isSome

def encryptionStatus (peer : Str) : EncryptionStatus :=
  if manager.hasSession peer then .active
  else if manager.hasPendingExchange peer then .establishing
  else .none

/-! ## Requests and acknowledgements -/

def initiateKeyExchange (peer : Str) : KeyExchangeMessage × EncryptionManager :=
  (.requestBundle, manager.insertPending peer (.awaitingBundle []))

/-- Queue a message for a pending exchange; false if there is none. -/
def queueMessage (peer : Str) (plaintext : List UInt8) : Bool × EncryptionManager :=
  match manager.pendingExchanges peer with
  | some pending => (true, manager.insertPending peer (pending.push plaintext))
  | none => (false, manager)

/-- The peer has acknowledged: the pending session becomes the active one. What is pending is
removed in any case. -/
def handleComplete (peer : Str) : EncryptionManager :=
  match manager.pendingExchanges peer with
  | some (.awaitingComplete session _) => (manager.removePending peer).insertSession peer session
  | _ => manager.removePending peer

def removeSession (peer : Str) : EncryptionManager :=
  { manager with
    sessions := Function.update manager.sessions peer none
    pendingExchanges := Function.update manager.pendingExchanges peer none
    peerIdentities := Function.update manager.peerIdentities peer none }

def takeOneTimePreKey (id : Option UInt32) : Option OneTimePreKey × EncryptionManager :=
  match id with
  | some id =>
    (manager.oneTimePreKeys.find? (·.id = id),
      { manager with oneTimePreKeys := manager.oneTimePreKeys.eraseP (·.id = id) })
  | none => (none, manager)

end EncryptionManager

/-! ## Keys and messages -/

section Session

variable {σ α : Type}

def modifyState (f : σ → σ) : CryptoM σ Unit := modify fun (s, rng) => (f s, rng)

/-- Run a computation of a session that is not part of the state. -/
def onSession (session : TripleRatchetSession) (x : CryptoM TripleRatchetSession α) :
    CryptoM σ (α × TripleRatchetSession) := fun (s, rng) =>
  match x.run (session, rng) with
  | .ok a (session, rng) => .ok (a, session) (s, rng)
  | .error e (_, rng) => .error e (s, rng)

/-- Run a computation without state. -/
def stateless (x : CryptoM Unit α) : CryptoM σ α := fun (s, rng) =>
  match x.run ((), rng) with
  | .ok a (_, rng) => .ok a (s, rng)
  | .error e (_, rng) => .error e (s, rng)

@[simp] theorem run_modifyState (f : σ → σ) (s : σ) (rng : OsRng) :
    (modifyState f).run (s, rng) = .ok () (f s, rng) := rfl

@[simp] theorem run_onSession (session : TripleRatchetSession)
    (x : CryptoM TripleRatchetSession α) (s : σ) (rng : OsRng) :
    (onSession session x).run (s, rng) =
      match x.run (session, rng) with
      | .ok a (session, rng) => .ok (a, session) (s, rng)
      | .error e (_, rng) => .error e (s, rng) := rfl

@[simp] theorem run_stateless (x : CryptoM Unit α) (s : σ) (rng : OsRng) :
    (stateless x).run (s, rng) =
      match x.run ((), rng) with
      | .ok a (_, rng) => .ok a (s, rng)
      | .error e (_, rng) => .error e (s, rng) := rfl

end Session

def encryptAll (P : Primitives) :
    List (List UInt8) → CryptoM TripleRatchetSession (List EncryptedMessage)
  | [] => return []
  | plaintext :: plaintexts => do
    let message ← P.encryptMessage plaintext
    let messages ← encryptAll P plaintexts
    return message :: messages

namespace EncryptionManager

variable (P : IdentityPrimitives)

def generateOneTimePreKeys : ℕ → UInt32 → CryptoM Unit (List OneTimePreKey)
  | 0, _ => return []
  | n + 1, first => do
    let preKey ← IdentityPrimitives.generateOneTimePreKey first
    let preKeys ← generateOneTimePreKeys n (first + 1)
    return preKey :: preKeys

/-- `EncryptionManager::new`, with the random bytes of the signing key and the time. -/
def newManager (seed : Bytes 32) (timestamp : UInt64) : CryptoM Unit EncryptionManager := do
  let identity ← P.generateIdentity seed
  let signedPreKey ← P.generateSignedPreKey 1 identity timestamp
  let kemPreKey ← P.generateKemPreKey 1 identity
  let oneTimePreKeys ← generateOneTimePreKeys oneTimePreKeyBatchSize 0
  return {
    identity := identity
    signedPreKey := signedPreKey
    kemPreKey := kemPreKey
    oneTimePreKeys := oneTimePreKeys }

def noSession (peer : Str) : CryptoError :=
  .ratchet ("no active session with peer '" ++ String.ofList peer ++ "'")

def onPeer {α : Type} (peer : Str) (x : CryptoM TripleRatchetSession α) :
    CryptoM EncryptionManager α := fun (manager, rng) =>
  match manager.sessions peer with
  | none => .error (noSession peer) (manager, rng)
  | some session =>
    match x.run (session, rng) with
    | .ok a (session, rng) => .ok a (manager.insertSession peer session, rng)
    | .error e (session, rng) => .error e (manager.insertSession peer session, rng)

/-- `EncryptionManager::encrypt`. -/
def encrypt (peer : Str) (plaintext : List UInt8) : CryptoM EncryptionManager EncryptedMessage :=
  onPeer peer (P.encryptMessage plaintext)

/-- `EncryptionManager::decrypt`. -/
def decrypt (peer : Str) (message : EncryptedMessage) : CryptoM EncryptionManager (List UInt8) :=
  onPeer peer (P.decryptMessage message)

def createPreKeyBundle (manager : EncryptionManager) : PreKeyBundle :=
  P.publish manager.identity manager.signedPreKey manager.kemPreKey manager.oneTimePreKeys.head?

/-- The messages that wait for the peer's bundle, and only those. -/
def awaitingBundleQueue (manager : EncryptionManager) (peer : Str) : List (List UInt8) :=
  match manager.pendingExchanges peer with
  | some (.awaitingBundle queued) => queued
  | _ => []

/-- Our half of an exchange, with the peer's bundle: what to send to the peer. -/
def handleBundleResponse (peer : Str) (bundle : PreKeyBundle) :
    CryptoM EncryptionManager (X3DHInitMessage × List EncryptedMessage) := do
  let (manager, _) ← get
  let (result, init) ← P.x3dhSender manager.identity bundle
  modifyState (·.insertPeerIdentity peer bundle.identityPublic)
  let session ← stateless
    (P.initSender result.sharedSecret bundle.signedPreKey.publicKey bundle.kemPreKey.publicKey)
  let (manager, _) ← get
  let queued := manager.awaitingBundleQueue peer
  modifyState (·.removePending peer)
  let (encryptedQueued, session) ← onSession session (encryptAll P.toPrimitives queued)
  modifyState (·.insertPending peer (.awaitingComplete session []))
  return (init, encryptedQueued)

/-- The secret of an exchange that a peer began; the one-time pre-key is used up. -/
def receiveSecret (init : X3DHInitMessage) : CryptoM EncryptionManager Key := do
  let (manager, _) ← get
  let (oneTimePreKey, manager') := manager.takeOneTimePreKey init.usedOneTimePreKeyId
  modifyState fun _ => manager'
  check (P.x3dhReceiver manager.identity manager.signedPreKey manager.kemPreKey oneTimePreKey init)

/-- The responder's step: a session from the initiator's message, and the acknowledgement. -/
def handleInitMessage (peer : Str) (init : X3DHInitMessage) :
    CryptoM EncryptionManager KeyExchangeMessage := do
  let sharedSecret ← receiveSecret P init
  modifyState (·.insertPeerIdentity peer init.senderIdentity)
  let (manager, _) ← get
  let session ← check
    (P.initReceiver sharedSecret manager.signedPreKey.keyPair manager.kemPreKey.kemPair)
  modifyState (·.insertSession peer session)
  return .complete

/-! ## What the halves of an exchange leave -/

section Halves

variable {P} {σ : Type} {manager manager' : EncryptionManager} {rng rng' : OsRng} {peer : Str}
  {bundle : PreKeyBundle} {init : X3DHInitMessage}

theorem x3dhSender_within (sender : IdentityKeyPair) (bundle : PreKeyBundle) :
    Within (Unchanged Prod.fst) (P.x3dhSender sender bundle : CryptoM σ _) := by
  refine (within_check _).bind fun _ => ?_
  refine Within.bind (fun _ => rfl) fun ephemeral => ?_
  refine (within_check _).bind fun dh1 => ?_
  refine (within_check _).bind fun dh2 => ?_
  refine (within_check _).bind fun dh3 => ?_
  refine (within_check _).bind fun dh4 => ?_
  refine Within.bind ?_ fun encapsulated => ?_
  · rintro ⟨s, rng⟩
    unfold wp
    rw [Primitives.run_encapsulate]
    cases P.kemEncapsulate bundle.kemPreKey.publicKey rng.encapsulation.head <;> rfl
  · exact (within_check _).bind fun sharedSecret => within_pure _

def Encrypts (P : Primitives) (plaintext : List UInt8) (message : EncryptedMessage) : Prop :=
  ∃ s s', (P.encryptMessage plaintext).run s = .ok message s'

theorem encryptAll_ok {plaintexts : List (List UInt8)} {messages : List EncryptedMessage}
    {s s' : TripleRatchetSession × OsRng}
    (hrun : (encryptAll P.toPrimitives plaintexts).run s = .ok messages s') :
    List.Forall₂ (Encrypts P.toPrimitives) plaintexts messages := by
  induction plaintexts generalizing messages s with
  | nil =>
    obtain ⟨rfl, -⟩ := EStateM.Result.ok.inj hrun
    exact .nil
  | cons plaintext plaintexts ih =>
    obtain ⟨message, t, hfirst, hrest⟩ := run_bind_eq_ok.mp hrun
    obtain ⟨rest, r, hall, hpure⟩ := run_bind_eq_ok.mp hrest
    obtain ⟨rfl, rfl⟩ := EStateM.Result.ok.inj hpure
    exact .cons ⟨s, t, hfirst⟩ (ih hall)

/-- **Our half of an exchange**: once there is a session, what waited for the bundle is encrypted
with it, and it waits for the peer's acknowledgement. -/
theorem handleBundleResponse_run {result : X3DHSenderResult} {session : TripleRatchetSession}
    {rng₁ rng₂ : OsRng}
    (hsender : (P.x3dhSender manager.identity bundle).run (manager, rng) =
      .ok (result, init) (manager, rng₁))
    (hsession : (P.initSender result.sharedSecret bundle.signedPreKey.publicKey
      bundle.kemPreKey.publicKey).run ((), rng₁) = .ok session ((), rng₂)) :
    (handleBundleResponse P peer bundle).run (manager, rng) =
      match (encryptAll P.toPrimitives (manager.awaitingBundleQueue peer)).run (session, rng₂) with
      | .ok encryptedQueued (session, rng) =>
        .ok (init, encryptedQueued)
          ((manager.insertPeerIdentity peer bundle.identityPublic).insertPending peer
            (.awaitingComplete session []), rng)
      | .error e (_, rng) =>
        .error e ((manager.insertPeerIdentity peer bundle.identityPublic).removePending peer, rng) := by
  have hqueue : (manager.insertPeerIdentity peer bundle.identityPublic).awaitingBundleQueue peer =
      manager.awaitingBundleQueue peer := rfl
  simp only [handleBundleResponse, EStateM.run_bind, EStateM.run_get, hsender, run_modifyState,
    run_stateless, hsession, hqueue, run_onSession]
  cases (encryptAll P.toPrimitives (manager.awaitingBundleQueue peer)).run (session, rng₂) with
  | error e s => rfl
  | ok encryptedQueued s =>
    have hidem : ∀ pending,
        ((manager.insertPeerIdentity peer bundle.identityPublic).removePending peer).insertPending
          peer pending =
        (manager.insertPeerIdentity peer bundle.identityPublic).insertPending peer pending := by
      intro pending
      simp only [removePending, insertPending, Function.update_idem]
    simp only [run_modifyState, hidem]
    rfl

/-- **After our half**, the exchange waits for the peer's acknowledgement, and what waited for the
bundle was encrypted. -/
theorem handleBundleResponse_ok {encryptedQueued : List EncryptedMessage}
    (hrun : (handleBundleResponse P peer bundle).run (manager, rng) =
      .ok (init, encryptedQueued) (manager', rng')) :
    (∃ session, manager' =
      (manager.insertPeerIdentity peer bundle.identityPublic).insertPending peer
        (.awaitingComplete session [])) ∧
      List.Forall₂ (Encrypts P.toPrimitives) (manager.awaitingBundleQueue peer) encryptedQueued := by
  cases hsender : (P.x3dhSender manager.identity bundle).run (manager, rng) with
  | error e s =>
    simp only [handleBundleResponse, EStateM.run_bind, EStateM.run_get, hsender] at hrun
    cases hrun
  | ok result s =>
    obtain ⟨manager₁, rng₁⟩ := s
    obtain ⟨result, init'⟩ := result
    obtain rfl : manager₁ = manager := (x3dhSender_within manager.identity bundle).ok hsender
    cases hsession : (P.initSender result.sharedSecret bundle.signedPreKey.publicKey
        bundle.kemPreKey.publicKey).run ((), rng₁) with
    | error e s =>
      simp only [handleBundleResponse, EStateM.run_bind, EStateM.run_get, hsender, run_modifyState,
        run_stateless, hsession] at hrun
      cases hrun
    | ok session s =>
      rw [handleBundleResponse_run hsender hsession] at hrun
      split at hrun
      · next hencrypt =>
        obtain ⟨hresult, hstate⟩ := EStateM.Result.ok.inj hrun
        obtain ⟨-, rfl⟩ := Prod.mk.inj hresult
        obtain ⟨rfl, -⟩ := Prod.mk.inj hstate
        exact ⟨⟨_, rfl⟩, encryptAll_ok hencrypt⟩
      · cases hrun

theorem receiveSecret_run (init : X3DHInitMessage) (manager : EncryptionManager) (rng : OsRng) :
    (receiveSecret P init).run (manager, rng) =
      match P.x3dhReceiver manager.identity manager.signedPreKey manager.kemPreKey
          (manager.takeOneTimePreKey init.usedOneTimePreKeyId).1 init with
      | .ok sharedSecret =>
        .ok sharedSecret ((manager.takeOneTimePreKey init.usedOneTimePreKeyId).2, rng)
      | .error e => .error e ((manager.takeOneTimePreKey init.usedOneTimePreKeyId).2, rng) := by
  simp only [receiveSecret, EStateM.run_bind, EStateM.run_get, run_modifyState, run_check]
  cases P.x3dhReceiver manager.identity manager.signedPreKey manager.kemPreKey
      (manager.takeOneTimePreKey init.usedOneTimePreKeyId).1 init <;> rfl

/-- **The half of an exchange that the peer began**: the one-time pre-key is taken, whether or not
the secret can be derived; if it can, there is a session. What is pending stays as it was. -/
theorem handleInitMessage_run (peer : Str) (init : X3DHInitMessage) (manager : EncryptionManager)
    (rng : OsRng) :
    (handleInitMessage P peer init).run (manager, rng) =
      match P.x3dhReceiver manager.identity manager.signedPreKey manager.kemPreKey
          (manager.takeOneTimePreKey init.usedOneTimePreKeyId).1 init with
      | .ok sharedSecret =>
        .ok .complete
          (((manager.takeOneTimePreKey init.usedOneTimePreKeyId).2.insertPeerIdentity peer
              init.senderIdentity).insertSession peer
            ((P.keySchedule sharedSecret manager.signedPreKey.keyPair rng).receiverSession
              manager.kemPreKey.kemPair), rng)
      | .error e => .error e ((manager.takeOneTimePreKey init.usedOneTimePreKeyId).2, rng) := by
  have htake : (manager.takeOneTimePreKey init.usedOneTimePreKeyId).2.signedPreKey =
        manager.signedPreKey ∧
      (manager.takeOneTimePreKey init.usedOneTimePreKeyId).2.kemPreKey = manager.kemPreKey := by
    cases init.usedOneTimePreKeyId <;> exact ⟨rfl, rfl⟩
  obtain ⟨hsigned, hkem⟩ := htake
  rw [← hsigned, ← hkem]
  simp only [handleInitMessage, EStateM.run_bind, receiveSecret_run, EStateM.run_get, run_check,
    hsigned, hkem]
  cases P.x3dhReceiver manager.identity manager.signedPreKey manager.kemPreKey
      (manager.takeOneTimePreKey init.usedOneTimePreKeyId).1 init with
  | error e => rfl
  | ok sharedSecret =>
    rw [← hsigned, ← hkem]
    rfl

end Halves

/-! ## Genuine managers -/

/-- **Genuine managers**: the pre-keys are genuine, and no two one-time pre-keys have the same
id. -/
structure Genuine (manager : EncryptionManager) : Prop extends
    P.Genuine manager.identity manager.signedPreKey manager.kemPreKey where
  oneTimeIds : (manager.oneTimePreKeys.map (·.id)).Nodup

section Genuine

variable {P} {manager : EncryptionManager}

theorem generateOneTimePreKeys_run (n : ℕ) (first : UInt32) (rng : OsRng) :
    ∃ preKeys rng', (generateOneTimePreKeys n first).run ((), rng) = .ok preKeys ((), rng') ∧
      preKeys.map (·.id) = (List.range n).map fun i => first + UInt32.ofNat i := by
  induction n generalizing first rng with
  | zero => exact ⟨[], rng, rfl, rfl⟩
  | succ n ih =>
    obtain ⟨preKeys, rng', hrun, hids⟩ := ih (first + 1) { rng with x25519 := rng.x25519.tail }
    refine ⟨⟨first, ⟨rng.x25519.head⟩⟩ :: preKeys, rng', ?_, ?_⟩
    · simp only [generateOneTimePreKeys, IdentityPrimitives.generateOneTimePreKey, EStateM.run_bind,
        run_generateKeyPair, EStateM.run_pure, hrun]
    · rw [List.map_cons, hids, List.range_succ_eq_map, List.map_cons, List.map_map]
      simp only [List.cons.injEq, List.map_inj_left, Function.comp_apply]
      refine ⟨(UInt32.add_zero first).symm, fun i _ => ?_⟩
      rw [Nat.succ_eq_add_one, UInt32.ofNat_add, UInt32.add_assoc, UInt32.add_comm (UInt32.ofNat i)]
      rfl

/-- **A new manager is genuine**, and has neither sessions nor pending exchanges. -/
theorem newManager_genuine (h : P.Correct) (seed : Bytes 32) (timestamp : UInt64) (rng : OsRng) :
    ∃ manager rng', (newManager P seed timestamp).run ((), rng) = .ok manager ((), rng') ∧
      Genuine P manager ∧ manager.sessions = (fun _ => none) ∧
      manager.pendingExchanges = fun _ => none := by
  have hsign : ∀ (dhKey : KeyPair) (message : List UInt8), ∃ signature,
      P.sign ⟨P.signingGenerate seed, dhKey⟩ message = .ok signature ∧
        P.verifySignature (P.signingGenerate seed).vk message signature = true := by
    intro dhKey message
    obtain ⟨signature, heq⟩ := Option.isSome_iff_exists.mp
      (h.signDeterministic_isSome (P.signingGenerate seed).sk message)
    refine ⟨signature, ?_, h.verifySignature_eq seed message signature heq⟩
    unfold IdentityPrimitives.sign
    rw [heq]
  obtain ⟨signature, hsigned, hverified⟩ :=
    hsign ⟨rng.x25519.head⟩ (P.publicKey ⟨rng.x25519.tail.head⟩).val
  obtain ⟨kemSignature, hkemSigned, hkemVerified⟩ :=
    hsign ⟨rng.x25519.head⟩ (P.kemGenerate rng.mlKem.head).ek.val
  obtain ⟨preKeys, rng', hpreKeys, hids⟩ := generateOneTimePreKeys_run oneTimePreKeyBatchSize 0
    { rng with x25519 := rng.x25519.tail.tail, mlKem := rng.mlKem.tail }
  refine ⟨
    { identity := ⟨P.signingGenerate seed, ⟨rng.x25519.head⟩⟩
      signedPreKey := ⟨1, ⟨rng.x25519.tail.head⟩, signature, timestamp⟩
      kemPreKey := ⟨1, P.kemGenerate rng.mlKem.head, kemSignature⟩
      oneTimePreKeys := preKeys }, rng', ?_, ?_, rfl, rfl⟩
  · simp only [newManager, IdentityPrimitives.generateIdentity,
      IdentityPrimitives.generateSignedPreKey, IdentityPrimitives.generateKemPreKey,
      EStateM.run_bind, EStateM.run_pure, run_generateKeyPair, Primitives.run_generateKemKeyPair,
      run_check, hsigned, hkemSigned, hpreKeys]
  · refine ⟨⟨hverified, hkemVerified, _, rfl⟩, ?_⟩
    rw [hids]
    decide

end Genuine

/-! ## Keys that were published -/

section Published

def Offered (manager : EncryptionManager) (oneTimePreKey : Option OneTimePreKey) : Prop :=
  ∀ preKey ∈ oneTimePreKey, preKey ∈ manager.oneTimePreKeys

/-- The manager holds the one-time pre-key that an init message names, if it names one. -/
def HoldsKeyOf (manager : EncryptionManager) (init : X3DHInitMessage) : Prop :=
  ∀ id ∈ init.usedOneTimePreKeyId, ∃ preKey ∈ manager.oneTimePreKeys, preKey.id = id

instance (manager : EncryptionManager) (init : X3DHInitMessage) : Decidable (manager.HoldsKeyOf init) :=
  -- not by enumerating the ids
  @Option.decidableForallMem _ _ (fun _ => inferInstance) init.usedOneTimePreKeyId

/-- A later state of a manager: the long-term keys stay, one-time pre-keys are used up. -/
structure Descends (manager manager' : EncryptionManager) : Prop where
  identity : manager'.identity = manager.identity
  signedPreKey : manager'.signedPreKey = manager.signedPreKey
  kemPreKey : manager'.kemPreKey = manager.kemPreKey
  oneTimePreKeys : manager'.oneTimePreKeys.Sublist manager.oneTimePreKeys

variable {P} {manager manager' : EncryptionManager} {oneTimePreKey : Option OneTimePreKey}
  {init : X3DHInitMessage}

theorem Descends.refl (manager : EncryptionManager) : Descends manager manager :=
  ⟨rfl, rfl, rfl, List.Sublist.refl _⟩

theorem Descends.take (h : Descends manager manager') (id : Option UInt32) :
    Descends manager (manager'.takeOneTimePreKey id).2 := by
  cases id with
  | none => exact h
  | some id => exact { h with oneTimePreKeys := List.eraseP_sublist.trans h.oneTimePreKeys }

theorem Descends.createPreKeyBundle_eq (h : Descends manager manager') :
    ∃ oneTimePreKey, Offered manager oneTimePreKey ∧ createPreKeyBundle P manager' =
      P.publish manager.identity manager.signedPreKey manager.kemPreKey oneTimePreKey := by
  refine ⟨manager'.oneTimePreKeys.head?, fun preKey hhead => ?_, ?_⟩
  · exact h.oneTimePreKeys.subset (List.mem_of_mem_head? hhead)
  · rw [createPreKeyBundle, h.identity, h.signedPreKey, h.kemPreKey]

/-- **The key that a bundle offered** is found as long as the manager holds it. -/
theorem Descends.take_held (hids : (manager.oneTimePreKeys.map (·.id)).Nodup)
    (h : Descends manager manager') (hoffered : Offered manager oneTimePreKey)
    (hused : init.usedOneTimePreKeyId = oneTimePreKey.map (·.id)) (hheld : manager'.HoldsKeyOf init) :
    (manager'.takeOneTimePreKey init.usedOneTimePreKeyId).1 = oneTimePreKey := by
  cases oneTimePreKey with
  | none =>
    rw [hused]
    rfl
  | some preKey =>
    have hid : init.usedOneTimePreKeyId = some preKey.id := hused
    obtain ⟨k, hk, hkid⟩ := hheld preKey.id hid
    have hsome : (manager'.oneTimePreKeys.find? (·.id = preKey.id)).isSome = true :=
      List.find?_isSome.mpr ⟨k, hk, decide_eq_true hkid⟩
    obtain ⟨found, hfound⟩ := Option.isSome_iff_exists.mp hsome
    -- no two keys have the same id
    have hfoundId : found.id = preKey.id := by simpa using List.find?_some hfound
    have hsame : found = preKey := by
      have hmem := h.oneTimePreKeys.subset (List.mem_of_find?_eq_some hfound)
      exact List.inj_on_of_nodup_map hids hmem (hoffered preKey rfl) hfoundId
    rw [hid]
    exact hfound.trans (congrArg some hsame)

/-- **A key that was used up** is not found. -/
theorem take_not_held (hnot : ¬ manager.HoldsKeyOf init) :
    init.usedOneTimePreKeyId ≠ none ∧
      (manager.takeOneTimePreKey init.usedOneTimePreKeyId).1 = none := by
  unfold HoldsKeyOf at hnot
  push Not at hnot
  obtain ⟨id, hid, hnone⟩ := hnot
  rw [Option.mem_def.mp hid]
  refine ⟨Option.some_ne_none id, List.find?_eq_none.mpr fun k hk heq => ?_⟩
  exact hnone k hk (of_decide_eq_true heq)

end Published

/-! ## Toy keys -/

section Toy

/-- Toy primitives whose key derivation passes on one byte of its salt and the length of its key
material. -/
def toyIdentityPrimitives : IdentityPrimitives where
  toPrimitives :=
    { toyPrimitives with
      extract := fun salt ikm => fill 32 fun j =>
        if j = 0 then salt.headD 0 + 1
        else if j = 2 then salt.getD 2 0 + .ofNat ikm.length
        else 0
      expand := fun prk _ n => fill n fun j =>
        if j % 32 = 0 then prk.val.headD 0
        else if j % 32 = 1 then .ofNat (j / 32)
        else if j % 32 = 2 then prk.val.getD 2 0
        else 0 }
  signingGenerate _ := ⟨fill 4032 fun _ => 0, fill 1952 fun _ => 0⟩
  signDeterministic _ _ := some (fill 3309 fun _ => 0)
  verifySignature _ _ _ := true
  parseSignature _ := true

theorem toyIdentityPrimitives_correct : toyIdentityPrimitives.Correct where
  toCorrect := { toyPrimitives_correct with }
  kemEncapsulate_isSome _ _ := rfl
  kemDecapsulate_eq _ _ _ _ heq :=
    congrArg (fun x : KemCiphertext × Key => some x.2) (Option.some.inj heq)
  signDeterministic_isSome _ _ := rfl
  verifySignature_eq _ _ _ _ := rfl
  parseSignature_eq _ _ _ _ := rfl

theorem toyIdentityPrimitives_committing : toyIdentityPrimitives.Committing where
  correct := toyIdentityPrimitives_correct
  aesDecrypt_other := toyPrimitives_committing.aesDecrypt_other

def toyManager : EncryptionManager where
  identity := ⟨toyIdentityPrimitives.signingGenerate toyKey, toyPair⟩
  signedPreKey := ⟨1, toyPair, fill 3309 fun _ => 0, 0⟩
  kemPreKey := ⟨1, toyKemPair, fill 3309 fun _ => 0⟩
  oneTimePreKeys := [⟨0, toyPair⟩, ⟨1, toyPair⟩]

theorem toyManager_genuine : Genuine toyIdentityPrimitives toyManager where
  signed := rfl
  kemSigned := rfl
  kemGenerated := ⟨toyRng.mlKem.head, rfl⟩
  oneTimeIds := by decide

end Toy

end EncryptionManager

end Pirc.Client
