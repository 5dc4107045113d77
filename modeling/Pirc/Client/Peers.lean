import Pirc.Client.App

/-!
# Client: one peer at a time

What the app does with a message of a user changes nothing about other users: neither their sessions
nor their pending exchanges, and it does not depend on them.

## Main results

* `sessions_handlePircMessage`, `pendingExchanges_handlePircMessage`: other users are left alone
-/

namespace Pirc.Client

open Crypto Protocol Network

/-- Another session and pending exchange for a peer. -/
def EncryptionManager.setPeer (manager : EncryptionManager) (peer : Str)
    (session : Option TripleRatchetSession) (pending : Option PendingExchange) : EncryptionManager :=
  { manager with
    sessions := Function.update manager.sessions peer session
    pendingExchanges := Function.update manager.pendingExchanges peer pending }

/-- Another session and pending exchange of the manager for a peer. -/
def App.setPeer (app : App) (peer : Str) (session : Option TripleRatchetSession)
    (pending : Option PendingExchange) : App :=
  { app with encryption := app.encryption.setPeer peer session pending }

/-- Two states of the manager that differ only in a peer. -/
def Beside (peer : Str) (session : Option TripleRatchetSession) (pending : Option PendingExchange)
    (s t : EncryptionManager × OsRng) : Prop :=
  t = (s.1.setPeer peer session pending, s.2)

/-! ## Computations -/

section Computations

variable {α : Type} {P : IdentityPrimitives} {peer other : Str}
  {session : Option TripleRatchetSession} {pending : Option PendingExchange}
  {s t : EncryptionManager × OsRng}

theorem together_check {R : EncryptionManager × OsRng → EncryptionManager × OsRng → Prop}
    (x : Except CryptoError α) (h : R s t) : Together R (check x) (check x) s t := by
  rcases x with e | a
  · exact ⟨rfl, h⟩
  · exact ⟨rfl, h⟩

theorem Beside.modifyState {f : EncryptionManager → EncryptionManager}
    (h : Beside peer session pending s t)
    (hf : ∀ manager, f (manager.setPeer peer session pending) =
      (f manager).setPeer peer session pending) :
    Together (Beside peer session pending) (modifyState f) (modifyState f) s t := by
  obtain rfl := h
  exact ⟨rfl, by simp [Beside, hf]⟩

theorem Beside.stateless (x : CryptoM Unit α) (h : Beside peer session pending s t) :
    Together (Beside peer session pending) (stateless x) (stateless x) s t := by
  obtain rfl := h
  obtain ⟨manager, rng⟩ := s
  unfold Together
  rw [run_stateless, run_stateless]
  rcases x.run ((), rng) with ⟨a, u, rng'⟩ | ⟨e, u, rng'⟩
  · exact ⟨rfl, rfl⟩
  · exact ⟨rfl, rfl⟩

theorem Beside.onSession (ratchet : TripleRatchetSession) (x : CryptoM TripleRatchetSession α)
    (h : Beside peer session pending s t) :
    Together (Beside peer session pending) (onSession ratchet x) (onSession ratchet x) s t := by
  obtain rfl := h
  obtain ⟨manager, rng⟩ := s
  unfold Together
  rw [run_onSession, run_onSession]
  rcases x.run (ratchet, rng) with ⟨a, ratchet', rng'⟩ | ⟨e, ratchet', rng'⟩
  · exact ⟨rfl, rfl⟩
  · exact ⟨rfl, rfl⟩

theorem Beside.x3dhSender (sender : IdentityKeyPair) (bundle : PreKeyBundle)
    (h : Beside peer session pending s t) :
    Together (Beside peer session pending) (P.x3dhSender sender bundle) (P.x3dhSender sender bundle)
      s t := by
  unfold IdentityPrimitives.x3dhSender
  refine (together_check _ h).bind fun _ s t h => ?_
  refine Together.bind (R := Beside peer session pending) ?_ fun ephemeral s t h => ?_
  · obtain rfl := h
    exact ⟨rfl, rfl⟩
  refine (together_check _ h).bind fun dh1 s t h => ?_
  refine (together_check _ h).bind fun dh2 s t h => ?_
  refine (together_check _ h).bind fun dh3 s t h => ?_
  refine (together_check _ h).bind fun dh4 s t h => ?_
  refine Together.bind (R := Beside peer session pending) ?_ fun encapsulated s t h => ?_
  · obtain rfl := h
    obtain ⟨manager, rng⟩ := s
    unfold Together
    rw [Primitives.run_encapsulate, Primitives.run_encapsulate]
    rcases P.kemEncapsulate bundle.kemPreKey.publicKey rng.encapsulation.head with - | pair
    · exact ⟨rfl, rfl⟩
    · exact ⟨rfl, rfl⟩
  exact (together_check _ h).bind fun sharedSecret s t h => together_pure _ h

namespace EncryptionManager

theorem setPeer_insertPeerIdentity (manager : EncryptionManager) (identity : IdentityPublicKey) :
    (manager.setPeer peer session pending).insertPeerIdentity other identity =
      (manager.insertPeerIdentity other identity).setPeer peer session pending := rfl

theorem setPeer_removePending (hne : other ≠ peer) (manager : EncryptionManager) :
    (manager.setPeer peer session pending).removePending other =
      (manager.removePending other).setPeer peer session pending := by
  unfold setPeer removePending
  rw [Function.update_comm hne]

theorem setPeer_insertPending (hne : other ≠ peer) (manager : EncryptionManager)
    (pending' : PendingExchange) :
    (manager.setPeer peer session pending).insertPending other pending' =
      (manager.insertPending other pending').setPeer peer session pending := by
  unfold setPeer insertPending
  rw [Function.update_comm hne]

theorem setPeer_insertSession (hne : other ≠ peer) (manager : EncryptionManager)
    (ratchet : TripleRatchetSession) :
    (manager.setPeer peer session pending).insertSession other ratchet =
      (manager.insertSession other ratchet).setPeer peer session pending := by
  unfold setPeer insertSession
  rw [Function.update_comm hne]

theorem sessions_setPeer (hne : other ≠ peer) (manager : EncryptionManager) :
    (manager.setPeer peer session pending).sessions other = manager.sessions other :=
  Function.update_of_ne hne ..

theorem pendingExchanges_setPeer (hne : other ≠ peer) (manager : EncryptionManager) :
    (manager.setPeer peer session pending).pendingExchanges other = manager.pendingExchanges other :=
  Function.update_of_ne hne ..

theorem setPeer_handleComplete (hne : other ≠ peer) (manager : EncryptionManager) :
    (manager.setPeer peer session pending).handleComplete other =
      (manager.handleComplete other).setPeer peer session pending := by
  unfold handleComplete
  rw [pendingExchanges_setPeer hne]
  split
  · rw [setPeer_removePending hne, setPeer_insertSession hne]
  · rw [setPeer_removePending hne]

theorem together_handleBundleResponse (hne : other ≠ peer) (bundle : PreKeyBundle)
    (h : Beside peer session pending s t) :
    Together (Beside peer session pending) (handleBundleResponse P other bundle)
      (handleBundleResponse P other bundle) s t := by
  unfold handleBundleResponse
  rw [together_get]
  obtain rfl := h
  refine (Beside.x3dhSender s.1.identity bundle rfl).bind fun result s t h => ?_
  refine (h.modifyState fun manager => setPeer_insertPeerIdentity manager _).bind fun _ s t h => ?_
  refine (h.stateless _).bind fun ratchet s t h => ?_
  rw [together_get]
  obtain rfl := h
  have hqueue : (s.1.setPeer peer session pending).awaitingBundleQueue other =
      s.1.awaitingBundleQueue other := by
    unfold awaitingBundleQueue
    rw [pendingExchanges_setPeer hne]
  dsimp only
  rw [hqueue]
  refine (Beside.modifyState rfl fun manager => setPeer_removePending hne manager).bind
    fun _ s' t' h => ?_
  refine (h.onSession _ _).bind fun encrypted s t h => ?_
  refine (h.modifyState fun manager => setPeer_insertPending hne manager _).bind fun _ s t h => ?_
  exact together_pure _ h

theorem together_handleInitMessage (hne : other ≠ peer) (init : X3DHInitMessage)
    (h : Beside peer session pending s t) :
    Together (Beside peer session pending) (handleInitMessage P other init)
      (handleInitMessage P other init) s t := by
  obtain rfl := h
  obtain ⟨manager, rng⟩ := s
  have htake : (manager.setPeer peer session pending).takeOneTimePreKey init.usedOneTimePreKeyId =
      ((manager.takeOneTimePreKey init.usedOneTimePreKeyId).1,
        (manager.takeOneTimePreKey init.usedOneTimePreKeyId).2.setPeer peer session pending) := by
    rcases init.usedOneTimePreKeyId with - | id
    · rfl
    · rfl
  unfold Together
  rw [handleInitMessage_run, handleInitMessage_run, htake]
  have hsame : P.x3dhReceiver (manager.setPeer peer session pending).identity
      (manager.setPeer peer session pending).signedPreKey
      (manager.setPeer peer session pending).kemPreKey
      (manager.takeOneTimePreKey init.usedOneTimePreKeyId).1 init =
        P.x3dhReceiver manager.identity manager.signedPreKey manager.kemPreKey
          (manager.takeOneTimePreKey init.usedOneTimePreKeyId).1 init := rfl
  dsimp only
  rw [hsame]
  rcases P.x3dhReceiver manager.identity manager.signedPreKey manager.kemPreKey
      (manager.takeOneTimePreKey init.usedOneTimePreKeyId).1 init with e | secret
  · exact ⟨rfl, rfl⟩
  · refine ⟨rfl, ?_⟩
    unfold Beside
    dsimp only
    rw [setPeer_insertPeerIdentity, setPeer_insertSession hne]
    rfl

theorem together_onPeer (hne : other ≠ peer) (x : CryptoM TripleRatchetSession α)
    (h : Beside peer session pending s t) :
    Together (Beside peer session pending) (onPeer other x) (onPeer other x) s t := by
  obtain rfl := h
  obtain ⟨manager, rng⟩ := s
  unfold Together onPeer EStateM.run
  dsimp only
  rw [sessions_setPeer hne]
  rcases manager.sessions other with - | ratchet
  · exact ⟨rfl, rfl⟩
  · dsimp only
    rcases hrun : x (ratchet, rng) with ⟨a, ratchet', rng'⟩ | ⟨e, ratchet', rng'⟩
    · refine ⟨rfl, ?_⟩
      unfold Beside
      rw [setPeer_insertSession hne]
    · refine ⟨rfl, ?_⟩
      unfold Beside
      rw [setPeer_insertSession hne]

end EncryptionManager

end Computations

/-! ## Messages of other users -/

namespace App

variable {α : Type} {P : IdentityPrimitives} {app : App} {peer other : Str}
  {session : Option TripleRatchetSession} {pending : Option PendingExchange} {msg : Message}

theorem send_setPeer : (app.setPeer peer session pending).send msg =
    ((app.send msg).1, (app.send msg).2.setPeer peer session pending) := by
  rcases app with ⟨- | written, encryption, rng, chunkBufs, received⟩
  · rfl
  · unfold send setPeer
    dsimp only
    rcases PircCodec.encode msg [] with e | line
    · rfl
    · rfl

theorem sendAll_setPeer (msgs : List Message) : (app.setPeer peer session pending).sendAll msgs =
    ((app.sendAll msgs).1, (app.sendAll msgs).2.setPeer peer session pending) := by
  induction msgs generalizing app with
  | nil => rfl
  | cons msg msgs ih =>
    rw [sendAll, sendAll, send_setPeer]
    rcases app.send msg with ⟨- | -, app'⟩
    · rfl
    · exact ih

theorem sendChunkedKeyExchange_setPeer (target data : Str) :
    (app.setPeer peer session pending).sendChunkedKeyExchange target data =
      ((app.sendChunkedKeyExchange target data).1,
        (app.sendChunkedKeyExchange target data).2.setPeer peer session pending) :=
  sendAll_setPeer _

theorem sendEncryptedMessage_setPeer (encrypted : EncryptedMessage) :
    (app.setPeer peer session pending).sendEncryptedMessage other encrypted =
      (app.sendEncryptedMessage other encrypted).setPeer peer session pending := by
  unfold sendEncryptedMessage
  rw [send_setPeer]

theorem onEncryption_setPeer {x : CryptoM EncryptionManager α}
    (h : ∀ s t, Beside peer session pending s t → Together (Beside peer session pending) x x s t) :
    (app.setPeer peer session pending).onEncryption x =
      ((app.onEncryption x).1, (app.onEncryption x).2.setPeer peer session pending) := by
  have hruns := (h (app.encryption, app.rng)
    (app.encryption.setPeer peer session pending, app.rng) rfl).cases
  unfold onEncryption
  obtain ⟨a, s, t, hfirst, hsecond, hbeside⟩ | ⟨e, s, t, hfirst, hsecond, hbeside⟩ := hruns
  · obtain rfl := hbeside
    rw [hfirst]
    dsimp only [setPeer]
    rw [hsecond]
  · obtain rfl := hbeside
    rw [hfirst]
    dsimp only [setPeer]
    rw [hsecond]

theorem handleRequestBundle_setPeer :
    (app.setPeer peer session pending).handleRequestBundle P other =
      (app.handleRequestBundle P other).setPeer peer session pending := by
  unfold handleRequestBundle
  exact congrArg Prod.snd (sendChunkedKeyExchange_setPeer _ _)

theorem handleBundleResponse_setPeer (hne : other ≠ peer) (bundle : PreKeyBundle) :
    (app.setPeer peer session pending).handleBundleResponse P other bundle =
      (app.handleBundleResponse P other bundle).setPeer peer session pending := by
  unfold handleBundleResponse
  rw [onEncryption_setPeer fun s t => EncryptionManager.together_handleBundleResponse hne bundle]
  rcases app.onEncryption (EncryptionManager.handleBundleResponse P other bundle) with
    ⟨e | ⟨init, encrypted⟩, app'⟩
  · rfl
  · dsimp only
    rw [sendChunkedKeyExchange_setPeer]
    rcases app'.sendChunkedKeyExchange other _ with ⟨- | -, app''⟩
    · rfl
    · -- what waited is sent, message by message
      dsimp only
      induction encrypted generalizing app'' with
      | nil => rfl
      | cons first rest ih =>
        rw [List.foldl_cons, List.foldl_cons, sendEncryptedMessage_setPeer]
        exact ih _

theorem handleInitMessage_setPeer (hne : other ≠ peer) (init : X3DHInitMessage) :
    (app.setPeer peer session pending).handleInitMessage P other init =
      (app.handleInitMessage P other init).setPeer peer session pending := by
  unfold handleInitMessage
  rw [onEncryption_setPeer fun s t => EncryptionManager.together_handleInitMessage hne init]
  rcases app.onEncryption (EncryptionManager.handleInitMessage P other init) with
    ⟨e | message, app'⟩
  · rfl
  · rcases message
    all_goals first | rfl | exact congrArg Prod.snd send_setPeer

theorem handleKeyExchangeComplete_setPeer (hne : other ≠ peer) :
    (app.setPeer peer session pending).handleKeyExchangeComplete other =
      (app.handleKeyExchangeComplete other).setPeer peer session pending := by
  unfold handleKeyExchangeComplete setPeer
  dsimp only
  rw [EncryptionManager.setPeer_handleComplete hne]

theorem handleKeyExchangeMessage_setPeer (hne : other ≠ peer) (data : Str) :
    (app.setPeer peer session pending).handleKeyExchangeMessage P other data =
      (app.handleKeyExchangeMessage P other data).setPeer peer session pending := by
  unfold handleKeyExchangeMessage
  split
  · exact handleRequestBundle_setPeer
  · exact handleBundleResponse_setPeer hne _
  · exact handleInitMessage_setPeer hne _
  · exact handleKeyExchangeComplete_setPeer hne
  · rfl

theorem handleEncryptedMessage_setPeer (hne : other ≠ peer) (data : Str) :
    (app.setPeer peer session pending).handleEncryptedMessage P other data =
      (app.handleEncryptedMessage P other data).setPeer peer session pending := by
  unfold handleEncryptedMessage
  split
  · next encrypted _ =>
    rw [onEncryption_setPeer (x := EncryptionManager.decrypt P other encrypted)
      fun s t => EncryptionManager.together_onPeer hne _]
    rcases app.onEncryption _ with ⟨e | plaintext, app'⟩
    · rfl
    · rfl
  · rfl

theorem assemble_setPeer (params : List Str) :
    (app.setPeer peer session pending).assemble other params =
      ((app.assemble other params).1, (app.assemble other params).2.setPeer peer session pending) := by
  unfold assemble
  split
  · split
    · rfl
    · rfl
  · rfl
  · rfl

def sender (msg : Message) : Option Str :=
  match msg.prefix_ with
  | some (.user nick _ _) => some nick.name
  | _ => none

/-- **Messages of other users** are handled in the same way, whatever the state of a peer is, and
leave it as it is. -/
theorem handlePircMessage_setPeer (hne : sender msg ≠ some peer) :
    (app.setPeer peer session pending).handlePircMessage P msg =
      ((app.handlePircMessage P msg).1,
        (app.handlePircMessage P msg).2.setPeer peer session pending) := by
  unfold handlePircMessage
  rcases hlead : msg.prefix_ with - | ⟨server⟩ | ⟨nick, user, host⟩
  · rfl
  · rfl
  · have hother : nick.name ≠ peer := by
      rintro rfl
      exact hne (by rw [sender, hlead])
    dsimp only
    split
    · rw [assemble_setPeer]
      rcases app.assemble nick.name msg.params with ⟨- | data, app'⟩
      · rfl
      · dsimp only
        rw [handleKeyExchangeMessage_setPeer hother]
    · rw [handleKeyExchangeComplete_setPeer hother]
    · rcases msg.params[1]? with - | data
      · rfl
      · dsimp only
        rw [handleEncryptedMessage_setPeer hother]
    · rfl

theorem setPeer_self (app : App) (peer : Str) :
    app.setPeer peer (app.encryption.sessions peer) (app.encryption.pendingExchanges peer) = app := by
  unfold setPeer EncryptionManager.setPeer
  rw [Function.update_eq_self, Function.update_eq_self]

theorem sessions_handlePircMessage (hne : sender msg ≠ some peer) :
    (app.handlePircMessage P msg).2.encryption.sessions peer = app.encryption.sessions peer := by
  have hframe := (@handlePircMessage_setPeer P app _ (app.encryption.sessions peer)
    (app.encryption.pendingExchanges peer)) hne
  rw [setPeer_self] at hframe
  rw [hframe]
  exact Function.update_self ..

theorem pendingExchanges_handlePircMessage (hne : sender msg ≠ some peer) :
    (app.handlePircMessage P msg).2.encryption.pendingExchanges peer =
      app.encryption.pendingExchanges peer := by
  have hframe := (@handlePircMessage_setPeer P app _ (app.encryption.sessions peer)
    (app.encryption.pendingExchanges peer)) hne
  rw [setPeer_self] at hframe
  rw [hframe]
  exact Function.update_self ..

end App

end Pirc.Client
