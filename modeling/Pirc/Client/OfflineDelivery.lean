import Pirc.Client.Peers
import Pirc.Lib.Commuting
import Pirc.Server.OfflineStore

/-!
# Client: messages that waited

The server sorts the messages that waited for a user before it delivers them: all key exchanges come
first. The user's app handles them one after the other. Messages of different senders commute,
unless both are key exchanges, which stay in their order. Those of one sender do not: a second key
exchange replaces the session that the messages after the first one were encrypted with.

What the app draws from the system's randomness goes with the message that it is drawn for, so that
the two orders are compared for the same random values.
-/

namespace Pirc.Client

open Crypto Protocol Network Server

/-- A message that waited, with the randomness that is drawn while it is handled. -/
structure WaitingMessage where
  message : Message
  rng : OsRng

/-- The app before it handles a message; what it shows is looked at message by message. -/
def App.ready (app : App) (rng : OsRng) : App := { app with rng := rng, received := [] }

/-- The app handles messages, which are numbered, and shows what it can decrypt. -/
def inbox (P : IdentityPrimitives) : Machine App (WaitingMessage × ℕ) (List (Str × List UInt8)) where
  next app item := ((app.ready item.1.rng).handlePircMessage P item.1.message).2
  out app item := ((app.ready item.1.rng).handlePircMessage P item.1.message).2.received

def decrypted (P : IdentityPrimitives) (app : App) (order : List (WaitingMessage × ℕ)) :
    List (ℕ × List UInt8) :=
  ((inbox P).outputs app order).flatMap fun (item, shown) => shown.map fun e => (item.2, e.2)

def deliveredBefore (item other : WaitingMessage × ℕ) : Bool :=
  OfflineMessageStore.deliveryRank item.1.message ≤ OfflineMessageStore.deliveryRank other.1.message

/-- **The order of delivery**, of the messages with their numbers. -/
def deliveredOrder (queue : List WaitingMessage) : List (WaitingMessage × ℕ) :=
  queue.zipIdx.mergeSort deliveredBefore

/-- **The sort leaves each sender's messages in order**: none of them is delivered before an earlier
one. -/
def SendersInOrder (queue : List WaitingMessage) : Prop :=
  queue.Pairwise fun earlier later =>
    App.sender earlier.message = none ∨ App.sender earlier.message ≠ App.sender later.message ∨
      OfflineMessageStore.deliveryRank earlier.message ≤ OfflineMessageStore.deliveryRank later.message

/-- It is the order in which the store of the server delivers them. -/
theorem map_deliveredOrder (queue : List WaitingMessage) :
    (deliveredOrder queue).map (fun item => item.1.message) =
      OfflineMessageStore.deliveryOrder (queue.map WaitingMessage.message) := by
  have hnumbers : queue.zipIdx.map (fun item => item.1.message) = queue.map WaitingMessage.message := by
    conv_rhs => rw [← List.zipIdx_map_fst 0 queue, List.map_map]
    rfl
  rw [deliveredOrder, OfflineMessageStore.deliveryOrder, ← hnumbers]
  exact List.map_mergeSort fun _ _ _ _ => rfl

theorem deliveredOrder_eq (queue : List WaitingMessage) :
    deliveredOrder queue = queue.zipIdx.insertionSort fun item other =>
      OfflineMessageStore.deliveryRank item.1.message ≤
        OfflineMessageStore.deliveryRank other.1.message := by
  refine mergeSort_eq_insertionSort (r := fun item other : WaitingMessage × ℕ =>
    OfflineMessageStore.deliveryRank item.1.message ≤
      OfflineMessageStore.deliveryRank other.1.message) ?_ ?_ queue.zipIdx
  · exact fun _ _ _ => le_trans
  · exact fun _ _ => le_total _ _

/-! ## Messages that commute -/

section Commuting

variable {P : IdentityPrimitives} {app app' : App} {item other : WaitingMessage × ℕ} {peer : Str}

def Alike (app app' : App) : Prop := ∀ rng, app.ready rng = app'.ready rng

theorem ready_setPeer {session : Option TripleRatchetSession} {pending : Option PendingExchange}
    {rng : OsRng} : (app.setPeer peer session pending).ready rng =
      (app.ready rng).setPeer peer session pending := rfl

theorem inbox_respects : (inbox P).Respects Alike where
  next h item := by
    intro rng
    dsimp only [inbox]
    rw [h item.1.rng]
  out h item := by
    dsimp only [inbox]
    rw [h item.1.rng]

theorem Alike.next_eq (h : Alike app app') : (inbox P).next app item = (inbox P).next app' item := by
  dsimp only [inbox]
  rw [h item.1.rng]

def acknowledged (session : Option TripleRatchetSession) :
    Option PendingExchange → Option TripleRatchetSession × Option PendingExchange
  | some (.awaitingComplete session _) => (some session, none)
  | _ => (session, none)

/-- What an encrypted message makes of the session with its sender, and the text if it is
decrypted. -/
def opened (P : IdentityPrimitives) (rng : OsRng) (data : Str)
    (session : Option TripleRatchetSession) : Option TripleRatchetSession × Option (List UInt8) :=
  match session, (Base64.decode data).map EncryptedMessage.fromBytes with
  | some ratchet, some (.ok encrypted) =>
    match (P.decryptMessage encrypted).run (ratchet, rng) with
    | .ok plaintext (ratchet, _) => (some ratchet, some plaintext)
    | .error _ (ratchet, _) => (some ratchet, none)
  | session, _ => (session, none)

/-- What a message other than a key exchange makes of what is kept of its sender, and the text that
is shown. -/
def senderState (P : IdentityPrimitives) (item : WaitingMessage)
    (session : Option TripleRatchetSession) (pending : Option PendingExchange) :
    (Option TripleRatchetSession × Option PendingExchange) × Option (List UInt8) :=
  match item.message.command with
  | .pirc .keyExchangeComplete => (acknowledged session pending, none)
  | .pirc .encrypted =>
    match item.message.params[1]? with
    | some data =>
      let (session, plaintext) := opened P item.rng data session
      ((session, pending), plaintext)
    | none => ((session, pending), none)
  | _ => ((session, pending), none)

theorem handleComplete_eq (manager : EncryptionManager) (peer : Str) :
    manager.handleComplete peer =
      let after := acknowledged (manager.sessions peer) (manager.pendingExchanges peer)
      manager.setPeer peer after.1 after.2 := by
  unfold EncryptionManager.handleComplete
  rcases hpending : manager.pendingExchanges peer with - | queued | ⟨session, queued⟩
  · simp [acknowledged, EncryptionManager.setPeer, EncryptionManager.removePending]
  · simp [acknowledged, EncryptionManager.setPeer, EncryptionManager.removePending]
  · simp [acknowledged, EncryptionManager.setPeer, EncryptionManager.removePending,
      EncryptionManager.insertSession]

theorem handleEncryptedMessage_eq (app : App) (peer data : Str) :
    let after := opened P app.rng data (app.encryption.sessions peer)
    ∃ rng, app.handleEncryptedMessage P peer data =
      { app.setPeer peer after.1 (app.encryption.pendingExchanges peer) with
        rng := rng
        received := app.received ++ (after.2.map fun text => (peer, text)).toList } := by
  have hunchanged : app.setPeer peer (app.encryption.sessions peer)
      (app.encryption.pendingExchanges peer) = app := App.setPeer_self app peer
  dsimp only [App.handleEncryptedMessage, opened]
  rcases hsession : app.encryption.sessions peer with - | ratchet
  · -- without a session nothing is decrypted
    rw [hsession] at hunchanged
    refine ⟨app.rng, ?_⟩
    rcases (Base64.decode data).map EncryptedMessage.fromBytes with - | e | encrypted
    · simp [hunchanged]
    · simp [hunchanged]
    · simp [App.onEncryption, EncryptionManager.decrypt, EncryptionManager.onPeer, EStateM.run,
        hsession, hunchanged]
  · rw [hsession] at hunchanged
    rcases (Base64.decode data).map EncryptedMessage.fromBytes with - | e | encrypted
    · exact ⟨app.rng, by simp [hunchanged]⟩
    · exact ⟨app.rng, by simp [hunchanged]⟩
    · have hsame : app.encryption.insertSession peer = fun ratchet =>
          app.encryption.setPeer peer (some ratchet) (app.encryption.pendingExchanges peer) := by
        funext ratchet
        simp [EncryptionManager.insertSession, EncryptionManager.setPeer]
      simp only [App.onEncryption, EncryptionManager.decrypt, EncryptionManager.onPeer, EStateM.run,
        hsession, hsame]
      rcases P.decryptMessage encrypted (ratchet, app.rng) with
        ⟨plaintext, ratchet', rng'⟩ | ⟨e, ratchet', rng'⟩
      · exact ⟨rng', rfl⟩
      · exact ⟨rng', by simp [App.setPeer]⟩

/-- **A message other than a key exchange** changes only what is kept of its sender, and depends on
nothing else. -/
theorem inbox_local (hsender : App.sender item.1.message = some peer)
    (hcommand : item.1.message.command ≠ .pirc .keyExchange) :
    let after := senderState P item.1 (app.encryption.sessions peer) (app.encryption.pendingExchanges peer)
    Alike ((inbox P).next app item) (app.setPeer peer after.1.1 after.1.2) ∧
      (inbox P).out app item = (after.2.map fun text => (peer, text)).toList := by
  obtain ⟨⟨⟨prefix_, command, params⟩, rng⟩, number⟩ := item
  have hunchanged : app.setPeer peer (app.encryption.sessions peer)
      (app.encryption.pendingExchanges peer) = app := App.setPeer_self app peer
  rcases prefix_ with - | ⟨server⟩ | ⟨nick, user, host⟩
  · cases hsender
  · cases hsender
  obtain rfl : nick.name = peer := Option.some.inj hsender
  dsimp only [inbox, App.handlePircMessage] at hcommand ⊢
  split
  · exact absurd rfl hcommand
  · -- an acknowledgement
    dsimp only [senderState, App.handleKeyExchangeComplete]
    rw [handleComplete_eq]
    exact ⟨fun _ => rfl, rfl⟩
  · dsimp only [senderState]
    rcases params[1]? with - | data
    · dsimp only
      rw [hunchanged]
      exact ⟨fun _ => rfl, rfl⟩
    · obtain ⟨rng', heq⟩ := handleEncryptedMessage_eq (P := P) (app.ready rng) nick.name data
      dsimp only
      rw [heq]
      exact ⟨fun _ => rfl, rfl⟩
  · next hcomplete hencrypted =>
    have hnothing (session : Option TripleRatchetSession) (pending : Option PendingExchange) :
        senderState P ⟨⟨some (.user nick user host), command, params⟩, rng⟩ session pending =
          ((session, pending), none) := by
      unfold senderState
      split
      · next heq => exact absurd heq hcomplete
      · next heq => exact absurd heq hencrypted
      · rfl
    rw [hnothing]
    dsimp only
    rw [hunchanged]
    exact ⟨fun _ => rfl, rfl⟩

theorem inbox_silent (hsender : App.sender item.1.message = none) :
    Alike ((inbox P).next app item) app ∧ (inbox P).out app item = [] := by
  obtain ⟨⟨⟨prefix_, command, params⟩, rng⟩, number⟩ := item
  rcases prefix_ with - | ⟨server⟩ | ⟨nick, user, host⟩
  · exact ⟨fun _ => rfl, rfl⟩
  · exact ⟨fun _ => rfl, rfl⟩
  · cases hsender

theorem inbox_keeps (hother : App.sender other.1.message ≠ some peer) :
    ((inbox P).next app other).encryption.sessions peer = app.encryption.sessions peer ∧
      ((inbox P).next app other).encryption.pendingExchanges peer = app.encryption.pendingExchanges peer :=
  ⟨App.sessions_handlePircMessage hother, App.pendingExchanges_handlePircMessage hother⟩

/-- **Messages commute** if they have different senders and one of them is no key exchange. -/
theorem inbox_commutes (hsender : App.sender item.1.message = some peer)
    (hcommand : item.1.message.command ≠ .pirc .keyExchange)
    (hother : App.sender other.1.message ≠ some peer) :
    (inbox P).Commutes Alike item other where
  next app := by
    have hfirst := ((@inbox_local P app) hsender hcommand).1
    have hlast := ((@inbox_local P ((inbox P).next app other)) hsender hcommand).1
    obtain ⟨hsession, hpending⟩ := (@inbox_keeps P app _ _) hother
    rw [hsession, hpending] at hlast
    intro rng
    rw [hfirst.next_eq, hlast rng]
    dsimp only [inbox]
    rw [ready_setPeer, App.handlePircMessage_setPeer hother]
  left app := by
    obtain ⟨hsession, hpending⟩ := (@inbox_keeps P app _ _) hother
    rw [(inbox_local hsender hcommand).2, (inbox_local hsender hcommand).2, hsession, hpending]
  right app := by
    have hfirst := ((@inbox_local P app) hsender hcommand).1
    rw [(inbox_respects (P := P)).out hfirst other]
    dsimp only [inbox]
    rw [ready_setPeer, App.handlePircMessage_setPeer hother]
    rfl

theorem inbox_commutes_silent (hsender : App.sender item.1.message = none) :
    (inbox P).Commutes Alike item other where
  next app := by
    have hfirst := ((@inbox_silent P app) hsender).1
    have hlast := ((@inbox_silent P ((inbox P).next app other)) hsender).1
    intro rng
    rw [hfirst.next_eq]
    exact (hlast rng).symm
  left app := by rw [(inbox_silent hsender).2, (inbox_silent hsender).2]
  right app := (inbox_respects (P := P)).out (inbox_silent hsender).1 other

end Commuting

/-- **Messages that waited.** If the sort leaves each sender's messages in order, every message that
the user's app decrypts in the order of the queue, it decrypts in the order of delivery, to the same
text. -/
theorem decrypted_of_sendersInOrder (P : IdentityPrimitives) (app : App)
    {queue : List WaitingMessage} (h : SendersInOrder queue) :
    (decrypted P app (deliveredOrder queue)).Perm (decrypted P app queue.zipIdx) := by
  have hnumbered : queue.zipIdx.Pairwise fun earlier later =>
      deliveredBefore earlier later = false → (inbox P).Commutes Alike earlier later := by
    have hmap : (queue.zipIdx.map Prod.fst).Pairwise _ := (List.zipIdx_map_fst 0 queue).symm ▸ h
    refine (List.pairwise_map.mp hmap).imp ?_
    intro earlier later hinOrder hbefore
    have hrank : OfflineMessageStore.deliveryRank later.1.message <
        OfflineMessageStore.deliveryRank earlier.1.message := by
      simpa [deliveredBefore] using hbefore
    rcases hinOrder with hnone | hother | hle
    · exact inbox_commutes_silent hnone
    · rcases hsender : App.sender earlier.1.message with - | peer
      · exact inbox_commutes_silent hsender
      · refine inbox_commutes hsender ?_ (fun hsame => hother (hsender.trans hsame.symm))
        -- nothing is delivered before a key exchange that it was queued behind
        intro hexchange
        have hzero : OfflineMessageStore.deliveryRank earlier.1.message = 0 := by
          simp [OfflineMessageStore.deliveryRank, hexchange]
        omega
    · omega
  exact ((inbox P).outputs_mergeSort inbox_respects (by simp [deliveredBefore]; omega)
    (by simp [deliveredBefore]; omega) hnumbered).flatMap_right _

/-! ## Two exchanges of one sender -/

section Toy

open EncryptionManager

instance (queue : List WaitingMessage) : Decidable (SendersInOrder queue) :=
  inferInstanceAs (Decidable (queue.Pairwise _))

/-- What waits for bob; requests of his bundle are answered by the server. -/
def waitingForBob (app : App) : List WaitingMessage :=
  (app.written.filter fun msg =>
    msg.params[1]? ≠ some (Base64.encode KeyExchangeMessage.requestBundle.toBytes)).map fun msg =>
      ⟨App.fromUser alice "al".toList "host".toList msg, toyRng⟩

def oneSession : App :=
  toyApp.contacts toyIdentityPrimitives bob.name "one".toList
    (toyManager.createPreKeyBundle toyIdentityPrimitives)

def twoSessions : App :=
  (oneSession.handleEncryptionReset bob.name).contacts toyIdentityPrimitives bob.name "two".toList
    (toyManager.createPreKeyBundle toyIdentityPrimitives)

theorem oneSession_decrypted :
    SendersInOrder (waitingForBob oneSession) ∧
      (decrypted toyIdentityPrimitives toyApp (deliveredOrder (waitingForBob oneSession))).Perm
        (decrypted toyIdentityPrimitives toyApp (waitingForBob oneSession).zipIdx) := by
  have hinOrder : SendersInOrder (waitingForBob oneSession) := by decide +kernel
  exact ⟨hinOrder, decrypted_of_sendersInOrder toyIdentityPrimitives toyApp hinOrder⟩

/-- **The first session is lost**: the message that alice sent before she contacted bob again could
be decrypted where it was queued, but cannot be where it is delivered. -/
theorem first_session_lost :
    (11, utf8 "one".toList) ∈
        decrypted toyIdentityPrimitives toyApp (waitingForBob twoSessions).zipIdx ∧
      (11, utf8 "one".toList) ∉
        decrypted toyIdentityPrimitives toyApp (deliveredOrder (waitingForBob twoSessions)) := by
  rw [deliveredOrder_eq]
  decide +kernel

end Toy

end Pirc.Client
