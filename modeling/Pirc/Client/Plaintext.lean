import Pirc.Client.App
import Pirc.Crypto.Encryption

/-!
# Client: private messages in plain text

A private message to a peer that we have a session with is encrypted, and the session may refuse:
that of a user who was contacted cannot encrypt before the first message of the other one, and no
session can where a post-quantum step is due and the peer's KEM key is not known. The app then sends
the text as it is.
-/

namespace Pirc.Client

open Crypto Protocol Network

inductive AppEvent
  | connected
  | disconnected
  | uploaded
  | arrived (msg : Message)
  | typed (peer text : Str)
  | reset (peer : Str)

def App.react (P : IdentityPrimitives) (app : App) : AppEvent → App
  | .connected => { app with connection := some [] }
  | .disconnected => { app with connection := none }
  | .uploaded => app.uploadPreKeyBundle P
  | .arrived msg => (app.handlePircMessage P msg).2
  | .typed peer text => app.handlePrivateMsgCommand P peer text
  | .reset peer => app.handleEncryptionReset peer

def App.writes (app later : App) : List Message := later.written.drop app.written.length

/-- **A private message leaks**: there is a session with the peer, and a message that carries the
text as it is was written. -/
def App.Leaks (P : IdentityPrimitives) (app : App) (peer text : Str) : Prop :=
  app.encryption.hasSession peer = true ∧
    ∃ msg ∈ app.writes (app.handlePrivateMsgCommand P peer text), msg.command = .privmsg ∧
      text ∈ msg.params

instance (P : IdentityPrimitives) (app : App) (peer text : Str) : Decidable (app.Leaks P peer text) :=
  inferInstanceAs (Decidable (_ ∧ _))

/-- The app, with the texts that it wrote as they are although it had a session. -/
structure AppRun where
  app : App
  leaked : List (Str × Str) := []

def appSystem (P : IdentityPrimitives) : System AppRun AppEvent where
  enabled _ _ := True
  step run
    | .typed peer text =>
      { app := run.app.react P (.typed peer text)
        leaked := run.leaked ++ if run.app.Leaks P peer text then [(peer, text)] else [] }
    | event => { run with app := run.app.react P event }

/-- A private message that is to be sent: if there is a session with the peer, it can encrypt, or
there is no connection, or the codec refuses the text. -/
def App.Encrypts (app : App) (peer text : Str) : Prop :=
  ∀ session ∈ app.encryption.sessions peer, session.CanEncrypt ∨ app.connection = none ∨
    (PircCodec.encode (App.privmsg peer text) []).isOk = false

def Encrypts (run : AppRun) : AppEvent → Prop
  | .typed peer text => run.app.Encrypts peer text
  | _ => True

instance : ∀ (run : AppRun) (event : AppEvent), Decidable (Encrypts run event)
  | run, .typed peer _ => inferInstanceAs (Decidable (∀ session ∈ run.app.encryption.sessions peer, _))
  | _, .connected => .isTrue trivial
  | _, .disconnected => .isTrue trivial
  | _, .uploaded => .isTrue trivial
  | _, .arrived _ => .isTrue trivial
  | _, .reset _ => .isTrue trivial

instance (P : IdentityPrimitives) (run : AppRun) (event : AppEvent) :
    Decidable ((appSystem P).enabled run event) := .isTrue trivial

/-! ## What is written -/

section Writes

variable {P : IdentityPrimitives} {app later : App} {peer text : Str} {written : List Message}
  {session : TripleRatchetSession}

theorem App.written_send (hconnected : app.connection = some written) (msg : Message) :
    (app.send msg).2.written =
      written ++ if (PircCodec.encode msg []).isOk = true then [msg] else [] := by
  unfold App.send App.written
  rw [hconnected]
  rcases PircCodec.encode msg [] with e | line
  · simp [hconnected, Except.isOk, Except.toBool]
  · simp [Except.isOk, Except.toBool]

/-- **A session that can encrypt**: the text is encrypted. -/
theorem App.sendPrivateMessage_of_canEncrypt (h : P.Correct)
    (hsession : app.encryption.sessions peer = some session) (hcan : session.CanEncrypt) :
    ∃ (later : App) (encrypted : EncryptedMessage), later.connection = app.connection ∧
      app.sendPrivateMessage P peer text = (true, later.sendEncryptedMessage peer encrypted) := by
  obtain ⟨encrypted, ⟨session', rng'⟩, hrun, -⟩ :=
    encryptMessage_ok h hcan (utf8 text) app.rng
  refine ⟨{ app with encryption := app.encryption.insertSession peer session', rng := rng' },
    encrypted, rfl, ?_⟩
  have hpeer : EStateM.run (EncryptionManager.encrypt P peer (utf8 text)) (app.encryption,
      app.rng) = .ok encrypted (app.encryption.insertSession peer session', rng') := by
    unfold EStateM.run at hrun
    simp only [EncryptionManager.encrypt, EncryptionManager.onPeer, EStateM.run, hsession, hrun]
  simp only [App.sendPrivateMessage, EncryptionManager.hasSession, hsession, Option.isSome_some,
    if_true, App.onEncryption, hpeer]

/-- **A session that cannot**: the app is told to send the text as it is. -/
theorem App.sendPrivateMessage_of_not_canEncrypt
    (hsession : app.encryption.sessions peer = some session) (hcannot : ¬ session.CanEncrypt) :
    ∃ later : App, later.connection = app.connection ∧
      app.sendPrivateMessage P peer text = (false, later) := by
  obtain ⟨e, ⟨session', rng'⟩, hrun⟩ := encryptMessage_error (P := P) hcannot (utf8 text) app.rng
  refine ⟨{ app with encryption := app.encryption.insertSession peer session', rng := rng' }, rfl, ?_⟩
  have hpeer : EStateM.run (EncryptionManager.encrypt P peer (utf8 text)) (app.encryption,
      app.rng) = .error e (app.encryption.insertSession peer session', rng') := by
    unfold EStateM.run at hrun
    simp only [EncryptionManager.encrypt, EncryptionManager.onPeer, EStateM.run, hsession, hrun]
  simp only [App.sendPrivateMessage, EncryptionManager.hasSession, hsession, Option.isSome_some,
    if_true, App.onEncryption, hpeer]

theorem App.writes_of_canEncrypt (h : P.Correct)
    (hsession : app.encryption.sessions peer = some session) (hcan : session.CanEncrypt) :
    ∀ msg ∈ app.writes (app.handlePrivateMsgCommand P peer text), msg.command = .pirc .encrypted := by
  intro msg hmem
  unfold App.handlePrivateMsgCommand App.writes at hmem
  rcases hconnection : app.connection with - | written
  · simp [hconnection] at hmem
  · obtain ⟨later, encrypted, hsame, hsend⟩ :=
      (@App.sendPrivateMessage_of_canEncrypt _ _ _ text) h hsession hcan
    have hwritten : app.written = written := by simp [App.written, hconnection]
    simp only [hconnection, Option.isNone_some, Bool.false_eq_true, if_false, hsend,
      App.sendEncryptedMessage, App.written_send (hsame.trans hconnection), hwritten,
      List.drop_left] at hmem
    split_ifs at hmem with hok
    · obtain rfl := List.mem_singleton.mp hmem
      rfl
    · cases hmem

theorem App.writes_of_not_canEncrypt (hconnection : app.connection = some written)
    (hsession : app.encryption.sessions peer = some session) (hcannot : ¬ session.CanEncrypt) :
    app.writes (app.handlePrivateMsgCommand P peer text) =
      if (PircCodec.encode (App.privmsg peer text) []).isOk = true then [App.privmsg peer text]
      else [] := by
  obtain ⟨later, hsame, hsend⟩ :=
    (@App.sendPrivateMessage_of_not_canEncrypt P _ _ text) hsession hcannot
  have hwritten : app.written = written := by simp [App.written, hconnection]
  simp only [App.handlePrivateMsgCommand, App.writes, hconnection, Option.isNone_some,
    Bool.false_eq_true, if_false, hsend, App.written_send (hsame.trans hconnection), hwritten,
    List.drop_left]

end Writes

/-! ## Runs -/

section Runs

variable {P : IdentityPrimitives} {app : App} {peer text : Str}

/-- **A private message leaks** exactly if it is not encrypted. -/
theorem App.leaks_iff (h : P.Correct) : app.Leaks P peer text ↔ ¬ app.Encrypts peer text := by
  unfold App.Leaks App.Encrypts EncryptionManager.hasSession
  rcases hsession : app.encryption.sessions peer with - | session
  · simp
  · by_cases hcan : session.CanEncrypt
    · refine iff_of_false ?_ (by simp [hcan])
      rintro ⟨-, msg, hmem, hcommand, -⟩
      cases hcommand.symm.trans (App.writes_of_canEncrypt h hsession hcan msg hmem)
    · rcases hconnection : app.connection with - | written
      · -- nothing is written without a connection
        simp [App.handlePrivateMsgCommand, App.writes, hconnection]
      · rw [App.writes_of_not_canEncrypt hconnection hsession hcan]
        split_ifs with hok
        · refine iff_of_true ⟨rfl, _, List.mem_singleton.mpr rfl, rfl, by simp [App.privmsg]⟩ ?_
          simp [hcan, hok]
        · simp [hok]

/-- **Private messages**: a run leaks none exactly if each is encrypted. -/
theorem leaked_eq_nil_iff (h : P.Correct) (app : App) (events : List AppEvent) :
    (∀ n, ((appSystem P).exec { app } (events.take n)).leaked = []) ↔
      (appSystem P).Legal Encrypts { app } events := by
  have hlegal : ∀ run : AppRun, (appSystem P).Legal System.Free run events := by
    induction events with
    | nil => exact fun _ => trivial
    | cons event events ih => exact fun _ => ⟨trivial, trivial, ih _⟩
  have hstep : ∀ (run : AppRun) (event : AppEvent), (appSystem P).enabled run event → True →
      run.leaked = [] → (((appSystem P).step run event).leaked = [] ↔ Encrypts run event) := by
    intro run event _ _ hnone
    rcases event with - | - | - | msg | ⟨peer, text⟩ | peer
    case typed =>
      have hleaks := (@App.leaks_iff _ run.app peer text) h
      dsimp only [appSystem, Encrypts]
      split_ifs with hleak
      · exact iff_of_false (by simp) (hleaks.mp hleak)
      · exact iff_of_true (by simp [hnone]) (not_not.mp (mt hleaks.mpr hleak))
    all_goals exact iff_of_true hnone trivial
  exact System.forall_take_iff_of_step (P := fun run => run.leaked = [])
    (fun _ _ _ _ => trivial) hstep (hlegal { app }) trivial rfl

end Runs

/-! ## Answers -/

section Toy

open EncryptionManager

theorem validate_alice : Nickname.validate "alice".toList = .ok () := by decide

def fromAlice (msg : Message) : AppEvent :=
  .arrived (App.fromUser ⟨"alice".toList, validate_alice⟩ "al".toList "host".toList msg)

/-- What the other user sends us first: the key exchange, and then what she has to say. -/
@[irreducible] def aliceContacts : List Message :=
  (toyApp.contacts toyIdentityPrimitives "bob".toList "hello".toList
    (toyManager.createPreKeyBundle toyIdentityPrimitives)).written.tail

/-- Her message arrives, and we answer. -/
def answersAfter : List AppEvent := aliceContacts.map fromAlice ++ [.typed "alice".toList "hi".toList]

def answersBefore : List AppEvent :=
  aliceContacts.dropLast.map fromAlice ++ [.typed "alice".toList "hi".toList]

theorem answersAfter_encrypted :
    (appSystem toyIdentityPrimitives).Legal Encrypts { app := toyApp } answersAfter ∧
      ∀ n, ((appSystem toyIdentityPrimitives).exec { app := toyApp } (answersAfter.take n)).leaked =
        [] := by
  have hlegal : (appSystem toyIdentityPrimitives).Legal Encrypts { app := toyApp } answersAfter := by
    decide +kernel
  have hnone := (leaked_eq_nil_iff toyIdentityPrimitives_correct toyApp answersAfter).mpr hlegal
  exact ⟨hlegal, hnone⟩

/-- **An answer in plain text**: the key exchange is there, and the other user's message is not. -/
theorem answer_leaked :
    ((appSystem toyIdentityPrimitives).exec { app := toyApp } answersBefore).leaked =
      [("alice".toList, "hi".toList)] := by
  decide +kernel

end Toy

end Pirc.Client
