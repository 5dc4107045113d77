import Pirc.Client.ConnectionFields
import Pirc.Network.Chunks
import Pirc.Network.Codec
import Pirc.Server.Channel
import Pirc.Tui.BufferManager

/-!
# Client: channels after a reconnection

`app/mod.rs`: when the connection is lost, the names of the channel buffers are kept, unless some
are kept already, and once the client is registered again it joins them, ten with one message. The
buffers of group chats are channel buffers too. Where the delay before an attempt is out of range
the program panics and joins nothing any more.
-/

namespace Pirc.Client

open Protocol
open Network (chunks PircCodec.encode)
open Server (ChannelName)
open Tui (BufferManager)

variable {A C : Type}

/-! ## The code -/

def ClientApp.disconnects (app : ClientApp C) (world : World A C) : ConnectionEvent → Bool
  | .lost _ | .registrationTimedOut => true
  | .keepaliveTick =>
    app.connectionMgr.isConnected && app.pingSentAt.any fun sentAt => pongTimeout ≤ world.now - sentAt
  | _ => false

def ClientApp.welcomes (app : ClientApp C) : ConnectionEvent → Bool
  | .message msg _ => msg.command = .numeric 1 && app.registration.isSome
  | _ => false

/-- The app with its buffers and the channels to join again. -/
structure RejoiningApp (C : Type) where
  app : ClientApp C
  buffers : BufferManager
  channelsToRejoin : List Str := []

inductive RejoiningEvent (A C : Type)
  | connection (event : ConnectionEvent) (world : World A C)
  | view (call : BufferManager.Call)

namespace RejoiningApp

variable (s : RejoiningApp C) (world : World A C)

/-- The app once it has first tried to connect. -/
def start (config : ClientConfig) (scrollback : ℕ) (world : World A C) : RejoiningApp C where
  app := (ClientApp.new config).initiateConnection world
  buffers := .new scrollback

/-- Keep the names of the channel buffers, unless some are kept (`handle_disconnect`). -/
def capture : RejoiningApp C :=
  if s.channelsToRejoin = [] then { s with channelsToRejoin := s.buffers.channelNames } else s

/-- Write a message on the connection, if the codec does not refuse it. -/
def send (msg : Message) : RejoiningApp C :=
  match PircCodec.encode msg [] with
  | .ok _ => { s with app := s.app.send world msg }
  | .error _ => s

def rejoinMessages (channels : List Str) : List Message :=
  (chunks 10 channels).map fun chunk => { command := .join, params := [[','].intercalate chunk] }

/-- **Join the channels again**: the messages that are to be sent, and the app. -/
def rejoinChannels : List Message × RejoiningApp C :=
  let channels := s.channelsToRejoin
  let s := { s with channelsToRejoin := [] }
  if channels = [] then ([], s)
  else
    let messages := rejoinMessages channels
    let s := messages.foldl (fun s msg => s.send world msg) s
    let text := "Rejoining ".toList ++ decimal channels.length ++ " channel(s)...".toList
    (messages, { s with app := s.app.pushStatus text })

def handle (event : ConnectionEvent) : RejoiningApp C :=
  let welcomes := s.app.welcomes event
  let s := if s.app.disconnects world event then s.capture else s
  let s := { s with app := s.app.handle world event }
  if welcomes then (s.rejoinChannels world).2 else s

/-- **The app as a system.** Once it has panicked nothing happens any more. -/
def system (A C : Type) : System (RejoiningApp C) (RejoiningEvent A C) where
  enabled s
    | .connection event world => s.app.panicked = true ∨ s.app.Ready world event
    | .view _ => True
  step s e :=
    if s.app.panicked then s
    else
      match e with
      | .connection event world => s.handle world event
      | .view call => { s with buffers := (s.buffers.step call).getD s.buffers }

/-! ## What is to hold -/

def listedNames (msg : Message) : List Str := (msg.params.head?.getD []).splitOn ','

def IsGroupBuffer (name : Str) : Prop := ∃ id : UInt64, name = "group:".toList ++ decimal id.toNat

/-- **The messages join the channels that were open**: each can be written, lists valid names, and
every channel is listed once. -/
structure Restores (messages : List Message) (open_ : List Str) : Prop where
  encodes : ∀ msg ∈ messages, ∃ bytes, PircCodec.encode msg [] = .ok bytes
  valid : ∀ msg ∈ messages, ∀ name ∈ listedNames msg, ChannelName.validate name = .ok ()
  once : ∀ name ∈ open_, ¬ IsGroupBuffer name → (messages.flatMap listedNames).count name = 1

/-- **No name is that of a group chat, and ten of them fit a message.** -/
def Rejoinable (names : List Str) : Prop :=
  (∀ name ∈ names, ¬ IsGroupBuffer name) ∧
    ∀ chunk ∈ chunks 10 names, (utf8 ([','].intercalate chunk)).length ≤ 505

end RejoiningApp

namespace ClientApp

/-- The attempt to connect that an event schedules. -/
def nextAttempt (app : ClientApp C) (world : World A C) (event : ConnectionEvent) : Option ℕ :=
  let again := some (app.reconnectAttempt + 1)
  match event with
  | .lost _ | .registrationTimedOut | .keepaliveTick =>
    if app.disconnects world event ∧ app.connectionMgr.autoReconnect then again else none
  | .reconnect => if app.connectionMgr.isConnected then none else some 1
  | .reconnectTimer =>
    if app.connectionMgr.state.isValidTransition .connecting then
      match world.resolve with
      | .error _ | .ok [] => again
      | .ok (addr :: _) =>
        match world.connect addr with
        | .ok _ => none
        | .error _ => again
    else none
  | .disconnect | .message _ _ => none

variable {app : ClientApp C} {world : World A C} {state : ConnectionState}

/-! ## When the app panics -/

@[simp] theorem frame_transition (app : ClientApp C) (state : ConnectionState) :
    (app.transition state).1.panicked = app.panicked ∧ (app.transition state).1.config = app.config ∧
      (app.transition state).1.reconnectAttempt = app.reconnectAttempt ∧
      (app.transition state).1.connectionMgr.autoReconnect = app.connectionMgr.autoReconnect := by
  cases hvalid : app.connectionMgr.state.isValidTransition state with
  | true => simp [transition_of_valid hvalid]
  | false => simp [transition_of_invalid hvalid]

@[simp] theorem panicked_send (msg : Message) : (app.send world msg).panicked = app.panicked := by
  obtain ⟨sent, hsent⟩ := send_eq app world msg
  rw [hsent]

theorem panicked_scheduleReconnect (attempt : ℕ) :
    (app.scheduleReconnect world attempt).panicked =
      (app.panicked || (backoff app.config.reconnectDelaySecs attempt).isNone) := by
  unfold scheduleReconnect
  cases backoff app.config.reconnectDelaySecs attempt with
  | none => simp
  | some delaySecs => simp [pushStatus]

theorem panicked_connected (conn : C) : (app.connected world conn).panicked = app.panicked := by
  unfold connected beginRegistration
  dsimp only
  split_ifs <;> simp [pushStatus]

theorem panicked_setNicks (nicks : List Str) : (nicks.foldl setNick app).panicked = app.panicked := by
  induction nicks generalizing app with
  | nil => rfl
  | cons nick nicks ih => exact ih

theorem panicked_handleServerMessage (msg : Message) (nicks : List Str) :
    (app.handleServerMessage world msg nicks).panicked = app.panicked := by
  unfold handleServerMessage welcomed
  dsimp only
  split
  · simp
  · split <;> rfl
  · split
    · exact panicked_setNicks nicks
    · split <;> simp [pushStatus, setNick, panicked_setNicks]

/-- **When the app panics**: where the attempt that an event schedules has no delay. -/
theorem panicked_handle (event : ConnectionEvent) :
    (app.handle world event).panicked = (app.panicked ||
      (app.nextAttempt world event).any
        fun attempt => (backoff app.config.reconnectDelaySecs attempt).isNone) := by
  have hlost (reason : Str) : (app.handleDisconnect world reason).panicked = (app.panicked ||
      (if app.connectionMgr.autoReconnect then some (app.reconnectAttempt + 1) else none).any fun attempt =>
        (backoff app.config.reconnectDelaySecs attempt).isNone) := by
    have hnext : (if 0 < app.reconnectAttempt then app.reconnectAttempt + 1 else 1) =
        app.reconnectAttempt + 1 := by
      split_ifs <;> omega
    unfold handleDisconnect
    dsimp only
    rw [hnext]
    cases hauto : app.connectionMgr.autoReconnect <;>
      simp [pushStatus, dropConnection, panicked_scheduleReconnect, hauto]
  cases event with
  | lost reason => simpa [handle, nextAttempt, disconnects] using hlost reason
  | registrationTimedOut => simpa [handle, nextAttempt, disconnects] using hlost _
  | message msg nicks => simpa [handle, nextAttempt] using panicked_handleServerMessage msg nicks
  | disconnect =>
    simp only [handle, nextAttempt, handleDisconnectCommand]
    split_ifs
    · simp [pushStatus, dropConnection]
    · split <;> simp [pushStatus]
  | reconnect =>
    simp only [handle, nextAttempt, handleReconnectCommand]
    split_ifs
    · simp [pushStatus]
    · split <;> simp [pushStatus, panicked_scheduleReconnect]
  | keepaliveTick =>
    simp only [handle, nextAttempt, handleKeepaliveTick, disconnects]
    by_cases hconnected : app.connectionMgr.isConnected = true
    · rw [if_neg (not_not.mpr hconnected)]
      split
      · next sentAt hping =>
        by_cases htimeout : pongTimeout ≤ world.now - sentAt <;> simp [hping, htimeout, hconnected, hlost]
      · next hping => split_ifs <;> simp [hping]
    · simp [hconnected]
  | reconnectTimer =>
    simp only [handle, nextAttempt, attemptReconnect]
    cases hvalid : app.connectionMgr.state.isValidTransition .connecting with
    | false => simp [transition, ConnectionManager.transition, pushStatus, hvalid]
    | true =>
      simp only [transition, ConnectionManager.transition, pushStatus, hvalid, if_true]
      rcases world.resolve with e | - | ⟨addr, rest⟩
      · simp [panicked_scheduleReconnect, ConnectionState.isValidTransition]
      · simp [panicked_scheduleReconnect, ConnectionState.isValidTransition]
      · cases hconnect : world.connect addr <;>
          simp [hconnect, panicked_scheduleReconnect, panicked_connected, ConnectionState.isValidTransition]

/-! ## How an app comes to be connected -/

def StaysOff (app app' : ClientApp C) : Prop :=
  app'.connectionMgr.isConnected = true → app.connectionMgr.isConnected = true

theorem staysOff_of_state {app' : ClientApp C}
    (h : app'.connectionMgr.state = app.connectionMgr.state) : StaysOff app app' := by
  unfold StaysOff ConnectionManager.isConnected
  rw [h]
  exact id

theorem staysOff_transition (app : ClientApp C) (h : ∀ serverName, state ≠ .connected serverName) :
    StaysOff app (app.transition state).1 := by
  cases hvalid : app.connectionMgr.state.isValidTransition state with
  | false => exact staysOff_of_state (congrArg (·.1.connectionMgr.state) (transition_of_invalid hvalid))
  | true =>
    intro hconnected
    rw [transition_of_valid hvalid] at hconnected
    cases state with
    | connected serverName => exact absurd rfl (h serverName)
    | _ => cases hconnected

theorem not_connected_transition :
    ((app.transition .disconnected).1).connectionMgr.isConnected = false := by
  cases hvalid : app.connectionMgr.state.isValidTransition .disconnected with
  | true =>
    rw [transition_of_valid hvalid]
    rfl
  | false =>
    rw [transition_of_invalid hvalid]
    unfold ConnectionManager.isConnected
    cases hstate : app.connectionMgr.state with
    | connected serverName =>
      rw [hstate] at hvalid
      cases hvalid
    | _ => rfl

theorem staysOff_scheduleReconnect (app : ClientApp C) (attempt : ℕ) :
    StaysOff app (app.scheduleReconnect world attempt) := by
  unfold scheduleReconnect
  split
  · exact id
  · exact fun h => staysOff_transition { app with reconnectAttempt := attempt }
      (fun _ => ConnectionState.noConfusion) h

theorem not_connected_handleDisconnect (reason : Str) :
    (app.handleDisconnect world reason).connectionMgr.isConnected = false := by
  let off : ClientApp C := (app.dropConnection.transition .disconnected).1.pushStatus reason
  have hoff : off.connectionMgr.isConnected = false := not_connected_transition
  have hscheduled (attempt : ℕ) : (off.scheduleReconnect world attempt).connectionMgr.isConnected = false :=
    Bool.eq_false_iff.mpr fun h => Bool.eq_false_iff.mp hoff (staysOff_scheduleReconnect off attempt h)
  unfold handleDisconnect
  cases hauto : off.connectionMgr.autoReconnect with
  | true =>
    rw [if_pos hauto]
    exact hscheduled _
  | false =>
    rw [if_neg (Bool.eq_false_iff.mp hauto)]
    exact hoff

@[simp] theorem connectionMgr_send (msg : Message) :
    (app.send world msg).connectionMgr = app.connectionMgr := by
  obtain ⟨sent, hsent⟩ := send_eq app world msg
  rw [hsent]

theorem staysOff_connected (conn : C) : StaysOff app (app.connected world conn) := by
  let joined : ClientApp C := { app with connection := some conn }
  have hstep : StaysOff app (joined.transition .registering).1 :=
    fun h => staysOff_transition joined (fun _ => ConnectionState.noConfusion) h
  have hbegun : StaysOff app ((joined.transition .registering).1.beginRegistration world) := by
    refine fun h => hstep ?_
    unfold beginRegistration at h
    simpa only [pushStatus, connectionMgr_send] using h
  unfold connected
  dsimp only
  split_ifs
  · exact hbegun
  · exact hstep

theorem staysOff_attemptReconnect : StaysOff app (app.attemptReconnect world) := by
  -- a failed attempt is over, and the next one is scheduled
  have hscheduled (off : ClientApp C) (attempt : ℕ) (h : off.connectionMgr.state = .disconnected) :
      StaysOff app (off.scheduleReconnect world attempt) := by
    intro hconnected
    have hoff := staysOff_scheduleReconnect off attempt hconnected
    rw [ConnectionManager.isConnected, h] at hoff
    cases hoff
  unfold attemptReconnect
  cases hvalid : app.connectionMgr.state.isValidTransition .connecting with
  | false => simp [StaysOff, transition, ConnectionManager.transition, pushStatus, hvalid]
  | true =>
    simp only [transition, ConnectionManager.transition, pushStatus, hvalid, if_true]
    rcases world.resolve with e | - | ⟨addr, rest⟩
    · exact hscheduled _ _ rfl
    · exact hscheduled _ _ rfl
    · dsimp only
      rcases world.connect addr with e | conn
      · exact hscheduled _ _ rfl
      · intro hconnected
        have hconnecting := staysOff_connected conn hconnected
        cases hconnecting

theorem state_setNicks (nicks : List Str) :
    (nicks.foldl setNick app).connectionMgr.state = app.connectionMgr.state := by
  induction nicks generalizing app with
  | nil => rfl
  | cons nick nicks ih => exact ih

theorem command_of_welcome {reg : RegistrationState} {msg : Message} {serverName nick message : Str}
    (h : (reg.handleMessage msg).2 = .welcome serverName nick message) : msg.command = .numeric 1 := by
  unfold RegistrationState.handleMessage at h
  split at h <;> first | assumption | cases h

theorem state_handleServerMessage (app : ClientApp C) {msg : Message} {nicks : List Str}
    (h : app.welcomes (.message msg nicks) = false) :
    (app.handleServerMessage world msg nicks).connectionMgr.state = app.connectionMgr.state := by
  unfold handleServerMessage
  dsimp only
  split
  · rw [connectionMgr_send]
  · split
    · rfl
    · rfl
  · cases hreg : app.registration with
    | none => exact state_setNicks nicks
    | some reg =>
      dsimp only
      split
      · next hwelcome =>
        have hcommand := command_of_welcome hwelcome
        unfold welcomes at h
        simp [hcommand, hreg] at h
      · rfl
      · rw [connectionMgr_send]
        rfl
      · rfl
      · exact state_setNicks nicks

theorem staysOff_handleReconnectCommand : StaysOff app (app.handleReconnectCommand world) := by
  let idle : ClientApp C := { app with reconnectAt := none, reconnectAttempt := 0 }
  let requested (off : ClientApp C) : ClientApp C :=
    { off with connectionMgr := { off.connectionMgr with autoReconnect := true } }.pushStatus
      "Manual reconnect requested...".toList
  have hrequested (off : ClientApp C) (hoff : StaysOff app off) :
      StaysOff app ((requested off).scheduleReconnect world 1) :=
    fun h => hoff (staysOff_scheduleReconnect (requested off) 1 h)
  unfold ClientApp.handleReconnectCommand
  split_ifs with hconnected
  · exact fun _ => hconnected
  · dsimp only
    split
    · exact hrequested _ fun h => staysOff_transition idle (fun _ => ConnectionState.noConfusion) h
    · exact hrequested idle id

theorem staysOff_handleDisconnectCommand : StaysOff app (app.handleDisconnectCommand world) := by
  let manual : ClientApp C := { app with
    connectionMgr := { app.connectionMgr with autoReconnect := false }
    reconnectAt := none
    reconnectAttempt := 0 }
  unfold handleDisconnectCommand
  dsimp only
  split_ifs
  · exact fun h => absurd h (Bool.eq_false_iff.mp not_connected_transition)
  · split
    · exact fun h => staysOff_transition manual (fun _ => ConnectionState.noConfusion) h
    · exact id

/-- **How an app comes to be connected**: it was, and goes on without a disconnection, or is
welcomed. -/
theorem connected_handle {event : ConnectionEvent}
    (h : (app.handle world event).connectionMgr.isConnected = true) : app.welcomes event = true ∨
      app.connectionMgr.isConnected = true ∧ app.disconnects world event = false := by
  have hlost : ∀ reason : Str, (app.handleDisconnect world reason).connectionMgr.isConnected ≠
      true := fun reason =>
    Bool.eq_false_iff.mp (not_connected_handleDisconnect reason)
  cases event with
  | reconnect => exact .inr ⟨staysOff_handleReconnectCommand h, rfl⟩
  | disconnect => exact .inr ⟨staysOff_handleDisconnectCommand h, rfl⟩
  | message msg nicks =>
    let heard : ClientApp C := { app with lastMessageReceived := some world.now }
    cases hwelcomes : app.welcomes (.message msg nicks) with
    | true => exact .inl rfl
    | false =>
      have hstate : (app.handle world (.message msg nicks)).connectionMgr.state = app.connectionMgr.state :=
        state_handleServerMessage heard hwelcomes
      exact .inr ⟨staysOff_of_state hstate h, rfl⟩
  | lost reason => exact absurd h (hlost _)
  | registrationTimedOut => exact absurd h (hlost _)
  | reconnectTimer => exact .inr ⟨staysOff_attemptReconnect h, rfl⟩
  | keepaliveTick =>
    have htick : (app.handleKeepaliveTick world).connectionMgr.isConnected = true := h
    unfold handleKeepaliveTick at htick
    by_cases hconnected : app.connectionMgr.isConnected = true
    · refine .inr ⟨hconnected, ?_⟩
      unfold disconnects
      rw [hconnected, Bool.true_and]
      rw [if_neg (not_not.mpr hconnected)] at htick
      cases hping : app.pingSentAt with
      | none => rfl
      | some sentAt =>
        rw [hping] at htick
        dsimp only at htick
        split_ifs at htick with htimeout
        · exact absurd htick (hlost _)
        · exact decide_eq_false htimeout
    · rw [if_pos hconnected] at htick
      exact absurd htick hconnected

end ClientApp

/-! ## What is kept -/

namespace RejoiningApp

variable {s : RejoiningApp C} {world : World A C}

/-- The buffers are in order, and nothing is kept while the app is connected. -/
structure Kept (s : RejoiningApp C) : Prop where
  buffers : s.buffers.Valid
  nothing : s.app.connectionMgr.isConnected = true → s.channelsToRejoin = []

theorem send_frame (msg : Message) :
    (s.send world msg).buffers = s.buffers ∧ (s.send world msg).channelsToRejoin = s.channelsToRejoin ∧
      (s.send world msg).app.connectionMgr = s.app.connectionMgr := by
  unfold send
  cases PircCodec.encode msg [] with
  | ok bytes => exact ⟨rfl, rfl, ClientApp.connectionMgr_send msg⟩
  | error e => exact ⟨rfl, rfl, rfl⟩

theorem foldl_send_frame (messages : List Message) :
    (messages.foldl (fun s msg => s.send world msg) s).buffers = s.buffers ∧
      (messages.foldl (fun s msg => s.send world msg) s).channelsToRejoin = s.channelsToRejoin ∧
      (messages.foldl (fun s msg => s.send world msg) s).app.connectionMgr = s.app.connectionMgr := by
  induction messages generalizing s with
  | nil => exact ⟨rfl, rfl, rfl⟩
  | cons msg messages ih =>
    obtain ⟨hbuffers, hkept, hmgr⟩ := send_frame (s := s) msg
    rw [List.foldl_cons, ih.1, ih.2.1, ih.2.2]
    exact ⟨hbuffers, hkept, hmgr⟩

theorem rejoinChannels_frame :
    (s.rejoinChannels world).2.buffers = s.buffers ∧ (s.rejoinChannels world).2.channelsToRejoin = [] ∧
      (s.rejoinChannels world).2.app.connectionMgr = s.app.connectionMgr := by
  unfold rejoinChannels
  dsimp only
  split_ifs
  · exact ⟨rfl, rfl, rfl⟩
  · exact foldl_send_frame _

theorem capture_frame : s.capture.buffers = s.buffers ∧ s.capture.app = s.app := by
  unfold capture
  split_ifs
  · exact ⟨rfl, rfl⟩
  · exact ⟨rfl, rfl⟩

theorem handle_frame (event : ConnectionEvent) :
    (s.handle world event).buffers = s.buffers ∧
      (s.handle world event).app.connectionMgr = (s.app.handle world event).connectionMgr := by
  unfold handle
  dsimp only
  split_ifs <;> simp [rejoinChannels_frame, capture_frame]

theorem channelsToRejoin_handle (event : ConnectionEvent) :
    (s.handle world event).channelsToRejoin =
      if s.app.welcomes event then []
      else if s.app.disconnects world event then s.capture.channelsToRejoin
      else s.channelsToRejoin := by
  unfold handle
  dsimp only
  split_ifs <;> simp [rejoinChannels_frame]

def Welcomes (s : RejoiningApp C) : RejoiningEvent A C → Prop
  | .connection event _ => s.app.welcomes event = true
  | .view _ => False

/-- The program runs, and the attempt that the event schedules has a delay. -/
def Fits (s : RejoiningApp C) (e : RejoiningEvent A C) : Prop :=
  s.app.panicked = false ∧
    match e with
    | .connection event world =>
      ∀ attempt ∈ s.app.nextAttempt world event, (backoff s.app.config.reconnectDelaySecs attempt).isSome
    | .view _ => True

instance (s : RejoiningApp C) : ∀ e : RejoiningEvent A C, Decidable (s.Fits e)
  | .connection event world =>
    inferInstanceAs (Decidable (_ ∧ ∀ attempt ∈ s.app.nextAttempt world event, _))
  | .view _ => inferInstanceAs (Decidable (_ ∧ True))

theorem step_of_running (h : s.app.panicked = false) (e : RejoiningEvent A C) :
    (system A C).step s e =
      match e with
      | .connection event world => s.handle world event
      | .view call => { s with buffers := (s.buffers.step call).getD s.buffers } :=
  if_neg (by simp [h])

theorem panicked_handle (event : ConnectionEvent) :
    (s.handle world event).app.panicked = (s.app.handle world event).panicked := by
  have hsend : ∀ (messages : List Message) (s : RejoiningApp C),
      (messages.foldl (fun s msg => s.send world msg) s).app.panicked = s.app.panicked := by
    intro messages
    induction messages with
    | nil => exact fun _ => rfl
    | cons msg messages ih =>
      intro s
      rw [List.foldl_cons, ih]
      unfold send
      cases PircCodec.encode msg [] <;> simp
  unfold handle rejoinChannels
  dsimp only
  split_ifs <;> simp [ClientApp.pushStatus, hsend, capture_frame]

/-- **The program still runs** after an event, exactly if it did before and the event fits. -/
theorem running_step (e : RejoiningEvent A C) : ((system A C).step s e).app.panicked = false ↔
    s.Fits e := by
  cases hrunning : s.app.panicked with
  | true =>
    have hstep : (system A C).step s e = s := if_pos hrunning
    simp [hstep, Fits, hrunning]
  | false =>
    rw [step_of_running hrunning]
    cases e with
    | view call => simp [Fits, hrunning]
    | connection event world =>
      simp only [panicked_handle, ClientApp.panicked_handle, Fits, hrunning]
      cases s.app.nextAttempt world event with
      | none => simp
      | some attempt => cases backoff s.app.config.reconnectDelaySecs attempt <;> simp

/-- **The program runs through**, exactly if each event fits. -/
theorem running_exec {ok : RejoiningApp C → RejoiningEvent A C → Prop} {e : RejoiningEvent A C}
    {es : List (RejoiningEvent A C)} (h : (system A C).Legal ok s (e :: es)) :
    ((system A C).exec s (e :: es)).app.panicked = false ↔
      (system A C).Legal (fun s e => s.Fits e) s (e :: es) := by
  induction es generalizing s e with
  | nil => exact (running_step e).trans ⟨fun hfits => ⟨h.1, hfits, trivial⟩, fun hlegal => hlegal.2.1⟩
  | cons e' es ih =>
    obtain ⟨henabled, -, hrest⟩ := h
    refine (ih hrest).trans ⟨fun hlegal => ⟨henabled, ?_, hlegal⟩, fun hlegal => hlegal.2.2⟩
    -- the next event fits, so that the program still runs
    exact (running_step e).mp hlegal.2.1.1

theorem kept_step (h : s.Kept) (e : RejoiningEvent A C) : ((system A C).step s e).Kept := by
  by_cases hpanic : s.app.panicked = true
  · rwa [show (system A C).step s e = s from if_pos hpanic]
  rw [step_of_running (Bool.eq_false_iff.mpr hpanic)]
  cases e with
  | view call =>
    obtain ⟨m, hstep, hvalid, -⟩ := BufferManager.step_valid h.buffers call
    refine ⟨?_, h.nothing⟩
    change ((s.buffers.step call).getD s.buffers).Valid
    rw [hstep]
    exact hvalid
  | connection event world =>
    constructor
    · change (s.handle world event).buffers.Valid
      rw [(handle_frame event).1]
      exact h.buffers
    · intro hconnected
      change (s.handle world event).app.connectionMgr.isConnected = true at hconnected
      rw [(handle_frame event).2] at hconnected
      change (s.handle world event).channelsToRejoin = []
      rw [channelsToRejoin_handle]
      rcases ClientApp.connected_handle hconnected with hwelcomes | ⟨hbefore, hon⟩
      · rw [if_pos hwelcomes]
      · rw [hon, h.nothing hbefore]
        simp

def keptNames (names : List (List Str)) : List Str := (names.find? (· ≠ [])).getD []

/-- The names of the channel buffers at each disconnection of a run. -/
def disconnectNames (s : RejoiningApp C) : List (RejoiningEvent A C) → List (List Str)
  | [] => []
  | e :: es =>
    let rest := disconnectNames ((system A C).step s e) es
    match e with
    | .connection event world =>
      if s.app.disconnects world event then s.buffers.channelNames :: rest else rest
    | .view _ => rest

theorem keptNames_cons (first : List Str) (names : List (List Str)) :
    keptNames (first :: names) = if first = [] then keptNames names else first := by
  unfold keptNames
  rw [List.find?_cons]
  by_cases hfirst : first = []
  · simp [hfirst]
  · simp [hfirst]

theorem channelsToRejoin_capture :
    s.capture.channelsToRejoin = if s.channelsToRejoin = [] then s.buffers.channelNames
      else s.channelsToRejoin := by
  unfold capture
  split_ifs <;> rfl

/-- **What is kept over several attempts**: the names of the first disconnection at which there were
any. -/
theorem channelsToRejoin_exec {es : List (RejoiningEvent A C)}
    (h : (system A C).Legal (fun s e => ¬ s.Welcomes e ∧ s.Fits e) s es) :
    ((system A C).exec s es).channelsToRejoin = keptNames (s.channelsToRejoin :: disconnectNames s es) := by
  induction es generalizing s with
  | nil =>
    rw [keptNames_cons]
    change s.channelsToRejoin = _
    split_ifs with hnone
    · exact hnone
    · rfl
  | cons e es ih =>
    obtain ⟨-, ⟨hwelcomes, hfits⟩, hrest⟩ := h
    change ((system A C).exec ((system A C).step s e) es).channelsToRejoin = _
    rw [ih hrest, keptNames_cons, keptNames_cons]
    have hrunning := step_of_running hfits.1 e
    cases e with
    | view call =>
      rw [disconnectNames, hrunning]
    | connection event world =>
      have hstep : ((system A C).step s (.connection event world)).channelsToRejoin =
          if s.app.disconnects world event then s.capture.channelsToRejoin else s.channelsToRejoin := by
        rw [hrunning]
        exact (channelsToRejoin_handle event).trans (if_neg hwelcomes)
      have hnames : s.disconnectNames (.connection event world :: es) =
          if s.app.disconnects world event then
            s.buffers.channelNames :: ((system A C).step s (.connection event world)).disconnectNames es
          else ((system A C).step s (.connection event world)).disconnectNames es := rfl
      rw [hstep, hnames]
      by_cases hdisconnects : s.app.disconnects world event = true
      · rw [if_pos hdisconnects, if_pos hdisconnects, channelsToRejoin_capture, keptNames_cons]
        by_cases hnone : s.channelsToRejoin = []
        · simp [hnone]
        · simp [hnone]
      · rw [if_neg hdisconnects, if_neg hdisconnects]

/-! ## The messages -/

/-- The name of a channel buffer as it stands in a list of names: it is not empty, has no comma and
no space in it, and does not start with a colon. -/
structure Listable (name : Str) : Prop where
  ne_nil : name ≠ []
  comma : ',' ∉ name
  space : ' ' ∉ name
  head : name.head? ≠ some ':'

theorem notMem_of_validateChannelChars : ∀ {i : ℕ} {s : Str}, Server.validateChannelChars i s = .ok
    () → ',' ∉ s ∧ ' ' ∉ s
  | _, [], _ => ⟨List.not_mem_nil, List.not_mem_nil⟩
  | i, c :: rest, h => by
    unfold Server.validateChannelChars at h
    split_ifs at h with hc
    obtain ⟨hcomma, hspace⟩ := notMem_of_validateChannelChars h
    rw [not_or, not_or] at hc
    exact ⟨List.not_mem_cons_of_ne_of_not_mem (Ne.symm hc.2.1) hcomma,
      List.not_mem_cons_of_ne_of_not_mem (Ne.symm hc.1) hspace⟩

theorem listable_of_valid {name : Str} (h : ChannelName.validate name = .ok ()) : Listable name := by
  unfold ChannelName.validate at h
  cases name with
  | nil => cases h
  | cons first rest =>
    dsimp only at h
    split_ifs at h with hfirst
    obtain ⟨hcomma, hspace⟩ := notMem_of_validateChannelChars h
    have hhash : first = '#' := not_not.mp hfirst
    subst hhash
    exact ⟨List.cons_ne_nil _ _, List.not_mem_cons_of_ne_of_not_mem (by decide) hcomma,
      List.not_mem_cons_of_ne_of_not_mem (by decide) hspace, by simp⟩

theorem listable_of_group {name : Str} (h : IsGroupBuffer name) : Listable name := by
  obtain ⟨id, rfl⟩ := h
  have hdigits : ∀ c : Char, c.isDigit = false → c ∉ decimal id.toNat := by
    intro c hc hmem
    rw [Network.isDigit_of_mem_decimal hmem] at hc
    cases hc
  refine ⟨List.append_ne_nil_of_left_ne_nil (by decide) _, ?_, ?_, by simp⟩
  · exact List.not_mem_append (by decide) (hdigits ',' rfl)
  · exact List.not_mem_append (by decide) (hdigits ' ' rfl)

theorem not_valid_of_group {name : Str} (h : IsGroupBuffer name) : ChannelName.validate name ≠ .ok () := by
  obtain ⟨id, rfl⟩ := h
  exact fun hvalid => by cases hvalid

theorem of_mem_chunks {names chunk : List Str} (h : chunk ∈ chunks 10 names) :
    chunk ≠ [] ∧ ∀ name ∈ chunk, name ∈ names := by
  constructor
  · obtain ⟨i, hi, rfl⟩ := List.mem_map.mp h
    have hlt := List.mem_range.mp hi
    rw [← List.length_pos_iff, List.length_take, List.length_drop]
    omega
  · intro name hname
    have hflatten : (chunks 10 names).flatten = names := Network.chunks_flatten (by decide) names
    rw [← hflatten]
    exact List.mem_flatten_of_mem h hname

theorem needsColon_intercalate {chunk : List Str} (hne : chunk ≠ [])
    (h : ∀ name ∈ chunk, Listable name) : needsColon ([','].intercalate chunk) = false := by
  have hspace : ' ' ∉ [','].intercalate chunk := by
    clear hne
    induction chunk with
    | nil => exact List.not_mem_nil
    | cons name chunk ih =>
      obtain ⟨hname, hrest⟩ := List.forall_mem_cons.mp h
      cases chunk with
      | nil =>
        rw [List.intercalate_singleton]
        exact hname.space
      | cons next chunk =>
        rw [List.intercalate_cons_cons]
        exact List.not_mem_append (List.not_mem_append hname.space (by decide)) (ih hrest)
  obtain ⟨name, chunk, rfl⟩ := List.exists_cons_of_ne_nil hne
  have hname := h name List.mem_cons_self
  -- the parameter begins as the first name does
  obtain ⟨rest, hrest⟩ : ∃ rest, [','].intercalate (name :: chunk) = name ++ rest := by
    cases chunk with
    | nil => exact ⟨[], by rw [List.intercalate_singleton, List.append_nil]⟩
    | cons next chunk => exact ⟨_, by rw [List.intercalate_cons_cons, List.append_assoc]⟩
  obtain ⟨c, cs, rfl⟩ := List.exists_cons_of_ne_nil hname.ne_nil
  have hcolon := hname.head
  unfold needsColon
  rw [hrest] at hspace ⊢
  simp_all

/-- **How long a message is that joins channels.** -/
theorem encode_join_iff {chunk : List Str} (hne : chunk ≠ []) (h : ∀ name ∈ chunk, Listable name) :
    (∃ bytes, PircCodec.encode { command := .join, params := [[','].intercalate chunk] } [] =
      .ok bytes) ↔ (utf8 ([','].intercalate chunk)).length ≤ 505 := by
  have hwire : Message.toWire { command := .join, params := [[','].intercalate chunk] } =
      "JOIN ".toList ++ [','].intercalate chunk := by
    have hparams : Message.paramsToWire [[','].intercalate chunk] = ' ' :: [','].intercalate chunk :=
      if_neg (Bool.eq_false_iff.mp (needsColon_intercalate hne h))
    have hcommand : [] ++ Message.commandToWire .join ++ [' '] = "JOIN ".toList := by decide
    unfold Message.toWire
    rw [hparams, ← hcommand, List.append_assoc _ [' ']]
    rfl
  have hlength :
      (utf8 (Message.toWire { command := .join, params := [[','].intercalate chunk] })).length + 2 =
        (utf8 ([','].intercalate chunk)).length + 7 := by
    rw [hwire, utf8_append, List.length_append]
    have hcommand : (utf8 "JOIN ".toList).length = 5 := by decide
    omega
  have hmax : maxMessageLen = 512 := rfl
  constructor
  · rintro ⟨bytes, hbytes⟩
    have hle := (Network.PircCodec.encode_eq_ok hbytes).1
    omega
  · intro hle
    exact ⟨_, Network.PircCodec.encode_of_le (by omega)⟩

theorem listedNames_join {chunk : List Str} (hne : chunk ≠ []) (h : ∀ name ∈ chunk, Listable name) :
    listedNames { command := .join, params := [[','].intercalate chunk] } = chunk :=
  List.splitOn_intercalate ',' (fun name hname => (h name hname).comma) hne

theorem listedNames_rejoinMessages {names : List Str} (h : ∀ name ∈ names, Listable name) :
    (rejoinMessages names).flatMap listedNames = names := by
  have hchunk : ∀ chunk ∈ chunks 10 names,
      listedNames { command := .join, params := [[','].intercalate chunk] } = chunk := by
    intro chunk hchunk
    obtain ⟨hne, hmem⟩ := of_mem_chunks hchunk
    exact listedNames_join hne fun name hname => h name (hmem name hname)
  unfold rejoinMessages
  rw [List.flatMap_map, List.flatMap_congr hchunk, List.flatMap_id']
  exact Network.chunks_flatten (by decide) names

/-- **Which names are restored**, where each is valid or that of a group chat. -/
theorem restores_iff {names open_ : List Str} (hnames : ∀ name ∈ names, ChannelName.validate name = .ok () ∨
    IsGroupBuffer name) (hopen : open_ = [] ∨ open_ = names) (hnodup : open_.Nodup) :
    Restores (rejoinMessages names) open_ ↔ Rejoinable names := by
  have hlistable : ∀ name ∈ names, Listable name := fun name hname =>
    (hnames name hname).elim listable_of_valid listable_of_group
  have hchunk : ∀ chunk ∈ chunks 10 names, chunk ≠ [] ∧ ∀ name ∈ chunk, Listable name := fun chunk hchunk =>
    ⟨(of_mem_chunks hchunk).1, fun name hname => hlistable name ((of_mem_chunks hchunk).2 name hname)⟩
  have hencodes : (∀ msg ∈ rejoinMessages names, ∃ bytes, PircCodec.encode msg [] = .ok bytes) ↔
      ∀ chunk ∈ chunks 10 names, (utf8 ([','].intercalate chunk)).length ≤ 505 := by
    unfold rejoinMessages
    rw [List.forall_mem_map]
    exact forall₂_congr fun chunk hmem => encode_join_iff (hchunk chunk hmem).1 (hchunk chunk hmem).2
  have hvalid : (∀ msg ∈ rejoinMessages names, ∀ name ∈ listedNames msg,
      ChannelName.validate name = .ok ()) ↔ ∀ name ∈ names, ¬ IsGroupBuffer name := by
    have hmem (name : Str) : name ∈ names ↔ ∃ msg ∈ rejoinMessages names, name ∈ listedNames msg := by
      rw [← List.mem_flatMap, listedNames_rejoinMessages hlistable]
    constructor
    · intro h name hname hgroup
      obtain ⟨msg, hmsg, hlisted⟩ := (hmem name).mp hname
      exact not_valid_of_group hgroup (h msg hmsg name hlisted)
    · intro h msg hmsg name hlisted
      have hname := (hmem name).mpr ⟨msg, hmsg, hlisted⟩
      exact (hnames name hname).resolve_right (h name hname)
  constructor
  · intro h
    exact ⟨hvalid.mp h.valid, hencodes.mp h.encodes⟩
  · rintro ⟨hgroup, hfits⟩
    refine ⟨hencodes.mpr hfits, hvalid.mpr hgroup, fun name hname _ => ?_⟩
    rw [listedNames_rejoinMessages hlistable]
    rcases hopen with rfl | rfl
    · cases hname
    · exact List.count_eq_one_of_mem hnodup hname

/-! ## Reconnecting -/

theorem nodup_channelNames {m : BufferManager} (h : m.Valid) : m.channelNames.Nodup := by
  have hids := List.pairwise_map.mp h.nodup
  refine List.pairwise_filterMap.mpr (hids.imp fun hne name hname name' hname' heq => hne ?_)
  split at hname
  · next hid =>
    split at hname'
    · next hid' =>
      rw [hid, hid', Option.some.inj hname, Option.some.inj hname', heq]
    · cases hname'
    · cases hname'
  · cases hname
  · cases hname

theorem kept_start (config : ClientConfig) (scrollback : ℕ) (first : World A C) :
    (start config scrollback first).Kept :=
  ⟨BufferManager.valid_new scrollback, fun _ => rfl⟩

theorem rejoinChannels_messages : (s.rejoinChannels world).1 = rejoinMessages s.channelsToRejoin := by
  unfold rejoinChannels
  dsimp only
  split_ifs with hnone
  · rw [hnone]
    rfl
  · rfl

theorem mem_of_mem_keptNames {names : List (List Str)} {name : Str} (h : name ∈ keptNames names) :
    ∃ first ∈ names, name ∈ first := by
  unfold keptNames at h
  cases hfind : names.find? (· ≠ []) with
  | none =>
    rw [hfind] at h
    cases h
  | some first =>
    rw [hfind] at h
    exact ⟨first, List.mem_of_find?_eq_some hfind, h⟩

/-- **Which channels are restored** once the connection is lost, and after any number of attempts:
those that were open, exactly if each attempt has a delay, the names that are kept are no group
chats and ten of them always fit a message. -/
theorem rejoin_restores_iff {config : ClientConfig} {scrollback : ℕ} {first : World A C}
    {loss : ConnectionEvent} {lossWorld : World A C} {later : List (RejoiningEvent A C)}
    (hrun : (system A C).Steps System.Free (start config scrollback first) s)
    (hconnected : s.app.connectionMgr.isConnected = true) (hlost : s.app.disconnects lossWorld loss = true)
    (hlater : (system A C).Legal (fun s e => ¬ s.Welcomes e) s (.connection loss lossWorld :: later))
    (hnames : ∀ names ∈ s.disconnectNames (.connection loss lossWorld :: later), ∀ name ∈ names,
      ChannelName.validate name = .ok () ∨ IsGroupBuffer name) (world : World A C) :
    (((system A C).exec s (.connection loss lossWorld :: later)).app.panicked = false ∧
      Restores (((system A C).exec s (.connection loss lossWorld :: later)).rejoinChannels world).1
        s.buffers.channelNames) ↔
      (system A C).Legal (fun s e => s.Fits e) s (.connection loss lossWorld :: later) ∧
        Rejoinable (keptNames (s.disconnectNames (.connection loss lossWorld :: later))) := by
  have hkept : s.Kept := hrun.invariant (fun _ e _ _ h => kept_step h e)
    (kept_start config scrollback first)
  rw [running_exec hlater]
  refine and_congr_right fun hfits => ?_
  have hexec : ((system A C).exec s (.connection loss lossWorld :: later)).channelsToRejoin =
      keptNames (s.disconnectNames (.connection loss lossWorld :: later)) := by
    rw [channelsToRejoin_exec (hlater.and hfits), hkept.nothing hconnected, keptNames_cons, if_pos rfl]
  -- what was open is kept, unless nothing was
  have hopen : s.buffers.channelNames = [] ∨
      s.buffers.channelNames = keptNames (s.disconnectNames (.connection loss lossWorld :: later)) := by
    have hcons : s.disconnectNames (.connection loss lossWorld :: later) =
        s.buffers.channelNames :: ((system A C).step s (.connection loss lossWorld)).disconnectNames
            later :=
      if_pos hlost
    rw [hcons, keptNames_cons]
    by_cases hnone : s.buffers.channelNames = []
    · exact .inl hnone
    · exact .inr (if_neg hnone).symm
  rw [rejoinChannels_messages, hexec]
  refine restores_iff (fun name hname => ?_) hopen (nodup_channelNames hkept.buffers)
  obtain ⟨names, hmem, hname⟩ := mem_of_mem_keptNames hname
  exact hnames names hmem name hname

def unreachable (now : ℕ) : World Unit Unit :=
  { ClientApp.reachable now with connect := fun _ => .error "refused".toList }

def opened (ids : List Tui.BufferId) : RejoiningApp Unit :=
  (system Unit Unit).exec (start {} 100 (ClientApp.reachable 0))
    (.connection (.message { command := .numeric 1, params := ["pirc_user".toList] } [])
      (ClientApp.reachable 1) :: ids.map fun id => .view (.openBuffer id))

/-- The connection is lost, and the first attempt to connect again fails. -/
def failedOnce : List (RejoiningEvent Unit Unit) :=
  [.connection (.lost "reset".toList) (ClientApp.reachable 2),
    .connection .reconnectTimer (unreachable 5002)]

theorem steps_opened (ids : List Tui.BufferId) :
    (system Unit Unit).Steps System.Free (start {} 100 (ClientApp.reachable 0)) (opened ids) := by
  refine System.Legal.steps ⟨.inr rfl, trivial, ?_⟩
  generalize (system Unit Unit).step (start {} 100 (ClientApp.reachable 0)) _ = s
  induction ids generalizing s with
  | nil => exact trivial
  | cons id ids ih => exact ⟨trivial, trivial, ih _⟩

def queryAndChannel : RejoiningApp Unit := opened [.query "bob".toList, .channel "#pirc".toList]

/-- A query and a channel are open. -/
theorem queryAndChannel_restored :
    ((system Unit Unit).exec queryAndChannel failedOnce).app.panicked = false ∧
      Restores
        (((system Unit Unit).exec queryAndChannel failedOnce).rejoinChannels (ClientApp.reachable 9999)).1
        ["#pirc".toList] := by
  let lost : RejoiningEvent Unit Unit := .connection (.lost "reset".toList) (ClientApp.reachable 2)
  have hat : ((system Unit Unit).step queryAndChannel lost).app.reconnectAt = some 5002 := by decide +kernel
  have hlater : (system Unit Unit).Legal (fun s e => ¬ s.Welcomes e) queryAndChannel failedOnce :=
    ⟨.inr rfl, Bool.false_ne_true, .inr ⟨5002, hat, le_rfl⟩, Bool.false_ne_true, trivial⟩
  have hfits : (system Unit Unit).Legal (fun s e => s.Fits e) queryAndChannel failedOnce :=
    ⟨.inr rfl, by decide +kernel, .inr ⟨5002, hat, le_rfl⟩, by decide +kernel, trivial⟩
  have hnames : queryAndChannel.disconnectNames failedOnce = [["#pirc".toList]] := by decide +kernel
  have hvalid : ChannelName.validate "#pirc".toList = .ok () := by decide
  have hrejoinable : Rejoinable ["#pirc".toList] := by
    constructor
    · intro name hname hgroup
      rw [List.mem_singleton.mp hname] at hgroup
      exact not_valid_of_group hgroup hvalid
    · decide
  refine (rejoin_restores_iff (steps_opened _) rfl rfl hlater ?_ _).mpr ?_
  · intro names hmem name hname
    have hfirst : names = ["#pirc".toList] := List.mem_singleton.mp (hnames ▸ hmem)
    rw [hfirst] at hname
    rw [List.mem_singleton.mp hname]
    exact .inl hvalid
  · refine ⟨hfits, ?_⟩
    change Rejoinable (keptNames (queryAndChannel.disconnectNames failedOnce))
    rw [hnames]
    exact hrejoinable

/-- With a group chat open, its name is among those of the channels to join. -/
theorem groupChat_joined :
    ¬ ∀ (config : ClientConfig) (scrollback : ℕ) (first world lossWorld : World Unit Unit)
      (loss : ConnectionEvent) (later : List (RejoiningEvent Unit Unit)) (s : RejoiningApp Unit),
      (system Unit Unit).Steps System.Free (start config scrollback first) s →
      s.app.connectionMgr.isConnected = true → s.app.disconnects lossWorld loss = true →
      (system Unit Unit).Legal (fun s e => ¬ s.Welcomes e) s (.connection loss lossWorld :: later) →
      (∀ names ∈ s.disconnectNames (.connection loss lossWorld :: later), ∀ name ∈ names,
        ChannelName.validate name = .ok () ∨ IsGroupBuffer name) →
      Restores (((system Unit Unit).exec s (.connection loss lossWorld :: later)).rejoinChannels
        world).1 s.buffers.channelNames := by
  intro h
  have hgroup : IsGroupBuffer "group:1".toList := ⟨1, by decide⟩
  have hvalid : ChannelName.validate "#pirc".toList = .ok () := by decide
  have hrestores := h {} 100 (ClientApp.reachable 0) (ClientApp.reachable 9999) (ClientApp.reachable 2)
    (.lost "reset".toList) [] (opened [.channel "#pirc".toList, .channel "group:1".toList])
      (steps_opened _) rfl rfl
    ⟨.inr rfl, Bool.false_ne_true, trivial⟩ ?_
  · have hsent : (((system Unit Unit).exec (opened [.channel "#pirc".toList, .channel "group:1".toList])
        [.connection (.lost "reset".toList) (ClientApp.reachable 2)]).rejoinChannels
          (ClientApp.reachable 9999)).1 =
          [{ command := .join, params := ["#pirc,group:1".toList] }] := rfl
    rw [hsent] at hrestores
    exact not_valid_of_group hgroup (hrestores.valid _ List.mem_cons_self _ (by decide))
  · intro names hmem name hname
    have hnames : (opened [.channel "#pirc".toList, .channel "group:1".toList]).disconnectNames
        [.connection (.lost "reset".toList) (ClientApp.reachable 2)] =
          [["#pirc".toList, "group:1".toList]] := rfl
    rw [hnames] at hmem
    rw [List.mem_singleton.mp hmem] at hname
    rcases List.mem_pair.mp hname with rfl | rfl
    · exact .inl hvalid
    · exact .inr hgroup

end RejoiningApp

end Pirc.Client
