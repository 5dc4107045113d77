import Pirc.Lib.Run
import Pirc.Protocol.Message

/-!
# Client: the fields of the connection

`app/mod.rs` and `connection_state.rs`: the app keeps a state of its connection, in which only some
transitions are allowed, and beside it the connection, the registration and the time of the next
attempt to connect, each of which is there in some of the states. The delay before an attempt is
computed in floating point and panics where it is out of range; then the program ends. What is
shown, other than the lines about the connection, and what plugins and peers are told is not
modelled.
-/

namespace Pirc.Client

open Protocol

/-! ## The state of the connection -/

/-- Where the connection stands. -/
inductive ConnectionState
  | disconnected
  | connecting
  | registering
  | connected (serverName : Str)
  | reconnecting (attempt : ℕ)
  deriving DecidableEq

namespace ConnectionState

def display : ConnectionState → Str
  | disconnected => "Disconnected".toList
  | connecting => "Connecting".toList
  | registering => "Registering".toList
  | connected serverName => "Connected (".toList ++ serverName ++ ")".toList
  | reconnecting attempt => "Reconnecting (attempt ".toList ++ decimal attempt ++ ")".toList

def isValidTransition : ConnectionState → ConnectionState → Bool
  | disconnected, connecting | connecting, registering | connecting, disconnected
  | registering, connected _ | registering, disconnected | connected _, disconnected
  | disconnected, reconnecting _ | reconnecting _, connecting | reconnecting _, disconnected => true
  | _, _ => false

end ConnectionState

structure TransitionError where
  from_ : Str
  to_ : Str
  deriving DecidableEq

structure ClientConfig where
  address : Str := "localhost".toList
  port : ℕ := 6667
  autoReconnect : Bool := true
  nick : Option Str := none
  altNicks : List Str := []
  realname : Option Str := none
  reconnectDelaySecs : ℕ := 5

structure ConnectionManager where
  state : ConnectionState := .disconnected
  serverAddr : Str
  nick : Str
  autoReconnect : Bool

namespace ConnectionManager

def new (config : ClientConfig) : ConnectionManager where
  serverAddr := config.address ++ ':' :: decimal config.port
  nick := config.nick.getD "pirc_user".toList
  autoReconnect := config.autoReconnect

/-- Only the transitions that are listed are made. -/
def transition (mgr : ConnectionManager) (state : ConnectionState) :
    Except TransitionError ConnectionManager :=
  if mgr.state.isValidTransition state then .ok { mgr with state := state }
  else .error ⟨mgr.state.display, state.display⟩

def isConnected (mgr : ConnectionManager) : Bool :=
  match mgr.state with
  | .connected _ => true
  | _ => false

end ConnectionManager

/-! ## Registration -/

/-- A registration that goes on: the nickname it tries, and those it falls back to. -/
structure RegistrationState where
  currentNick : Str
  username : Str
  realname : Str
  altNicks : List Str
  altNickIndex : ℕ := 0
  primaryNick : Str
  underscoreCount : ℕ := 0
  deriving DecidableEq

inductive RegistrationEvent
  | welcome (serverName nick message : Str)
  | info (text : Str)
  | nickRetry (newNick : Str) (nickMessage : Message)
  | nickError (reason : Str)
  | unhandled

namespace RegistrationState

def new (nick : Str) (altNicks : List Str) (username realname : Str) : RegistrationState where
  currentNick := nick
  username := username
  realname := realname
  altNicks := altNicks
  primaryNick := nick

def nickMessage (reg : RegistrationState) : Message :=
  { command := .nick, params := [reg.currentNick] }

def userMessage (reg : RegistrationState) : Message :=
  { command := .user, params := [reg.username, "0".toList, "*".toList, reg.realname] }

/-- The next nickname to try: the alternatives in turn, and then the first one with underscores. -/
def nextNick (reg : RegistrationState) : RegistrationState :=
  match reg.altNicks[reg.altNickIndex]? with
  | some nick => { reg with currentNick := nick, altNickIndex := reg.altNickIndex + 1 }
  | none =>
    { reg with
      currentNick := reg.primaryNick ++ List.replicate (reg.underscoreCount + 1) '_'
      underscoreCount := reg.underscoreCount + 1 }

/-- What the registration makes of a message. -/
def handleMessage (reg : RegistrationState) (msg : Message) :
    RegistrationState × RegistrationEvent :=
  match msg.command with
  | .numeric 1 =>
    let serverName := (msg.prefix_.map Prefix.toWire).getD []
    let reg :=
      match msg.params.head? with
      | some nick => if nick.isEmpty then reg else { reg with currentNick := nick }
      | none => reg
    (reg, .welcome serverName reg.currentNick (msg.params.getLast?.getD []))
  | .numeric 2 | .numeric 3 | .numeric 4 => (reg, .info (msg.params.getLast?.getD []))
  | .numeric 433 | .numeric 436 =>
    let reg := reg.nextNick
    (reg, .nickRetry reg.currentNick reg.nickMessage)
  | .numeric 432 => (reg, .nickError (msg.params.getLast?.getD "Erroneous nickname".toList))
  | _ => (reg, .unhandled)

end RegistrationState

/-! ## The delay before an attempt -/

/-- `as f64` of a `u64`: 53 bits are kept, and half way between two numbers the even one is
taken. -/
def asF64 (n : ℕ) : ℕ :=
  let unit := 2 ^ (n.log2 - 52)
  let low := n / unit * unit
  if unit < 2 * (n - low) ∨ unit = 2 * (n - low) ∧ n / unit % 2 = 1 then low + unit else low

/-- **The delay before an attempt** in seconds: the configured one, doubled with each attempt after
the first. `Duration::from_secs_f64` panics from `2 ^ 64` seconds on, and where the power of two is
infinite: 0 times it is no number. -/
def backoff (base attempt : ℕ) : Option ℕ :=
  let delaySecs := asF64 base * 2 ^ (attempt - 1)
  if attempt ≤ 1024 ∧ delaySecs < 2 ^ 64 then some delaySecs else none

/-- With the default delay, 62 attempts in a row have a delay. -/
example : (backoff 5 62).isSome ∧ backoff 5 63 = none ∧ backoff (2 ^ 64 - 1) 1 = none := by
  decide +kernel

/-! ## The app -/

def registrationTimeout : ℕ := 30000

def keepaliveIdleThreshold : ℕ := 60000

def pongTimeout : ℕ := 120000

def maxReconnectDelay : ℕ := 60000

/-- The app with its connection. What was written on connections and what was shown about them is
kept, the oldest first. After a panic the program has ended. -/
structure ClientApp (C : Type) where
  config : ClientConfig
  connectionMgr : ConnectionManager
  connection : Option C := none
  registration : Option RegistrationState := none
  registrationDeadline : Option ℕ := none
  lastMessageReceived : Option ℕ := none
  pingSentAt : Option ℕ := none
  lagMs : Option ℕ := none
  reconnectAt : Option ℕ := none
  reconnectAttempt : ℕ := 0
  sent : List Message := []
  status : List Str := []
  panicked : Bool := false

/-- What the world does while an event is handled: the time, how the address of the server is
resolved, which addresses can be connected to, what the jitter makes of a delay, whether what is
written on the connection is taken, and the token of a ping. -/
structure World (A C : Type) where
  now : ℕ
  resolve : Except Str (List A)
  connect : A → Except Str C
  jitter : ℕ → ℕ
  takes : Bool
  token : Str

/-- The events of the app, after the first attempt to connect. A message that is for nobody else is
routed, and may bring new nicknames of the user. -/
inductive ConnectionEvent
  | reconnect
  | disconnect
  | message (msg : Message) (nicks : List Str)
  | lost (reason : Str)
  | registrationTimedOut
  | keepaliveTick
  | reconnectTimer

namespace ClientApp

variable {A C : Type} (app : ClientApp C) (world : World A C)

def new (config : ClientConfig) : ClientApp C where
  config := config
  connectionMgr := .new config

def pushStatus (text : Str) : ClientApp C := { app with status := app.status ++ [text] }

/-- Write a message on the connection, which may not take it. -/
def send (msg : Message) : ClientApp C :=
  if app.connection.isSome ∧ world.takes then { app with sent := app.sent ++ [msg] } else app

/-- Take a transition of the connection's state and go on with whether it was allowed. -/
def transition (state : ConnectionState) : ClientApp C × Bool :=
  match app.connectionMgr.transition state with
  | .ok mgr => ({ app with connectionMgr := mgr }, true)
  | .error _ => (app, false)

def beginRegistration : ClientApp C :=
  let nick := app.connectionMgr.nick
  let reg := RegistrationState.new nick app.config.altNicks nick (app.config.realname.getD nick)
  let app := (app.send world reg.nickMessage).send world reg.userMessage
  { app with
    registration := some reg
    registrationDeadline := some (world.now + registrationTimeout) }.pushStatus
      ("Connected to ".toList ++ app.connectionMgr.serverAddr ++ ", registering...".toList)

def connected (conn : C) : ClientApp C :=
  let app := { app with connection := some conn }
  let (app, allowed) := app.transition .registering
  if allowed then app.beginRegistration world else app

def connectFirst : List A → Option Str → ClientApp C
  | [], lastErr =>
    let app := (app.transition .disconnected).1
    match lastErr with
    | some e => app.pushStatus ("Connection failed: ".toList ++ e)
    | none => app
  | addr :: addrs, _ =>
    match world.connect addr with
    | .ok conn => app.connected world conn
    | .error e => connectFirst addrs (some e)

/-- Look up the server and connect to the first of its addresses that answers. -/
def initiateConnection : ClientApp C :=
  let unresolved := "Could not resolve ".toList ++ app.connectionMgr.serverAddr
  match world.resolve with
  | .error e => app.pushStatus (unresolved ++ ": ".toList ++ e)
  | .ok [] => app.pushStatus unresolved
  | .ok addrs =>
    let (app, allowed) := app.transition .connecting
    if allowed then app.connectFirst world addrs none else app

/-- Set the time of an attempt; the program panics if the delay is out of range. -/
def scheduleReconnect (attempt : ℕ) : ClientApp C :=
  match backoff app.config.reconnectDelaySecs attempt with
  | none => { app with panicked := true }
  | some delaySecs =>
    let capped := min (1000 * delaySecs) maxReconnectDelay
    let delay := min (world.jitter capped) maxReconnectDelay
    let app := { app with reconnectAttempt := attempt }
    let app := (app.transition (.reconnecting attempt)).1
    { app with reconnectAt := some (world.now + delay) }.pushStatus
      ("Reconnecting in ".toList ++ decimal (delay / 1000) ++ "s... (attempt ".toList ++
        decimal attempt ++ ")".toList)

def dropConnection : ClientApp C :=
  { app with
    connection := none
    registration := none
    registrationDeadline := none
    lastMessageReceived := none
    pingSentAt := none
    lagMs := none }

/-- The connection is lost. -/
def handleDisconnect (reason : Str) : ClientApp C :=
  let nextAttempt := if 0 < app.reconnectAttempt then app.reconnectAttempt + 1 else 1
  let app := (app.dropConnection.transition .disconnected).1
  let app := app.pushStatus reason
  if app.connectionMgr.autoReconnect then app.scheduleReconnect world nextAttempt else app

/-- Try again, and schedule the next attempt if this one fails. -/
def attemptReconnect : ClientApp C :=
  let app := { app with reconnectAt := none }
  let attempt := app.reconnectAttempt
  let app := app.pushStatus
    ("Reconnecting... (attempt ".toList ++ decimal attempt ++ ")".toList)
  let (app, allowed) := app.transition .connecting
  if allowed then
    let unresolved := "Could not resolve ".toList ++ app.connectionMgr.serverAddr
    let failed (text : Str) : ClientApp C :=
      ((app.transition .disconnected).1.pushStatus text).scheduleReconnect world (attempt + 1)
    match world.resolve with
    | .error e => failed (unresolved ++ ": ".toList ++ e)
    | .ok [] => failed unresolved
    | .ok (addr :: _) =>
      match world.connect addr with
      | .ok conn => app.connected world conn
      | .error e => failed ("Reconnect failed: ".toList ++ e)
  else app

def handleReconnectCommand : ClientApp C :=
  if app.connectionMgr.isConnected then app.pushStatus "Already connected".toList
  else
    let app := { app with reconnectAt := none, reconnectAttempt := 0 }
    let app :=
      match app.connectionMgr.state with
      | .reconnecting _ => (app.transition .disconnected).1
      | _ => app
    let app := { app with connectionMgr := { app.connectionMgr with autoReconnect := true } }
    (app.pushStatus "Manual reconnect requested...".toList).scheduleReconnect world 1

def handleDisconnectCommand : ClientApp C :=
  let app := { app with
    connectionMgr := { app.connectionMgr with autoReconnect := false }
    reconnectAt := none
    reconnectAttempt := 0 }
  if app.connection.isSome ∨ app.connectionMgr.isConnected then
    let app := app.send world { command := .quit, params := ["Disconnected".toList] }
    (app.dropConnection.transition .disconnected).1.pushStatus
      "Disconnected (auto-reconnect disabled)".toList
  else
    match app.connectionMgr.state with
    | .reconnecting _ =>
      (app.transition .disconnected).1.pushStatus
        "Reconnect cancelled (auto-reconnect disabled)".toList
    | _ => app.pushStatus "Not connected (auto-reconnect disabled)".toList

def setNick (nick : Str) : ClientApp C :=
  { app with connectionMgr := { app.connectionMgr with nick := nick } }

def welcomed (serverName nick message : Str) : ClientApp C :=
  let name := if serverName.isEmpty then app.connectionMgr.serverAddr else serverName
  let app := ((app.transition (.connected name)).1).setNick nick
  { app with
    registration := none
    registrationDeadline := none
    reconnectAt := none
    reconnectAttempt := 0 }.pushStatus message

/-- A message from the server. During a registration the registration sees it first. -/
def handleServerMessage (msg : Message) (nicks : List Str) : ClientApp C :=
  let route (app : ClientApp C) := nicks.foldl setNick app
  match msg.command with
  | .ping => app.send world { command := .pong, params := [msg.params.head?.getD []] }
  | .pong =>
    match app.pingSentAt with
    | none => app
    | some sentAt =>
      { app with pingSentAt := none, lagMs := some (min (world.now - sentAt) (2 ^ 32 - 1)) }
  | _ =>
    match app.registration with
    | none => route app
    | some reg =>
      let (reg, event) := reg.handleMessage msg
      let app := { app with registration := some reg }
      match event with
      | .welcome serverName nick message => app.welcomed serverName nick message
      | .info text => app.pushStatus text
      | .nickRetry newNick nickMessage =>
        ((app.pushStatus ("Nick in use, trying ".toList ++ newNick ++ "...".toList)).setNick
          newNick).send world nickMessage
      | .nickError reason => app.pushStatus ("Nick error: ".toList ++ reason)
      | .unhandled => route app

/-- The keepalive timer: a ping that was not answered in time, or a ping where the server has been
silent. -/
def handleKeepaliveTick : ClientApp C :=
  if ¬ app.connectionMgr.isConnected then app
  else
    match app.pingSentAt with
    | some sentAt =>
      if pongTimeout ≤ world.now - sentAt then
        app.handleDisconnect world "Connection timed out (no PONG received)".toList
      else app
    | none =>
      if app.lastMessageReceived.all fun t => keepaliveIdleThreshold ≤ world.now - t then
        if app.connection.isSome ∧ world.takes then
          { app.send world { command := .ping, params := [world.token] } with
            pingSentAt := some world.now }
        else app
      else app

def handle : ConnectionEvent → ClientApp C
  | .reconnect => app.handleReconnectCommand world
  | .disconnect => app.handleDisconnectCommand world
  | .message msg nicks =>
    { app with lastMessageReceived := some world.now }.handleServerMessage world msg nicks
  | .lost reason => app.handleDisconnect world reason
  | .registrationTimedOut =>
    app.handleDisconnect world "Registration timed out (no RPL_WELCOME within 30s)".toList
  | .keepaliveTick => app.handleKeepaliveTick world
  | .reconnectTimer => app.attemptReconnect world

/-- Messages come from a connection, and timers go off that are set. -/
def Ready : ConnectionEvent → Prop
  | .message _ _ | .lost _ => app.connection.isSome
  | .registrationTimedOut => ∃ deadline ∈ app.registrationDeadline, deadline ≤ world.now
  | .reconnectTimer => ∃ deadline ∈ app.reconnectAt, deadline ≤ world.now
  | .reconnect | .disconnect | .keepaliveTick => True

/-- **The app as a system**, as long as it does not panic. -/
def system (A C : Type) : System (ClientApp C) (ConnectionEvent × World A C) where
  enabled app := fun (event, world) => app.Ready world event ∧ (app.handle world event).panicked = false
  step app := fun (event, world) => app.handle world event

/-! ## The fields -/

/-- **The fields agree with the state**: the connection is there while the app registers or is
connected, the registration while it registers, and the time of the next attempt while it
reconnects. -/
structure Agrees : Prop where
  connection : app.connection.isSome ↔
    app.connectionMgr.state = .registering ∨ app.connectionMgr.isConnected
  registration : app.registration.isSome ↔ app.connectionMgr.state = .registering
  reconnectAt : app.reconnectAt.isSome ↔
    ∃ attempt, app.connectionMgr.state = .reconnecting attempt

/-- What is there in each state. Between two events the app is not connecting. -/
def Settled : Prop :=
  match app.connectionMgr.state with
  | .disconnected => app.connection = none ∧ app.registration = none ∧
      app.registrationDeadline = none ∧ app.reconnectAt = none
  | .connecting => False
  | .registering => app.connection.isSome ∧ app.registration.isSome ∧
      app.registrationDeadline.isSome ∧ app.reconnectAt = none
  | .connected _ => app.connection.isSome ∧ app.registration = none ∧
      app.registrationDeadline = none ∧ app.reconnectAt = none
  | .reconnecting _ => app.connection = none ∧ app.registration = none ∧
      app.registrationDeadline = none ∧ app.reconnectAt.isSome

variable {app world} {state : ConnectionState}

theorem Settled.agrees (h : app.Settled) : app.Agrees := by
  unfold Settled at h
  cases hstate : app.connectionMgr.state <;> rw [hstate] at h
  case connecting => exact h.elim
  all_goals
    obtain ⟨hconnection, hregistration, -, hat⟩ := h
    constructor <;> simp_all [ConnectionManager.isConnected]

structure Bare (app : ClientApp C) : Prop where
  connection : app.connection = none
  registration : app.registration = none
  deadline : app.registrationDeadline = none

theorem settled_of_disconnected (hstate : app.connectionMgr.state = .disconnected) (h : app.Bare)
    (hat : app.reconnectAt = none) : app.Settled := by
  unfold Settled
  rw [hstate]
  exact ⟨h.connection, h.registration, h.deadline, hat⟩

theorem Settled.cases_of_none (h : app.Settled) (hconnection : app.connection = none) :
    app.Bare ∧ (app.connectionMgr.state = .disconnected ∧ app.reconnectAt = none ∨
      ∃ attempt, app.connectionMgr.state = .reconnecting attempt) := by
  unfold Settled at h
  cases hstate : app.connectionMgr.state with
  | disconnected =>
    rw [hstate] at h
    obtain ⟨-, hregistration, hdeadline, hat⟩ := h
    exact ⟨⟨hconnection, hregistration, hdeadline⟩, .inl ⟨rfl, hat⟩⟩
  | connecting =>
    rw [hstate] at h
    exact h.elim
  | registering =>
    rw [hstate, hconnection] at h
    cases h.1
  | connected serverName =>
    rw [hstate, hconnection] at h
    cases h.1
  | reconnecting attempt =>
    rw [hstate] at h
    obtain ⟨-, hregistration, hdeadline, -⟩ := h
    exact ⟨⟨hconnection, hregistration, hdeadline⟩, .inr ⟨attempt, rfl⟩⟩

theorem Settled.cases_of_some (h : app.Settled) (hconnection : app.connection.isSome) :
    app.reconnectAt = none ∧ (app.connectionMgr.state = .registering ∧
        app.registrationDeadline.isSome ∧ app.registration.isSome ∨
      ∃ serverName, app.connectionMgr.state = .connected serverName ∧ app.registration = none) := by
  unfold Settled at h
  cases hstate : app.connectionMgr.state with
  | disconnected =>
    rw [hstate] at h
    rw [h.1] at hconnection
    cases hconnection
  | connecting =>
    rw [hstate] at h
    exact h.elim
  | registering =>
    rw [hstate] at h
    obtain ⟨-, hregistration, hdeadline, hat⟩ := h
    exact ⟨hat, .inl ⟨rfl, hdeadline, hregistration⟩⟩
  | connected serverName =>
    rw [hstate] at h
    obtain ⟨-, hregistration, -, hat⟩ := h
    exact ⟨hat, .inr ⟨serverName, rfl, hregistration⟩⟩
  | reconnecting attempt =>
    rw [hstate] at h
    rw [h.1] at hconnection
    cases hconnection

/-! ## Transitions -/

theorem transition_of_valid (h : app.connectionMgr.state.isValidTransition state = true) :
    app.transition state =
      ({ app with connectionMgr := { app.connectionMgr with state := state } }, true) := by
  unfold transition ConnectionManager.transition
  rw [if_pos h]

theorem transition_of_invalid (h : app.connectionMgr.state.isValidTransition state = false) :
    app.transition state = (app, false) := by
  unfold transition ConnectionManager.transition
  rw [if_neg (by rw [h]; exact Bool.false_ne_true)]

theorem send_eq (app : ClientApp C) (world : World A C) (msg : Message) :
    ∃ sent, app.send world msg = { app with sent := sent } := by
  unfold send
  split_ifs
  · exact ⟨_, rfl⟩
  · exact ⟨app.sent, rfl⟩

theorem settled_send (msg : Message) : (app.send world msg).Settled ↔ app.Settled := by
  obtain ⟨sent, hsend⟩ := send_eq app world msg
  rw [hsend]
  rfl

/-! ## Connecting -/

theorem beginRegistration_settled (hstate : app.connectionMgr.state = .registering)
    (hconnection : app.connection.isSome) (hat : app.reconnectAt = none) :
    (app.beginRegistration world).Settled := by
  unfold beginRegistration
  dsimp only
  obtain ⟨sent, hsend⟩ := send_eq app world
    (RegistrationState.new app.connectionMgr.nick app.config.altNicks app.connectionMgr.nick
      (app.config.realname.getD app.connectionMgr.nick)).nickMessage
  obtain ⟨sent', hsend'⟩ := send_eq { app with sent := sent } world
    (RegistrationState.new app.connectionMgr.nick app.config.altNicks app.connectionMgr.nick
      (app.config.realname.getD app.connectionMgr.nick)).userMessage
  rw [hsend, hsend']
  unfold Settled pushStatus
  dsimp only
  rw [hstate]
  exact ⟨hconnection, rfl, rfl, hat⟩

theorem connected_settled (hstate : app.connectionMgr.state = .connecting)
    (hat : app.reconnectAt = none) (conn : C) : (app.connected world conn).Settled := by
  let joined : ClientApp C := { app with connection := some conn }
  have hvalid : joined.connectionMgr.state.isValidTransition .registering = true := by
    change app.connectionMgr.state.isValidTransition .registering = true
    rw [hstate]
    rfl
  unfold connected
  dsimp only
  rw [transition_of_valid hvalid]
  exact beginRegistration_settled rfl rfl hat

theorem connectFirst_settled (hstate : app.connectionMgr.state = .connecting) (h : app.Bare)
    (hat : app.reconnectAt = none) (addrs : List A) (lastErr : Option Str) :
    (app.connectFirst world addrs lastErr).Settled := by
  induction addrs generalizing lastErr with
  | nil =>
    have hvalid : app.connectionMgr.state.isValidTransition .disconnected = true := by
      rw [hstate]
      rfl
    have hdown : ({ app with
        connectionMgr := { app.connectionMgr with state := .disconnected } } : ClientApp C).Settled :=
      settled_of_disconnected rfl ⟨h.connection, h.registration, h.deadline⟩ hat
    unfold connectFirst
    rw [transition_of_valid hvalid]
    cases lastErr with
    | none => exact hdown
    | some e => exact hdown
  | cons addr addrs ih =>
    unfold connectFirst
    cases world.connect addr with
    | ok conn => exact connected_settled hstate hat conn
    | error e => exact ih (some e)

theorem initiateConnection_settled (hstate : app.connectionMgr.state = .disconnected)
    (h : app.Bare) (hat : app.reconnectAt = none) : (app.initiateConnection world).Settled := by
  let connecting : ClientApp C :=
    { app with connectionMgr := { app.connectionMgr with state := .connecting } }
  have hidle : app.Settled := settled_of_disconnected hstate h hat
  have hconnecting : connecting.connectionMgr.state = .connecting := rfl
  have hbare : connecting.Bare := ⟨h.connection, h.registration, h.deadline⟩
  have htried (addrs : List A) : (connecting.connectFirst world addrs none).Settled :=
    connectFirst_settled hconnecting hbare hat addrs none
  have hvalid : app.connectionMgr.state.isValidTransition .connecting = true := by
    rw [hstate]
    rfl
  unfold initiateConnection
  dsimp only
  split
  · exact hidle
  · exact hidle
  · rw [transition_of_valid hvalid]
    exact htried _

/-! ## Losing the connection, and trying again -/

theorem scheduleReconnect_settled (hstate : app.connectionMgr.state = .disconnected) (h : app.Bare)
    (hat : app.reconnectAt = none) (attempt : ℕ) : (app.scheduleReconnect world attempt).Settled := by
  let counted : ClientApp C := { app with reconnectAttempt := attempt }
  have hvalid : counted.connectionMgr.state.isValidTransition (.reconnecting attempt) = true := by
    change app.connectionMgr.state.isValidTransition (.reconnecting attempt) = true
    rw [hstate]
    rfl
  unfold scheduleReconnect
  split
  · exact settled_of_disconnected hstate ⟨h.connection, h.registration, h.deadline⟩ hat
  · dsimp only
    rw [transition_of_valid hvalid]
    exact ⟨h.connection, h.registration, h.deadline, rfl⟩

theorem handleDisconnect_settled
    (hvalid : app.connectionMgr.state.isValidTransition .disconnected = true)
    (hat : app.reconnectAt = none) (reason : Str) : (app.handleDisconnect world reason).Settled := by
  let down : ClientApp C := { app.dropConnection with
    connectionMgr := { app.connectionMgr with state := .disconnected } }
  have htransition : app.dropConnection.transition .disconnected = (down, true) :=
    transition_of_valid hvalid
  have hbare : (down.pushStatus reason).Bare := ⟨rfl, rfl, rfl⟩
  unfold handleDisconnect
  dsimp only
  rw [htransition]
  dsimp only
  cases (down.pushStatus reason).connectionMgr.autoReconnect with
  | true => exact scheduleReconnect_settled rfl hbare hat _
  | false => exact settled_of_disconnected rfl hbare hat

theorem attemptReconnect_settled (h : app.Bare) {n : ℕ}
    (hstate : app.connectionMgr.state = .reconnecting n) : (app.attemptReconnect world).Settled := by
  let told : ClientApp C := { app with reconnectAt := none }.pushStatus
    ("Reconnecting... (attempt ".toList ++ decimal app.reconnectAttempt ++ ")".toList)
  let connecting : ClientApp C :=
    { told with connectionMgr := { app.connectionMgr with state := .connecting } }
  let down : ClientApp C :=
    { told with connectionMgr := { app.connectionMgr with state := .disconnected } }
  have hvalid : told.connectionMgr.state.isValidTransition .connecting = true := by
    change app.connectionMgr.state.isValidTransition .connecting = true
    rw [hstate]
    rfl
  have htold : told.transition .connecting = (connecting, true) := transition_of_valid hvalid
  have hdown : connecting.transition .disconnected = (down, true) := transition_of_valid rfl
  have hconnecting : connecting.connectionMgr.state = .connecting := rfl
  have hfailed (text : Str) :
      ((down.pushStatus text).scheduleReconnect world (app.reconnectAttempt + 1)).Settled := by
    have hstate : (down.pushStatus text).connectionMgr.state = .disconnected := rfl
    have hbare : (down.pushStatus text).Bare := ⟨h.connection, h.registration, h.deadline⟩
    exact scheduleReconnect_settled hstate hbare rfl _
  unfold attemptReconnect
  dsimp only
  rw [htold]
  dsimp only
  rw [if_pos rfl, hdown]
  split
  · exact hfailed _
  · exact hfailed _
  · split
    · exact connected_settled hconnecting rfl _
    · exact hfailed _

/-! ## The events -/

theorem handleReconnectCommand_settled (h : app.Settled)
    (hstate : app.connectionMgr.state ≠ .registering) :
    (app.handleReconnectCommand world).Settled := by
  let auto : ConnectionManager := { app.connectionMgr with autoReconnect := true }
  let idle : ClientApp C :=
    { app with reconnectAt := none, reconnectAttempt := 0 }
  have hscheduled (mgr : ConnectionManager) (hbare : app.Bare) (hdown : mgr.state = .disconnected) :
      (({ idle with connectionMgr := mgr }.pushStatus
        "Manual reconnect requested...".toList).scheduleReconnect world 1).Settled := by
    have hbare' : ({ idle with connectionMgr := mgr }.pushStatus
        "Manual reconnect requested...".toList).Bare :=
      ⟨hbare.connection, hbare.registration, hbare.deadline⟩
    exact scheduleReconnect_settled hdown hbare' rfl 1
  unfold handleReconnectCommand
  split_ifs with hconnected
  · exact h
  · have hnone : app.connection = none := by
      rw [← Option.not_isSome_iff_eq_none, h.agrees.connection]
      exact not_or.mpr ⟨hstate, hconnected⟩
    obtain ⟨hbare, ⟨hdown, -⟩ | ⟨n, hagain⟩⟩ := h.cases_of_none hnone
    · dsimp only
      rw [hdown]
      exact hscheduled auto hbare hdown
    · have hvalid : idle.connectionMgr.state.isValidTransition .disconnected = true := by
        change app.connectionMgr.state.isValidTransition .disconnected = true
        rw [hagain]
        rfl
      dsimp only
      rw [hagain]
      dsimp only
      rw [transition_of_valid hvalid]
      exact hscheduled { auto with state := .disconnected } hbare rfl

theorem handleReconnectCommand_registering (hstate : app.connectionMgr.state = .registering)
    (hrunning : (app.handleReconnectCommand world).panicked = false) :
    ¬ (app.handleReconnectCommand world).Agrees := by
  let requested : ClientApp C := { app with
    reconnectAt := none
    reconnectAttempt := 0
    connectionMgr := { app.connectionMgr with autoReconnect := true } }.pushStatus
      "Manual reconnect requested...".toList
  let counted : ClientApp C := { requested with reconnectAttempt := 1 }
  have hconnected : ¬ app.connectionMgr.isConnected := by
    unfold ConnectionManager.isConnected
    rw [hstate]
    exact Bool.false_ne_true
  have hcommand : app.handleReconnectCommand world = requested.scheduleReconnect world 1 := by
    unfold handleReconnectCommand
    rw [if_neg hconnected]
    dsimp only
    rw [hstate]
  have hrefused : counted.transition (.reconnecting 1) = (counted, false) := by
    apply transition_of_invalid
    change app.connectionMgr.state.isValidTransition (.reconnecting 1) = false
    rw [hstate]
    rfl
  intro hagrees
  rw [hcommand] at hrunning hagrees
  unfold scheduleReconnect at hrunning hagrees
  cases hdelay : backoff requested.config.reconnectDelaySecs 1 with
  | none =>
    rw [hdelay] at hrunning
    cases hrunning
  | some delaySecs =>
    rw [hdelay] at hagrees
    dsimp only at hagrees
    rw [hrefused] at hagrees
    obtain ⟨n, hreconnecting⟩ := hagrees.reconnectAt.mp rfl
    cases hstate.symm.trans hreconnecting

theorem handleDisconnectCommand_settled (h : app.Settled) :
    (app.handleDisconnectCommand world).Settled := by
  let manual : ClientApp C := { app with
    connectionMgr := { app.connectionMgr with autoReconnect := false }
    reconnectAt := none
    reconnectAttempt := 0 }
  unfold handleDisconnectCommand
  dsimp only
  split_ifs with hup
  · have hsome : app.connection.isSome := by
      rcases hup with hsome | hconnected
      · exact hsome
      · exact h.agrees.connection.mpr (.inr hconnected)
    obtain ⟨sent, hsend⟩ := send_eq manual world
      { command := .quit, params := ["Disconnected".toList] }
    have hvalid :
        ({ manual with sent := sent }.dropConnection).connectionMgr.state.isValidTransition
          .disconnected = true := by
      change app.connectionMgr.state.isValidTransition .disconnected = true
      obtain ⟨-, ⟨hstate, -⟩ | ⟨serverName, hstate, -⟩⟩ := h.cases_of_some hsome
      all_goals
        rw [hstate]
        rfl
    rw [hsend, transition_of_valid hvalid]
    exact settled_of_disconnected rfl ⟨rfl, rfl, rfl⟩ rfl
  · have hnone : app.connection = none := Option.not_isSome_iff_eq_none.mp (not_or.mp hup).1
    obtain ⟨hbare, hstate⟩ := h.cases_of_none hnone
    split
    case h_1 n hagain =>
      have hvalid : manual.connectionMgr.state.isValidTransition .disconnected = true := by
        rw [show manual.connectionMgr.state = .reconnecting n from hagain]
        rfl
      rw [transition_of_valid hvalid]
      exact settled_of_disconnected rfl ⟨hnone, hbare.registration, hbare.deadline⟩ rfl
    case h_2 hidle =>
      rcases hstate with ⟨hdown, -⟩ | ⟨n, hagain⟩
      · exact settled_of_disconnected hdown ⟨hnone, hbare.registration, hbare.deadline⟩ rfl
      · exact (hidle n hagain).elim

theorem settled_setNicks (nicks : List Str) : (nicks.foldl setNick app).Settled ↔ app.Settled := by
  induction nicks generalizing app with
  | nil => rfl
  | cons nick nicks ih => exact ih

theorem welcomed_settled (hstate : app.connectionMgr.state = .registering)
    (hconnection : app.connection.isSome) (serverName nick message : Str) :
    (app.welcomed serverName nick message).Settled := by
  have hvalid (name : Str) :
      app.connectionMgr.state.isValidTransition (.connected name) = true := by
    rw [hstate]
    rfl
  unfold welcomed
  dsimp only
  rw [transition_of_valid (hvalid _)]
  exact ⟨hconnection, rfl, rfl, rfl⟩

theorem handleServerMessage_settled (h : app.Settled) (hconnection : app.connection.isSome)
    (msg : Message) (nicks : List Str) : (app.handleServerMessage world msg nicks).Settled := by
  unfold handleServerMessage
  dsimp only
  split
  · exact (settled_send _).mpr h
  · split
    · exact h
    · exact h
  · obtain ⟨hat, ⟨hstate, hdeadline, hregistration⟩ | ⟨serverName, hstate, hregistration⟩⟩ :=
      h.cases_of_some hconnection
    · obtain ⟨reg, hreg⟩ := Option.isSome_iff_exists.mp hregistration
      let kept : ClientApp C := { app with registration := some (reg.handleMessage msg).1 }
      have hkept : kept.Settled := by
        unfold Settled
        rw [show kept.connectionMgr.state = .registering from hstate]
        exact ⟨hconnection, rfl, hdeadline, hat⟩
      have hwelcomed (serverName nick message : Str) :
          (kept.welcomed serverName nick message).Settled :=
        welcomed_settled (show kept.connectionMgr.state = .registering from hstate) hconnection
          serverName nick message
      rw [hreg]
      dsimp only
      split
      · exact hwelcomed _ _ _
      · exact hkept
      · exact (settled_send _).mpr hkept
      · exact hkept
      · exact (settled_setNicks nicks).mpr hkept
    · rw [hregistration]
      exact (settled_setNicks nicks).mpr h

theorem handleKeepaliveTick_settled (h : app.Settled) :
    (app.handleKeepaliveTick world).Settled := by
  unfold handleKeepaliveTick
  by_cases hconnected : app.connectionMgr.isConnected = true
  case neg =>
    rw [if_pos hconnected]
    exact h
  rw [if_neg (not_not.mpr hconnected)]
  have hconnection : app.connection.isSome := h.agrees.connection.mpr (.inr hconnected)
  split
  · split_ifs
    · obtain ⟨hat, ⟨hstate, -⟩ | ⟨serverName, hstate, -⟩⟩ := h.cases_of_some hconnection
      all_goals
        have hvalid : app.connectionMgr.state.isValidTransition .disconnected = true := by
          rw [hstate]
          rfl
        exact handleDisconnect_settled hvalid hat _
    · exact h
  · split_ifs
    · obtain ⟨sent, hsend⟩ := send_eq app world
        { command := .ping, params := [world.token] }
      rw [hsend]
      exact h
    · exact h
    · exact h

theorem handle_settled (h : app.Settled) {event : ConnectionEvent}
    (hreconnect : ¬ (event = .reconnect ∧ app.connectionMgr.state = .registering))
    (henabled : app.Ready world event) : (app.handle world event).Settled := by
  have hlost (hconnection : app.connection.isSome) (reason : Str) :
      (app.handleDisconnect world reason).Settled := by
    obtain ⟨hat, ⟨hstate, -⟩ | ⟨serverName, hstate, -⟩⟩ := h.cases_of_some hconnection
    all_goals
      refine handleDisconnect_settled ?_ hat reason
      rw [hstate]
      rfl
  cases event with
  | reconnect => exact handleReconnectCommand_settled h fun hstate => hreconnect ⟨rfl, hstate⟩
  | disconnect => exact handleDisconnectCommand_settled h
  | message msg nicks =>
    let heard : ClientApp C := { app with lastMessageReceived := some world.now }
    have hheard : heard.Settled := h
    exact handleServerMessage_settled hheard henabled msg nicks
  | lost reason => exact hlost henabled reason
  | registrationTimedOut =>
    obtain ⟨deadline, hdeadline, -⟩ := henabled
    refine hlost ?_ _
    -- Without a connection no deadline is set.
    by_contra hnone
    have hbare := (h.cases_of_none (Option.not_isSome_iff_eq_none.mp hnone)).1
    rw [hbare.deadline] at hdeadline
    cases hdeadline
  | keepaliveTick => exact handleKeepaliveTick_settled h
  | reconnectTimer =>
    obtain ⟨deadline, hdeadline, -⟩ := henabled
    have hat : app.reconnectAt.isSome := Option.isSome_of_mem hdeadline
    obtain ⟨n, hstate⟩ := h.agrees.reconnectAt.mp hat
    have hnone : app.connection = none := by
      rw [← Option.not_isSome_iff_eq_none, h.agrees.connection, hstate]
      rintro (hregistering | hconnected)
      · cases hregistering
      · unfold ConnectionManager.isConnected at hconnected
        rw [hstate] at hconnected
        cases hconnected
    exact attemptReconnect_settled (h.cases_of_none hnone).1 hstate

/-- **The fields agree with the state** after each event of a run, exactly if nobody asks to
reconnect while the app registers. -/
theorem agrees_iff (config : ClientConfig) (first : World A C) {es : List (ConnectionEvent × World A C)}
    (h : (system A C).Legal System.Free ((ClientApp.new config).initiateConnection first) es) :
    (∀ n, Agrees ((system A C).exec ((ClientApp.new config).initiateConnection first)
      (es.take n))) ↔
      (system A C).Legal
        (fun app e => ¬ (e.1 = .reconnect ∧ app.connectionMgr.state = .registering))
        ((ClientApp.new config).initiateConnection first) es := by
  refine h.forall_take_iff (P := Settled) ?_ ?_ (fun _ hsettled => hsettled.agrees)
    (initiateConnection_settled rfl ⟨rfl, rfl, rfl⟩ rfl)
  · rintro app ⟨event, world⟩ henabled - hsettled hreconnect
    exact handle_settled hsettled hreconnect henabled.1
  · rintro app ⟨event, world⟩ henabled - - hagrees ⟨hevent, hstate⟩
    dsimp only at hevent
    subst hevent
    exact handleReconnectCommand_registering hstate henabled.2 hagrees

/-- A world in which the server can be reached, at the given time. -/
def reachable (now : ℕ) : World Unit Unit where
  now := now
  resolve := .ok [()]
  connect _ := .ok ()
  jitter := id
  takes := true
  token := "ping".toList

/-- The connection is lost, made again and registered; then it is closed and asked for again. -/
def reconnected : List (ConnectionEvent × World Unit Unit) :=
  [(.lost "reset".toList, reachable 1), (.reconnectTimer, reachable 5001),
    (.message { command := .numeric 1, params := ["pirc_user".toList] } [], reachable 5002),
    (.disconnect, reachable 6000), (.reconnect, reachable 7000)]

theorem agrees_iff_reconnected :
    ((system Unit Unit).exec ((ClientApp.new {}).initiateConnection (reachable 0))
        reconnected).connectionMgr.state = .reconnecting 1 ∧
      ∀ n, Agrees ((system Unit Unit).exec ((ClientApp.new {}).initiateConnection (reachable 0))
        (reconnected.take n)) := by
  have hlegal : (system Unit Unit).Legal
      (fun app e => ¬ (e.1 = .reconnect ∧ app.connectionMgr.state = .registering))
      ((ClientApp.new {}).initiateConnection (reachable 0)) reconnected := by
    refine ⟨⟨rfl, rfl⟩, ?_, ⟨⟨5001, rfl, le_rfl⟩, rfl⟩, ?_, ⟨rfl, rfl⟩, ?_, ⟨trivial, rfl⟩, ?_,
      ⟨trivial, rfl⟩, ?_, trivial⟩
    · exact fun h => ConnectionEvent.noConfusion h.1
    · exact fun h => ConnectionEvent.noConfusion h.1
    · exact fun h => ConnectionEvent.noConfusion h.1
    · exact fun h => ConnectionEvent.noConfusion h.1
    · exact fun h => ConnectionState.noConfusion h.2
  exact ⟨rfl, (agrees_iff {} (reachable 0) (hlegal.mono fun _ _ _ => trivial)).mpr hlegal⟩

/-- A run that asks to reconnect right after the first connection was made. -/
theorem reconnect_while_registering :
    ¬ ∀ (config : ClientConfig) (first : World Unit Unit) (es : List (ConnectionEvent × World Unit Unit)),
      (system Unit Unit).Legal System.Free ((ClientApp.new config).initiateConnection first) es →
        ∀ n, Agrees ((system Unit Unit).exec ((ClientApp.new config).initiateConnection first)
          (es.take n)) := by
  intro hagree
  have hregistering : ((ClientApp.new {}).initiateConnection (reachable 0)).connectionMgr.state =
      .registering := rfl
  have hrunning : (((ClientApp.new {}).initiateConnection (reachable 0)).handleReconnectCommand
      (reachable 1)).panicked = false := by
    decide +kernel
  have hagrees := hagree {} (reachable 0) [(.reconnect, reachable 1)]
    ⟨⟨trivial, hrunning⟩, trivial, trivial⟩ 1
  generalize (ClientApp.new {}).initiateConnection (reachable 0) = registering
    at hregistering hrunning hagrees
  exact handleReconnectCommand_registering hregistering hrunning hagrees

end ClientApp

end Pirc.Client
