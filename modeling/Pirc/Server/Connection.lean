import Pirc.Lib.Run
import Pirc.Server.UserCommands

/-!
# Server: connections

`handle_message`, which dispatches a message of a connection, and `handle_connection`, the loop that
reads from a connection until it ends. The loops of all connections run side by side; an event is
what one of them does between two points where it waits.
-/

namespace Pirc.Server

open Protocol

/-! ## Messages -/

inductive HandleResult
  | continue_ | quit | shutdown
  deriving DecidableEq

def ServerState.touch (s : ServerState) (c : ConnId) (clock : Clock) : ServerState :=
  { s with
    registry := s.registry.modifySession c fun session =>
      { session with lastActive := clock.instant } }

/-- Commands of a registered user that neither end the connection nor change its state. The
handlers of the `PIRC` extension work on stores of their own and write to no registry. -/
def handleCommand (config : ServerConfig) (clock : Clock) (s : ServerState) (msg : Message)
    (c : ConnId) : ServerState :=
  match msg.command with
  | .nick => handleNickChange s msg c clock
  | .whois => handleWhois s msg c clock
  | .away => handleAway s msg c
  | .mode =>
    if msg.params.head?.any fun t => t.head? = some '#' ∨ t.head? = some '&' then
      handleChannelMode s msg c clock.unix
    else handleUserMode s msg c
  | .join => handleJoin s msg c config.maxChannelsPerUser
  | .part => handlePart s msg c
  | .topic => handleTopic s msg c clock.unix
  | .kick => handleKick s msg c
  | .invite => handleInvite s msg c
  | .ban => handleBan s msg c clock.unix
  | .privmsg => handlePrivmsg s msg c
  | .notice => handleNotice s msg c
  | .list => handleList s msg c
  | .names => handleNames s msg c
  | .oper => handleOper config s msg c
  | .kill => handleKill s msg c
  | .wallops => handleWallops s msg c
  | .motd => handleMotd config s c
  | .ping => handlePing s msg c
  | _ => s

def handleRegistered (config : ServerConfig) (clock : Clock) (s : ServerState) (msg : Message)
    (c : ConnId) (state : PreRegistrationState) :
    ServerState × PreRegistrationState × HandleResult :=
  let s := if msg.command ≠ .ping ∧ msg.command ≠ .pong then s.touch c clock else s
  match msg.command with
  | .quit =>
    let (s, state) := handleQuit s msg c state
    (s, state, .quit)
  | .user =>
    let (s, state) := handleUser s msg c state
    (s, state, .continue_)
  | .die =>
    let (s, shutdown) := handleDie s c
    (s, state, if shutdown then .shutdown else .continue_)
  | .restart =>
    let (s, shutdown) := handleRestart s c
    (s, state, if shutdown then .shutdown else .continue_)
  | _ => (handleCommand config clock s msg c, state, .continue_)

/-- Register the user if the connection has sent all that is needed. -/
def tryRegistration (config : ServerConfig) (clock : Clock) (c : ConnId)
    (acc : ServerState × PreRegistrationState) : ServerState × PreRegistrationState :=
  match acc.2.nick, acc.2.username with
  -- `USER` sets the real name together with the username
  | some nick, some username =>
    completeRegistration config clock acc.1 c acc.2 nick username (acc.2.realname.getD [])
  | _, _ => acc

def handleUnregistered (config : ServerConfig) (clock : Clock) (s : ServerState) (msg : Message)
    (c : ConnId) (state : PreRegistrationState) :
    ServerState × PreRegistrationState × HandleResult :=
  match msg.command with
  | .quit => (s, state, .quit)
  | .nick =>
    let (s, state) := tryRegistration config clock c (handleNick s msg c state)
    (s, state, .continue_)
  | .user =>
    let (s, state) := tryRegistration config clock c (handleUser s msg c state)
    (s, state, .continue_)
  | .ping => (handlePing s msg c, state, .continue_)
  | _ => (s, state, .continue_)

/-- The dispatch, before and after registration. -/
def handleMessage (config : ServerConfig) (clock : Clock) (s : ServerState) (msg : Message)
    (c : ConnId) (state : PreRegistrationState) :
    ServerState × PreRegistrationState × HandleResult :=
  if state.registered then handleRegistered config clock s msg c state
  else handleUnregistered config clock s msg c state

/-! ## The loop of a connection -/

/-- A connection that is served. After a message the loop has to write what is queued before it
looks at the result. -/
structure Connection where
  state : PreRegistrationState
  pending : Option HandleResult := none

/-- The server, the connections it serves and the id of the next one. -/
structure World where
  server : ServerState := {}
  connections : ConnId → Option Connection := fun _ => none
  nextId : ConnId := 1

inductive Event
  /-- A client connects. -/
  | accepted (hostname : Str)
  /-- A message is read and handled. -/
  | received (c : ConnId) (msg : Message) (clock : Clock)
  /-- What was queued is written. -/
  | flushed (c : ConnId)
  /-- The connection is lost: it is closed, reading or writing fails, or it does not answer. -/
  | lost (c : ConnId)

/-- The end of `handle_connection`: a registered user is removed from the registry. -/
def cleanup (s : ServerState) (c : ConnId) (state : PreRegistrationState) : ServerState :=
  if state.registered then { s with registry := (s.registry.removeByConnection c).2 } else s

namespace World

def setConnection (w : World) (c : ConnId) (conn : Option Connection) : World :=
  { w with connections := Function.update w.connections c conn }

/-- The server turns connections away when it has enough users. -/
def accept (config : ServerConfig) (w : World) (hostname : Str) : World :=
  if config.maxConnections ≤ w.server.registry.connectionCount then
    { w with nextId := w.nextId + 1 }
  else
    { w.setConnection w.nextId (some { state := { hostname := hostname } }) with
      nextId := w.nextId + 1 }

def receive (config : ServerConfig) (w : World) (c : ConnId) (msg : Message) (clock : Clock) :
    World :=
  match w.connections c with
  | some conn =>
    let (server, state, result) := handleMessage config clock w.server msg c conn.state
    { w with server := server }.setConnection c (some ⟨state, some result⟩)
  | none => w

/-- The loop looks at the result. A connection that quit, or shut the server down, just ends. -/
def flush (w : World) (c : ConnId) : World :=
  match w.connections c with
  | some ⟨state, some .continue_⟩ => w.setConnection c (some ⟨state, none⟩)
  | some ⟨_, some _⟩ => w.setConnection c none
  | _ => w

def lose (w : World) (c : ConnId) : World :=
  match w.connections c with
  | some conn => { w with server := cleanup w.server c conn.state }.setConnection c none
  | none => w

def enabled (w : World) : Event → Bool
  | .accepted _ => true
  | .received c _ _ => (w.connections c).any fun conn => conn.pending.isNone
  | .flushed c => (w.connections c).any fun conn => conn.pending.isSome
  | .lost c => (w.connections c).isSome

def step (config : ServerConfig) (w : World) : Event → World
  | .accepted hostname => w.accept config hostname
  | .received c msg clock => w.receive config c msg clock
  | .flushed c => w.flush c
  | .lost c => w.lose c

end World

/-- **The server as a system**: its state and connections under the events of the connections. -/
def connectionSystem (config : ServerConfig) : System World Event where
  enabled w e := w.enabled e
  step := World.step config

instance (config : ServerConfig) (w : World) (e : Event) :
    Decidable ((connectionSystem config).enabled w e) :=
  inferInstanceAs (Decidable (w.enabled e = true))

end Pirc.Server
