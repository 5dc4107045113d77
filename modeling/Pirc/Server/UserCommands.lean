import Pirc.Server.ChannelCommands

/-!
# Server: commands on users

The handlers of `handler.rs` and `handler_oper.rs`: registration, nicknames, modes and operators,
and the ways a user leaves the server.
-/

namespace Pirc.Server

open Protocol

/-! ## Configuration -/

structure OperConfig where
  name : Str
  password : Str
  hostMask : Option Str := none

/-- The parts of the configuration that the handlers read. The message of the day is its text, or
what could be read from its file. -/
structure ServerConfig where
  maxConnections : ℕ := 1000
  maxChannelsPerUser : ℕ := 20
  operators : List OperConfig := []
  motdText : Option Str := none
  motdFile : Option Str := none

/-! ## Registration -/

/-- What a connection has sent before it is registered. -/
structure PreRegistrationState where
  nick : Option Nickname := none
  username : Option Str := none
  realname : Option Str := none
  hostname : Str
  registered : Bool := false

/-- `NICK` before registration. -/
def handleNick (s : ServerState) (msg : Message) (c : ConnId) (state : PreRegistrationState) :
    ServerState × PreRegistrationState :=
  match msg.params with
  | [] => (s.sendNumeric c errNoNicknameGiven ["*"] "No nickname given", state)
  | nickStr :: _ =>
    match Nickname.new nickStr with
    | .error _ => (s.sendNumeric c errErroneusNickname [nickStr] "Erroneous nickname", state)
    | .ok nick =>
      if s.registry.nickInUse nick then
        (s.sendNumeric c errNicknameInUse [nick.name] "Nickname is already in use", state)
      else (s, { state with nick := some nick })

/-- `USER <username> <mode> <unused> :<realname>`. -/
def handleUser (s : ServerState) (msg : Message) (c : ConnId) (state : PreRegistrationState) :
    ServerState × PreRegistrationState :=
  if state.registered then
    (s.sendNumeric c errAlreadyRegistered ["*"] "You may not reregister", state)
  else
    match msg.params with
    | username :: _ :: _ :: realname :: _ =>
      (s, { state with username := some username, realname := some realname })
    | _ => (s.sendNumeric c errNeedMoreParams ["USER"] "Not enough parameters", state)

/-- The lines of a text, as `str::lines` has them. -/
def lines (text : Str) : List Str :=
  let parts := text.splitOn '\n'
  -- a final line end closes the last line
  let parts := if parts.getLast? = some [] then parts.dropLast else parts
  parts.map fun line => if line.getLast? = some '\r' then line.dropLast else line

def motdReply (config : ServerConfig) (nick : Str) : List Message :=
  match config.motdText.or config.motdFile with
  | some text =>
    [numeric rplMotdStart [nick] ("- ".toList ++ serverName ++ " Message of the day -".toList)] ++
      (lines text).map (fun line => numeric rplMotd [nick] ("- ".toList ++ line)) ++
      [numeric rplEndOfMotd [nick] "End of /MOTD command"]
  | none => [numeric errNoMotd [nick] "MOTD File is missing"]

def welcomeReply (config : ServerConfig) (session : UserSession) : List Message :=
  let nick := session.nickname.name
  [numeric rplWelcome [nick] ("Welcome to the pirc network, ".toList ++ nick ++ '!' ::
      session.username ++ '@' :: session.hostname),
    numeric rplYourHost [nick] ("Your host is ".toList ++ serverName ++
      ", running version ".toList ++ serverVersion),
    numeric rplCreated [nick] ("This server was created ".toList ++ serverName)] ++
    motdReply config nick

/-- The session of a user whose registration is complete, and its welcome. -/
def completeRegistration (config : ServerConfig) (clock : Clock) (s : ServerState) (c : ConnId)
    (state : PreRegistrationState) (nick : Nickname) (username realname : Str) :
    ServerState × PreRegistrationState :=
  let session : UserSession := {
    connectionId := c
    nickname := nick
    username := username
    realname := realname
    hostname := state.hostname
    signonTime := clock.unix
    lastActive := clock.instant }
  match s.registry.register session with
  | .error _ =>
    (s.sendNumeric c errNicknameInUse [nick.name] "Nickname is already in use",
      { state with nick := none })
  | .ok registry =>
    ({ s with registry := registry }.reply c (welcomeReply config session),
      { state with registered := true })

/-! ## Nicknames -/

/-- A registered user's new nickname. -/
def handleNickChange (s : ServerState) (msg : Message) (c : ConnId) (clock : Clock) : ServerState :=
  match msg.params with
  | [] => s.sendNumeric c errNoNicknameGiven ["*"] "No nickname given"
  | nickStr :: _ =>
    match Nickname.new nickStr with
    | .error _ => s.sendNumeric c errErroneusNickname [nickStr] "Erroneous nickname"
    | .ok newNick =>
      match s.registry.getByConnection c with
      | none => s
      | some session =>
        match s.registry.changeNick session.nickname newNick with
        | .ok registry =>
          let s := { s with registry := registry }
          let s := s.send c {
            prefix_ := some session.userPrefix
            command := .nick
            params := [newNick.name] }
          { s with
            registry := s.registry.modifySession c fun session =>
              { session with lastActive := clock.instant } }
        | .error (.nickInUse _) =>
          s.sendNumeric c errNicknameInUse [session.nickname.name, newNick.name]
            "Nickname is already in use"
        | .error (.notFound _) => s

/-! ## WHOIS, AWAY and user modes -/

def handleWhois (s : ServerState) (msg : Message) (c : ConnId) (clock : Clock) : ServerState :=
  match s.registry.getByConnection c with
  | none => s
  | some session =>
    let requestor := session.nickname.name
    match msg.params with
    | [] => s.sendNumeric c errNoNicknameGiven [requestor] "No nickname given"
    | targetStr :: _ =>
      let noSuchNick := s.reply c
        [numeric errNoSuchNick [requestor, targetStr] "No such nick/channel",
          numeric rplEndOfWhois [requestor, targetStr] "End of /WHOIS list"]
      match Nickname.new targetStr with
      | .error _ => noSuchNick
      | .ok targetNick =>
        match s.registry.getByNick targetNick with
        | none => noSuchNick
        | some target =>
          let nick := target.nickname.name
          let idleSecs := (clock.instant - target.lastActive) / 10 ^ 9
          s.reply c (
            [numeric rplWhoisUser [requestor, nick, target.username, target.hostname, "*"]
                target.realname,
              numeric rplWhoisServer [requestor, nick, serverName]
                (serverName ++ ' ' :: serverVersion)] ++
            (if .operator ∈ target.modes then
              [numeric rplWhoisOperator [requestor, nick] "is an IRC operator"] else []) ++
            (target.awayMessage.map fun away => numeric rplAway [requestor, nick] away).toList ++
            [numeric rplWhoisIdle [requestor, nick, decimal idleSecs, decimal target.signonTime]
                "seconds idle, signon time",
              numeric rplEndOfWhois [requestor, nick] "End of /WHOIS list"])

def handleAway (s : ServerState) (msg : Message) (c : ConnId) : ServerState :=
  match s.registry.getByConnection c with
  | none => s
  | some session =>
    let away := msg.params.head?
    let s := { s with
      registry := s.registry.modifySession c fun session => { session with awayMessage := away } }
    match away with
    | none =>
      s.sendNumeric c rplUnaway [session.nickname.name] "You are no longer marked as being away"
    | some _ =>
      s.sendNumeric c rplNowAway [session.nickname.name] "You have been marked as being away"

def formatUserModes (modes : Finset UserMode) : Str :=
  '+' :: (modes.val.filterMap UserMode.modeChar).sort

/-- One letter of a user's mode string, over the sign, the modes and whether a letter was unknown.
Nobody becomes an operator this way. -/
def userModeStep (acc : Bool × Finset UserMode × Bool) (ch : Char) : Bool × Finset UserMode × Bool :=
  let (adding, modes, unknown) := acc
  match ch with
  | '+' => (true, modes, unknown)
  | '-' => (false, modes, unknown)
  | 'o' => (adding, if adding then modes else modes.erase .operator, unknown)
  | 'v' => (adding, if adding then insert .voiced modes else modes.erase .voiced, unknown)
  | _ => (adding, modes, true)

def handleUserMode (s : ServerState) (msg : Message) (c : ConnId) : ServerState :=
  match s.registry.getByConnection c with
  | none => s
  | some session =>
    let nick := session.nickname.name
    match msg.params with
    | [] => s.send c (needMoreParams nick "MODE")
    | target :: rest =>
      if lowercase target ≠ session.nickname.fold then
        s.sendNumeric c errUsersDontMatch [nick] "Cannot change mode for other users"
      else
        match rest with
        | [] => s.sendNumeric c rplUModeIs [nick, formatUserModes session.modes] ""
        | modestring :: _ =>
          let (_, modes, unknown) := modestring.foldl userModeStep (true, session.modes, false)
          let s := { s with
            registry := s.registry.modifySession c fun session => { session with modes := modes } }
          let s :=
            if unknown then s.sendNumeric c errUModeUnknownFlag [nick] "Unknown MODE flag" else s
          s.sendNumeric c rplUModeIs [nick, formatUserModes modes] ""

/-! ## Leaving the server -/

/-- Tell everyone who shares a channel with the user, each of them once, and take the user off all
channels. -/
def ServerState.broadcastQuitAndRemove (s : ServerState) (nick : Nickname) (quitMsg : Message) :
    ServerState :=
  let own := s.channels.listAll.filter fun e => e.2.members.contains nick
  let others := (own.flatMap fun e => e.2.members.keys).filter fun member => member.fold ≠ nick.fold
  let notified := others.eraseDupsBy fun a b => a.fold = b.fold
  let s := s.deliver (notified.filterMap fun member =>
    (s.registry.getByNick member).map fun session => (session.connectionId, quitMsg))
  own.foldl (fun s e => s.removeMember e.1 nick) s

/-- `QUIT`. -/
def handleQuit (s : ServerState) (msg : Message) (c : ConnId) (state : PreRegistrationState) :
    ServerState × PreRegistrationState :=
  let quitMessage := msg.params.head?.getD "Client Quit"
  let session := s.registry.getByConnection c
  let hostname := (session.map UserSession.hostname).getD state.hostname
  let s :=
    match session with
    | some session =>
      s.broadcastQuitAndRemove session.nickname {
        prefix_ := some session.userPrefix
        command := .quit
        params := [quitMessage] }
    | none => s
  let s := if state.registered then { s with registry := (s.registry.removeByConnection c).2 } else s
  let s := s.send c {
    command := .error
    params := ["Closing Link: ".toList ++ hostname ++ " (Quit: ".toList ++ quitMessage ++
      ")".toList] }
  (s, { state with registered := false })

/-! ## Operators -/

def isOper (session : UserSession) : Bool := .operator ∈ session.modes

def noPrivileges (session : UserSession) : Message :=
  numeric errNoPrivileges [session.nickname.name] "Permission Denied- You're not an IRC operator"

def findText (part : Str) : Str → Option ℕ
  | [] => if part.isEmpty then some 0 else none
  | x :: rest =>
    if part.isPrefixOf (x :: rest) then some 0 else (findText part rest).map (· + 1)

def middlePartsMatch : List Str → Str → Bool
  | [], _ => true
  | part :: parts, host =>
    if part.isEmpty then middlePartsMatch parts host
    else
      match findText part host with
      | some i => middlePartsMatch parts (host.drop (i + part.length))
      | none => false

def hostMatchesMask (host mask : Str) : Bool :=
  match mask.splitOn '*' with
  | [] | [_] => host = mask
  | first :: second :: rest =>
    let last := (second :: rest).getLast (by simp)
    first.isPrefixOf host && (last.isEmpty || last.isSuffixOf host) &&
      middlePartsMatch (second :: rest).dropLast (host.drop first.length)

def operCheck (config : ServerConfig) (session : UserSession) (name password : Str) :
    Except Message Unit :=
  let nick := session.nickname.name
  match config.operators.find? fun o => o.name = name with
  | none => .error (numeric errPasswdMismatch [nick] "Password incorrect")
  | some oper =>
    if oper.password ≠ password then .error (numeric errPasswdMismatch [nick] "Password incorrect")
    else if oper.hostMask.any fun mask => !hostMatchesMask session.hostname mask then
      .error (numeric errNoOperHost [nick] "No O-lines for your host")
    else .ok ()

/-- `OPER`: become an operator. -/
def handleOper (config : ServerConfig) (s : ServerState) (msg : Message) (c : ConnId) :
    ServerState :=
  match s.registry.getByConnection c with
  | none => s
  | some session =>
    let nick := session.nickname.name
    match msg.params with
    | name :: password :: _ =>
      match operCheck config session name password with
      | .error reply => s.send c reply
      | .ok () =>
        let s := { s with
          registry := s.registry.modifySession c fun session =>
            { session with modes := insert UserMode.operator session.modes } }
        let s := s.sendNumeric c rplYoureOper [nick] "You are now an IRC operator"
        s.send c { prefix_ := some session.userPrefix, command := .mode, params := [nick, "+o"] }
    | _ => s.send c (needMoreParams nick "OPER")

def killCheck (s : ServerState) (session : UserSession) (params : List Str) :
    Except Message (Str × Nickname × UserSession) := do
  if ¬ isOper session then throw (noPrivileges session)
  match params with
  | [] => throw (needMoreParams session.nickname.name "KILL")
  | targetStr :: _ =>
    let noSuchNick :=
      numeric errNoSuchNick [session.nickname.name, targetStr] "No such nick/channel"
    match Nickname.new targetStr with
    | .error _ => throw noSuchNick
    | .ok targetNick =>
      match s.registry.getByNick targetNick with
      | none => throw noSuchNick
      | some target => return (targetStr, targetNick, target)

/-- `KILL`, for operators. -/
def handleKill (s : ServerState) (msg : Message) (c : ConnId) : ServerState :=
  match s.registry.getByConnection c with
  | none => s
  | some session =>
    match killCheck s session msg.params with
    | .error reply => s.send c reply
    | .ok (targetStr, targetNick, target) =>
      let reason : Str := (msg.params[1]?).getD "Killed".toList
      let killed :=
        "Killed (".toList ++ session.nickname.name ++ " (".toList ++ reason ++ "))".toList
      let s := s.reply target.connectionId
        [{ prefix_ := some session.userPrefix, command := .kill, params := [targetStr, reason] },
          { command := .error
            params := ["Closing Link: ".toList ++ target.hostname ++ " (".toList ++ killed ++
              ")".toList] }]
      let s := s.broadcastQuitAndRemove targetNick {
        prefix_ := some (.user targetNick target.username target.hostname)
        command := .quit
        params := [killed] }
      { s with registry := (s.registry.removeByConnection target.connectionId).2 }

/-- `DIE` and `RESTART`: an operator shuts the server down, which everyone is told. Says whether to
shut down. -/
def handleShutdown (s : ServerState) (c : ConnId) (notice : Str) : ServerState × Bool :=
  match s.registry.getByConnection c with
  | none => (s, false)
  | some session =>
    if ¬ isOper session then (s.send c (noPrivileges session), false)
    else
      let msg : Message := {
        prefix_ := some (.server serverName)
        command := .notice
        params := ["*", notice ++ session.nickname.name] }
      (s.deliver (s.registry.sessions.map fun session => (session.connectionId, msg)), true)

/-- `DIE`, for operators. -/
def handleDie (s : ServerState) (c : ConnId) : ServerState × Bool :=
  handleShutdown s c "Server shutting down by operator "

/-- `RESTART`, for operators. -/
def handleRestart (s : ServerState) (c : ConnId) : ServerState × Bool :=
  handleShutdown s c "Server restarting by operator "

/-- `WALLOPS`, for operators. -/
def handleWallops (s : ServerState) (msg : Message) (c : ConnId) : ServerState :=
  match s.registry.getByConnection c with
  | none => s
  | some session =>
    if ¬ isOper session then s.send c (noPrivileges session)
    else
      match msg.params with
      | [] => s.send c (needMoreParams session.nickname.name "WALLOPS")
      | text :: _ =>
        let wallops : Message :=
          { prefix_ := some session.userPrefix, command := .wallops, params := [text] }
        s.deliver ((s.registry.sessions.filter isOper).map fun oper => (oper.connectionId, wallops))

def handlePing (s : ServerState) (msg : Message) (c : ConnId) : ServerState :=
  match msg.params.head? with
  | some token =>
    s.send c { prefix_ := some (.server serverName), command := .pong, params := [token] }
  | none => s

def handleMotd (config : ServerConfig) (s : ServerState) (c : ConnId) : ServerState :=
  let session := s.registry.getByConnection c
  let nick := (session.map fun session => session.nickname.name).getD "*".toList
  s.reply c (motdReply config nick)

end Pirc.Server
