import Pirc.Server.State

/-!
# Server: commands on channels

The handlers of `handler_channel`. A handler looks up the session of the connection, runs its checks
in order, and either queues one reply or does what it was asked for. Handlers that check alike share
`findChannel`, `joinedChannel` and `requireOperator`.
-/

namespace Pirc.Server

open Protocol

/-! ## Checks -/

def needMoreParams (nick command : Str) : Message :=
  numeric errNeedMoreParams [nick, command] "Not enough parameters"

def findChannel (s : ServerState) (nick chanStr : Str) : Except Message (ChannelName × Channel) :=
  match ChannelName.new chanStr with
  | .error _ => .error (numeric errNoSuchChannel [nick, chanStr] "No such channel")
  | .ok name =>
    match s.channels.get name with
    | none => .error (numeric errNoSuchChannel [nick, chanStr] "No such channel")
    | some channel => .ok (name, channel)

def joinedChannel (s : ServerState) (nick : Nickname) (chanStr : Str) :
    Except Message (ChannelName × Channel) := do
  let (name, channel) ← findChannel s nick.name chanStr
  if ¬ channel.members.contains nick then
    throw (numeric errNotOnChannel [nick.name, chanStr] "You're not on that channel")
  return (name, channel)

def requireMember (channel : Channel) (nick : Nickname) (chanStr : Str) :
    Except Message MemberStatus :=
  match channel.members.get nick with
  | none => .error (numeric errNotOnChannel [nick.name, chanStr] "You're not on that channel")
  | some status => .ok status

def requireOperator (channel : Channel) (nick : Nickname) (chanStr : Str) : Except Message Unit := do
  let status ← requireMember channel nick chanStr
  if status ≠ .operator then
    throw (numeric errChanOpPrivsNeeded [nick.name, chanStr] "You're not channel operator")

/-! ## JOIN and PART -/

def joinRefusal (channel : Channel) (session : UserSession) (key : Option Str) :
    Option (UInt16 × Str) :=
  let userMask := session.nickname.name ++ '!' :: session.username ++ '@' :: session.hostname
  if isBanned channel.banList userMask then some (errBannedChannel, "Cannot join channel (+b)")
  else if .inviteOnly ∈ channel.modes ∧ ¬ channel.inviteList.contains session.nickname then
    some (errInviteOnlyChan, "Cannot join channel (+i)")
  else if channel.key.any fun chanKey => key ≠ some chanKey then
    some (errBadChannelKey, "Cannot join channel (+k)")
  else if channel.userLimit.any fun limit => limit ≤ channel.members.length then
    some (errChannelIsFull, "Cannot join channel (+l)")
  else none

/-- The channel after a user joined. The first member becomes an operator, and an invitation is
used up. -/
def Channel.join (channel : Channel) (nick : Nickname) : Channel :=
  { channel with
    members := channel.members.insert nick (if channel.members.isEmpty then .operator else .normal)
    inviteList := channel.inviteList.remove nick }

/-- Join one channel of the list; the item is the name with its position. Keeps count of the
channels the user is on. -/
def joinChannel (c : ConnId) (session : UserSession) (keys : List Str) (maxChannels : ℕ)
    (acc : ServerState × ℕ) (item : Str × ℕ) : ServerState × ℕ :=
  let (s, count) := acc
  let nick := session.nickname
  let chanStr := trim item.1
  if chanStr.isEmpty then (s, count)
  else if maxChannels ≤ count then
    (s.sendNumeric c errTooManyChannels [nick.name, chanStr] "You have joined too many channels",
      count)
  else
    match ChannelName.new chanStr with
    | .error _ => (s.sendNumeric c errNoSuchChannel [nick.name, chanStr] "No such channel", count)
    | .ok name =>
      let (channel, channels) := s.channels.getOrCreate name
      let s := { s with channels := channels }
      -- joining twice is ignored
      if channel.members.contains nick then (s, count)
      else
        let refusal :=
          if channel.members.isEmpty then none else joinRefusal channel session keys[item.2]?
        match refusal with
        | some (code, text) => (s.sendNumeric c code [nick.name, chanStr] text, count)
        | none =>
          let channel := channel.join nick
          let s := { s with channels := s.channels.modify name fun _ => channel }
          let joinMsg : Message :=
            { prefix_ := some session.userPrefix, command := .join, params := [name.name] }
          let s := s.broadcastToChannel channel joinMsg none
          (s.reply c (topicReply nick.name name channel ++ namesReply nick.name name channel),
            count + 1)

/-- `JOIN #chan1,#chan2 [key1,key2]`. -/
def handleJoin (s : ServerState) (msg : Message) (c : ConnId) (maxChannels : ℕ) : ServerState :=
  match s.registry.getByConnection c with
  | none => s
  | some session =>
    match msg.params with
    | [] => s.send c (needMoreParams session.nickname.name "JOIN")
    | names :: rest =>
      let keys := (rest.head?.map fun keys => keys.splitOn ',').getD []
      let count := s.channels.channelsForNick session.nickname
      ((names.splitOn ',').zipIdx.foldl (joinChannel c session keys maxChannels) (s, count)).1

def ServerState.removeMember (s : ServerState) (name : ChannelName) (nick : Nickname) :
    ServerState :=
  let channels := s.channels.modify name fun channel =>
    { channel with members := channel.members.remove nick }
  { s with channels := channels.removeIfEmpty name }

def partChannel (c : ConnId) (session : UserSession) (reason : Option Str) (s : ServerState)
    (item : Str) : ServerState :=
  let chanStr := trim item
  if chanStr.isEmpty then s
  else
    match joinedChannel s session.nickname chanStr with
    | .error reply => s.send c reply
    | .ok (name, channel) =>
      let partMsg : Message := {
        prefix_ := some session.userPrefix
        command := .part
        params := name.name :: reason.toList }
      (s.broadcastToChannel channel partMsg none).removeMember name session.nickname

/-- `PART`. -/
def handlePart (s : ServerState) (msg : Message) (c : ConnId) : ServerState :=
  match s.registry.getByConnection c with
  | none => s
  | some session =>
    match msg.params with
    | [] => s.send c (needMoreParams session.nickname.name "PART")
    | names :: rest => (names.splitOn ',').foldl (partChannel c session rest.head?) s

/-! ## KICK -/

def kickCheck (s : ServerState) (nick : Nickname) (chanStr targetStr : Str) :
    Except Message (ChannelName × Channel × Nickname) := do
  let notInChannel :=
    numeric errUserNotInChannel [nick.name, targetStr, chanStr] "They aren't on that channel"
  let (name, channel) ← findChannel s nick.name chanStr
  match Nickname.new targetStr with
  | .error _ => throw notInChannel
  | .ok target =>
    requireOperator channel nick chanStr
    if ¬ channel.members.contains target then throw notInChannel
    return (name, channel, target)

/-- `KICK #channel target [:reason]`, by an operator of the channel. -/
def handleKick (s : ServerState) (msg : Message) (c : ConnId) : ServerState :=
  match s.registry.getByConnection c with
  | none => s
  | some session =>
    match msg.params with
    | chanStr :: targetStr :: rest =>
      match kickCheck s session.nickname chanStr targetStr with
      | .error reply => s.send c reply
      | .ok (name, channel, target) =>
        let kickMsg : Message := {
          prefix_ := some session.userPrefix
          command := .kick
          params := [name.name, targetStr, rest.head?.getD session.nickname.name] }
        (s.broadcastToChannel channel kickMsg none).removeMember name target
    | _ => s.send c (needMoreParams session.nickname.name "KICK")

/-! ## MODE -/

instance isTransLeChar : IsTrans Char (· ≤ ·) := ⟨fun _ _ _ => Char.le_trans⟩

/-- Channel modes as a string like `+imt` or `+kl secret 50`. -/
def formatChannelModes (channel : Channel) : Str :=
  let chars := (channel.modes.val.map ChannelMode.modeChar).sort
  let chars := chars ++ (channel.key.map fun _ => 'k').toList
  let chars := chars ++ (channel.userLimit.map fun _ => 'l').toList
  let params := channel.key.toList ++ (channel.userLimit.map decimal).toList
  params.foldl (fun result p => result ++ ' ' :: p) ('+' :: chars)

/-- The variables of the loop over a mode string: the channel, the replies it queues, the next
parameter, the sign, what was applied and the sign it was last written with. -/
structure ModeState where
  channel : Channel
  replies : List Message := []
  paramIdx : ℕ := 0
  adding : Bool := true
  appliedModes : Str := []
  appliedParams : List Str := []
  lastDir : Option Bool := none

namespace ModeState

/-- Record a letter that was applied, after its sign if the sign changed. -/
def applied (m : ModeState) (letter : Char) (params : List Str) : ModeState :=
  let sign := if m.lastDir ≠ some m.adding then [if m.adding then '+' else '-'] else []
  { m with
    appliedModes := m.appliedModes ++ sign ++ [letter]
    appliedParams := m.appliedParams ++ params
    lastDir := some m.adding }

def consume (m : ModeState) : ModeState := { m with paramIdx := m.paramIdx + 1 }

def flag (m : ModeState) (letter : Char) (mode : ChannelMode) : ModeState :=
  let modes := if m.adding then insert mode m.channel.modes else m.channel.modes.erase mode
  { m with channel := { m.channel with modes := modes } }.applied letter []

/-- The letter `k`. Removing the key uses up a parameter if there is one. -/
def key (m : ModeState) (param : Option Str) : ModeState :=
  if m.adding then
    match param with
    | some key =>
      { m with channel := { m.channel with key := some key } }.applied 'k' [key] |>.consume
    | none => m
  else
    let m := { m with channel := { m.channel with key := none } }.applied 'k' []
    if param.isSome then m.consume else m

/-- The letter `l`. A limit that is no number is left for the next letter. -/
def limit (m : ModeState) (param : Option Str) : ModeState :=
  if m.adding then
    match param with
    | some text =>
      match parseU32 text with
      | some limit =>
        { m with channel := { m.channel with userLimit := some limit } }.applied 'l' [text]
          |>.consume
      | none => m
    | none => m
  else { m with channel := { m.channel with userLimit := none } }.applied 'l' []

def ban (m : ModeState) (whoSet : Str) (now : ℕ) (param : Option Str) : ModeState :=
  match param with
  | some mask =>
    let bans :=
      if m.adding then
        m.channel.banList ++ [{ mask := mask, whoSet := whoSet, timestamp := now }]
      else m.channel.banList.filter fun ban => lowercase ban.mask ≠ lowercase mask
    { m with channel := { m.channel with banList := bans } }.applied 'b' [mask] |>.consume
  | none => m

/-- The letters `o` and `v`, for a member of the channel. -/
def status (m : ModeState) (letter : Char) (nick chanStr : Str) (param : Option Str) : ModeState :=
  match param with
  | some targetStr =>
    let m := m.consume
    match Nickname.new targetStr with
    | .error _ => m
    | .ok target =>
      if m.channel.members.contains target then
        let status : MemberStatus :=
          if m.adding then (if letter = 'o' then .operator else .voiced) else .normal
        let members := m.channel.members.insert target status
        { m with channel := { m.channel with members := members } }.applied letter [targetStr]
      else
        { m with
          replies := m.replies ++
            [numeric errUserNotInChannel [nick, targetStr, chanStr] "They aren't on that channel"] }
  | none => m

def step (nick chanStr : Str) (now : ℕ) (modeParams : List Str) (m : ModeState) (ch : Char) :
    ModeState :=
  let param := modeParams[m.paramIdx]?
  match ch with
  | '+' => { m with adding := true }
  | '-' => { m with adding := false }
  | 'i' => m.flag 'i' .inviteOnly
  | 'm' => m.flag 'm' .moderated
  | 'n' => m.flag 'n' .noExternalMessages
  | 's' => m.flag 's' .secret
  | 't' => m.flag 't' .topicProtected
  | 'k' => m.key param
  | 'l' => m.limit param
  | 'b' => m.ban nick now param
  | 'o' => m.status 'o' nick chanStr param
  | 'v' => m.status 'v' nick chanStr param
  | ch =>
    { m with
      replies := m.replies ++ [numeric errUnknownMode [nick, [ch]] "is unknown mode char to me"] }

end ModeState

def setChannelMode (s : ServerState) (c : ConnId) (session : UserSession) (now : ℕ) (chanStr : Str)
    (name : ChannelName) (channel : Channel) (modestring : Str) (modeParams : List Str) :
    ServerState :=
  let nick := session.nickname.name
  let m := modestring.foldl (ModeState.step nick chanStr now modeParams) { channel := channel }
  let s := { s with channels := s.channels.modify name fun _ => m.channel }
  let s := s.reply c m.replies
  if m.appliedModes.isEmpty then s
  else
    s.broadcastToChannel m.channel {
      prefix_ := some session.userPrefix
      command := .mode
      params := name.name :: m.appliedModes :: m.appliedParams } none

/-- `MODE #channel [modestring [params]]`. Anyone may query, operators set. -/
def handleChannelMode (s : ServerState) (msg : Message) (c : ConnId) (now : ℕ) : ServerState :=
  match s.registry.getByConnection c with
  | none => s
  | some session =>
    let nick := session.nickname.name
    match msg.params with
    -- the dispatcher looked at the first parameter already
    | [] => s
    | chanStr :: rest =>
      match findChannel s nick chanStr with
      | .error reply => s.send c reply
      | .ok (name, channel) =>
        match rest with
        | [] => s.sendNumeric c rplChannelModeIs [nick, name.name, formatChannelModes channel] ""
        | modestring :: modeParams =>
          if (modestring = "+b".toList ∨ modestring = "b".toList) ∧ modeParams.isEmpty then
            s.reply c (banListReply nick name channel)
          else
            match requireOperator channel session.nickname chanStr with
            | .error reply => s.send c reply
            | .ok () => setChannelMode s c session now chanStr name channel modestring modeParams

/-! ## TOPIC, INVITE and BAN -/

def topicCheck (channel : Channel) (nick : Nickname) (chanStr : Str) : Except Message Unit :=
  if .topicProtected ∈ channel.modes ∧ channel.members.get nick ≠ some .operator then
    .error (numeric errChanOpPrivsNeeded [nick.name, chanStr] "You're not channel operator")
  else .ok ()

/-- `TOPIC`: read it, or set it. -/
def handleTopic (s : ServerState) (msg : Message) (c : ConnId) (now : ℕ) : ServerState :=
  match s.registry.getByConnection c with
  | none => s
  | some session =>
    let nick := session.nickname.name
    match msg.params with
    | [] => s.send c (needMoreParams nick "TOPIC")
    | chanStr :: rest =>
      match joinedChannel s session.nickname chanStr with
      | .error reply => s.send c reply
      | .ok (name, channel) =>
        match rest with
        | [] => s.reply c (topicReply nick name channel)
        | newTopic :: _ =>
          match topicCheck channel session.nickname chanStr with
          | .error reply => s.send c reply
          | .ok () =>
            let topic :=
              if newTopic.isEmpty then none
              else some { text := newTopic, who := nick, timestamp := now : Topic }
            let channel := { channel with topic := topic }
            let s := { s with channels := s.channels.modify name fun _ => channel }
            s.broadcastToChannel channel {
              prefix_ := some session.userPrefix
              command := .topic
              params := [name.name, newTopic] } none

def inviteCheck (s : ServerState) (nick : Nickname) (targetStr chanStr : Str) :
    Except Message (ChannelName × Channel × Nickname × UserSession) := do
  let noSuchNick := numeric errNoSuchNick [nick.name, targetStr] "No such nick/channel"
  match Nickname.new targetStr with
  | .error _ => throw noSuchNick
  | .ok target =>
    match s.registry.getByNick target with
    | none => throw noSuchNick
    | some targetSession =>
      let (name, channel) ← findChannel s nick.name chanStr
      let status ← requireMember channel nick chanStr
      if .inviteOnly ∈ channel.modes ∧ status ≠ .operator then
        throw (numeric errChanOpPrivsNeeded [nick.name, chanStr] "You're not channel operator")
      if channel.members.contains target then
        throw (numeric errUserOnChannel [nick.name, targetStr, chanStr] "is already on channel")
      return (name, channel, target, targetSession)

/-- `INVITE target #channel`, by an operator if the channel is invite-only. -/
def handleInvite (s : ServerState) (msg : Message) (c : ConnId) : ServerState :=
  match s.registry.getByConnection c with
  | none => s
  | some session =>
    let nick := session.nickname.name
    match msg.params with
    | targetStr :: chanStr :: _ =>
      match inviteCheck s session.nickname targetStr chanStr with
      | .error reply => s.send c reply
      | .ok (name, channel, target, targetSession) =>
        let channel := { channel with inviteList := channel.inviteList.insert target () }
        let s := { s with channels := s.channels.modify name fun _ => channel }
        let s := s.sendNumeric c rplInviting [nick, targetStr, chanStr] ""
        s.send targetSession.connectionId {
          prefix_ := some session.userPrefix
          command := .invite
          params := [targetStr, chanStr] }
    | _ => s.send c (needMoreParams nick "INVITE")

/-- `BAN #channel [mask | -mask]`: list, set or remove a ban. -/
def handleBan (s : ServerState) (msg : Message) (c : ConnId) (now : ℕ) : ServerState :=
  match s.registry.getByConnection c with
  | none => s
  | some session =>
    let nick := session.nickname.name
    match msg.params with
    | [] => s.send c (needMoreParams nick "BAN")
    | chanStr :: rest =>
      match findChannel s nick chanStr with
      | .error reply => s.send c reply
      | .ok (name, channel) =>
        match rest with
        | [] => s.reply c (banListReply nick name channel)
        | maskStr :: _ =>
          match requireOperator channel session.nickname chanStr with
          | .error reply => s.send c reply
          | .ok () =>
            let removing := maskStr.head? = some '-'
            let mask := if removing then maskStr.tail else maskStr
            let bans :=
              if removing then
                channel.banList.filter fun ban => lowercase ban.mask ≠ lowercase mask
              else channel.banList ++ [{ mask := mask, whoSet := nick, timestamp := now }]
            let channel := { channel with banList := bans }
            let s := { s with channels := s.channels.modify name fun _ => channel }
            s.broadcastToChannel channel {
              prefix_ := some session.userPrefix
              command := .mode
              params := [name.name, if removing then "-b" else "+b", mask] } none

/-! ## PRIVMSG, NOTICE, LIST and NAMES -/

/-- A message to a channel. Moderated channels let only voiced members and operators speak, and
channels without external messages only members. -/
def handleChannelMessage (s : ServerState) (c : ConnId) (session : UserSession) (command : Command)
    (target text : Str) : ServerState :=
  let refuse :=
    s.sendNumeric c errCannotSendToChan [session.nickname.name, target] "Cannot send to channel"
  match ChannelName.new target with
  | .error _ => refuse
  | .ok name =>
    match s.channels.get name with
    | none => refuse
    | some channel =>
      let status := channel.members.get session.nickname
      if status.isNone ∧ .noExternalMessages ∈ channel.modes then refuse
      else if .moderated ∈ channel.modes ∧ status ≠ some .operator ∧ status ≠ some .voiced then
        refuse
      else
        s.broadcastToChannel channel {
          prefix_ := some session.userPrefix
          command := command
          params := [target, text] } (some session.nickname)

def handleUserMessage (s : ServerState) (c : ConnId) (session : UserSession) (command : Command)
    (target text : Str) : ServerState :=
  let nick := session.nickname.name
  let noSuchNick := s.sendNumeric c errNoSuchNick [nick, target] "No such nick/channel"
  match Nickname.new target with
  | .error _ => noSuchNick
  | .ok targetNick =>
    match s.registry.getByNick targetNick with
    | none => noSuchNick
    | some targetSession =>
      let s := s.send targetSession.connectionId {
        prefix_ := some session.userPrefix
        command := command
        params := [target, text] }
      match targetSession.awayMessage with
      | some away =>
        if command = .privmsg then s.sendNumeric c rplAway [nick, target] away else s
      | none => s

def handleMessageCommand (s : ServerState) (msg : Message) (c : ConnId) (command : Command) :
    ServerState :=
  match s.registry.getByConnection c with
  | none => s
  | some session =>
    match msg.params with
    | target :: text :: _ =>
      if target.head? = some '#' ∨ target.head? = some '&' then
        handleChannelMessage s c session command target text
      else handleUserMessage s c session command target text
    | _ => s.send c (needMoreParams session.nickname.name command.asStr)

/-- `PRIVMSG`. -/
def handlePrivmsg (s : ServerState) (msg : Message) (c : ConnId) : ServerState :=
  handleMessageCommand s msg c .privmsg

/-- `NOTICE`, which is never answered. -/
def handleNotice (s : ServerState) (msg : Message) (c : ConnId) : ServerState :=
  handleMessageCommand s msg c .notice

/-- `LIST [#chan1,#chan2]`. Secret channels are listed for their members. -/
def handleList (s : ServerState) (msg : Message) (c : ConnId) : ServerState :=
  match s.registry.getByConnection c with
  | none => s
  | some session =>
    let nick := session.nickname.name
    let filters := msg.params.head?.map fun p => p.splitOn ','
    let visible := s.channels.listAll.filter fun e =>
      filters.all (fun names => names.any fun f => lowercase f = e.1.fold) &&
        !(decide (.secret ∈ e.2.modes) && !e.2.members.contains session.nickname)
    let replies := visible.map fun e =>
      numeric rplList [nick, e.1.name, decimal e.2.members.length]
        ((e.2.topic.map Topic.text).getD [])
    s.reply c (replies ++ [numeric rplListEnd [nick] "End of /LIST"])

/-- `NAMES [#chan1,#chan2]`. Without channels, those of the user. -/
def handleNames (s : ServerState) (msg : Message) (c : ConnId) : ServerState :=
  match s.registry.getByConnection c with
  | none => s
  | some session =>
    let nick := session.nickname.name
    match msg.params with
    | [] =>
      let own := s.channels.listAll.filter fun e => e.2.members.contains session.nickname
      s.reply c (own.flatMap fun e => namesReply nick e.1 e.2)
    | names :: _ =>
      s.reply c ((names.splitOn ',').flatMap fun chanStr =>
        match ChannelName.new chanStr with
        | .error _ => []
        | .ok name =>
          match s.channels.get name with
          | some channel => namesReply nick name channel
          | none => [numeric rplEndOfNames [nick, chanStr] "End of /NAMES list"])

end Pirc.Server
