import Pirc.Lib.Decimal
import Pirc.Network.Codec
import Pirc.Server.Channel
import Mathlib.Data.List.TakeWhile

/-!
# Client: commands as they are typed

`command_parser.rs` and `client_command`: what the client makes of a line of input.  The line is
split into the name of a command, a first argument and all of the rest; each command splits the rest
further, or does not.
-/

namespace Pirc.Client

open Protocol Network
open Server (isWhitespace ChannelName)

/-! ## Lines -/

inductive ParsedInput
  | chatMessage (text : Str)
  | command (name : Str) (args : List Str)
  deriving DecidableEq

namespace CommandParser

/-- The text up to its first white space, and what follows the white space. -/
def splitWord (text : Str) : Str × Str :=
  (text.takeWhile (fun c => !isWhitespace c),
    (text.dropWhile (fun c => !isWhitespace c)).dropWhile isWhitespace)

/-- The first word is an argument, and the text after it another. -/
def splitArgs (text : Str) : List Str :=
  let (first, rest) := splitWord text
  if rest.isEmpty then [first] else [first, rest]

def parse (input : Str) : ParsedInput :=
  if input.all isWhitespace then .chatMessage []
  else
    match input with
    | '/' :: '/' :: rest => .chatMessage ('/' :: rest)
    | '/' :: rest =>
      match rest.dropWhile isWhitespace with
      | [] => .command [] []
      | trimmed =>
        let (name, remainder) := splitWord trimmed
        .command (lowercase name) (if remainder.isEmpty then [] else splitArgs remainder)
    | _ => .chatMessage input

end CommandParser

/-! ## Commands -/

/-- Errors of `ClientCommand::from_parsed`. -/
inductive CommandError
  | missingArgument (command argument : String)
  | invalidArgument (command argument : String) (reason : Str)
  deriving DecidableEq

inductive EncryptionSubcommand
  | status
  | reset (nick : Str)
  | info (nick : Str)
  deriving DecidableEq

inductive PluginSubcommand
  | list
  | load (path : Str)
  | unload (name : Str)
  | reload (name : Str)
  | enable (name : Str)
  | disable (name : Str)
  | info (name : Str)
  deriving DecidableEq

inductive GroupSubcommand
  | create (name : Str)
  | invite (nick : Str)
  | join (groupId : ℕ)
  | leave
  | members
  | list
  | info
  deriving DecidableEq

inductive ClientCommand
  | join (channel : Str)
  | part (channel : Str) (reason : Option Str)
  | topic (channel : Str) (topic : Option Str)
  | list (pattern : Option Str)
  | invite (nick channel : Str)
  | names (channel : Option Str)
  | msg (target message : Str)
  | query (nick : Str) (message : Option Str)
  | me (action : Str)
  | notice (target message : Str)
  | ctcp (target command : Str) (args : Option Str)
  | nick (nick : Str)
  | whois (nick : Str)
  | away (reason : Option Str)
  | quit (reason : Option Str)
  | kick (channel nick : Str) (reason : Option Str)
  | ban (channel mask : Str)
  | mode (target : Str) (modeString : Option Str)
  | oper (name password : Str)
  | kill (nick reason : Str)
  | die (reason : Option Str)
  | restart (reason : Option Str)
  | cluster (sub : Str) (args : List Str)
  | inviteKey (args : List Str)
  | network (args : List Str)
  | reconnect
  | disconnect
  | group (sub : GroupSubcommand)
  | plugin (sub : PluginSubcommand)
  | encryption (sub : EncryptionSubcommand)
  | fingerprint (nick : Option Str)
  | help (topic : Option Str)
  | unknown (name : Str) (args : List Str)
  deriving DecidableEq

namespace ClientCommand

def joinAllArgs (args : List Str) : Option Str :=
  if args.isEmpty then none else some ([' '].intercalate args)

def splitSecondArg (text : Str) : Str × Option Str :=
  let (first, rest) := CommandParser.splitWord text
  (first, if rest.isEmpty then none else some rest)

/-- Channel names start with a number sign. -/
def requireChannel (channel : Str) (command : String) : Except CommandError Unit :=
  if channel.head? = some '#' then .ok ()
  else .error (.invalidArgument command "channel" "channel name must start with #".toList)

def argument (command argument : String) (arg : Option Str) : Except CommandError Str :=
  match arg with
  | some arg => .ok arg
  | none => .error (.missingArgument command argument)

variable (args : List Str)

def parseJoin : Except CommandError ClientCommand := do
  let channel ← argument "join" "channel" args[0]?
  requireChannel channel "join"
  return .join channel

def parsePart : Except CommandError ClientCommand := do
  let channel ← argument "part" "channel" args[0]?
  requireChannel channel "part"
  return .part channel args[1]?

def parseTopic : Except CommandError ClientCommand := do
  let channel ← argument "topic" "channel" args[0]?
  requireChannel channel "topic"
  return .topic channel args[1]?

def parseInvite : Except CommandError ClientCommand := do
  let nick ← argument "invite" "nick" args[0]?
  let trailing ← argument "invite" "channel" args[1]?
  let channel := (splitSecondArg trailing).1
  requireChannel channel "invite"
  return .invite nick channel

def parseMsg : Except CommandError ClientCommand := do
  let target ← argument "msg" "target" args[0]?
  let message ← argument "msg" "message" args[1]?
  return .msg target message

def parseQuery : Except CommandError ClientCommand := do
  let nick ← argument "query" "nick" args[0]?
  return .query nick args[1]?

def parseMe : Except CommandError ClientCommand := do
  let text ← argument "me" "action text" (joinAllArgs args)
  return .me text

def parseNotice : Except CommandError ClientCommand := do
  let target ← argument "notice" "target" args[0]?
  let message ← argument "notice" "message" args[1]?
  return .notice target message

def parseCtcp : Except CommandError ClientCommand := do
  let target ← argument "ctcp" "target" args[0]?
  let trailing ← argument "ctcp" "command" args[1]?
  let (ctcpCmd, ctcpArgs) := splitSecondArg trailing
  return .ctcp target (ctcpCmd.map Char.toUpper) ctcpArgs

def parseNick : Except CommandError ClientCommand := do
  let nick ← argument "nick" "nickname" args[0]?
  return .nick nick

def parseWhois : Except CommandError ClientCommand := do
  let nick ← argument "whois" "nick" args[0]?
  return .whois nick

def parseKick : Except CommandError ClientCommand := do
  let channel ← argument "kick" "channel" args[0]?
  requireChannel channel "kick"
  let trailing ← argument "kick" "nick" args[1]?
  let (target, reason) := splitSecondArg trailing
  return .kick channel target reason

def parseBan : Except CommandError ClientCommand := do
  let channel ← argument "ban" "channel" args[0]?
  requireChannel channel "ban"
  let trailing ← argument "ban" "mask" args[1]?
  return .ban channel (splitSecondArg trailing).1

def parseMode : Except CommandError ClientCommand := do
  let target ← argument "mode" "target" args[0]?
  return .mode target args[1]?

def parseOper : Except CommandError ClientCommand := do
  let name ← argument "oper" "name" args[0]?
  let trailing ← argument "oper" "password" args[1]?
  return .oper name (splitSecondArg trailing).1

def parseKill : Except CommandError ClientCommand := do
  let nick ← argument "kill" "nick" args[0]?
  let reason ← argument "kill" "reason" args[1]?
  return .kill nick reason

def parseCluster : Except CommandError ClientCommand := do
  let sub ← argument "cluster" "subcommand" args[0]?
  return .cluster sub args.tail

def unknownSubcommand (command : String) (sub : Str) (expected : String) :
    Except CommandError ClientCommand :=
  .error (.invalidArgument command "subcommand"
    ("unknown subcommand '".toList ++ sub ++ ("' (expected: " ++ expected ++ ")").toList))

/-- A subcommand whose argument is the first word of the trailing text. -/
def firstWordOf (command argument_ : String) : Except CommandError Str := do
  let trailing ← argument command argument_ args[1]?
  return (splitSecondArg trailing).1

def parsePlugin : Except CommandError ClientCommand := do
  let sub ← argument "plugin" "subcommand" args[0]?
  match String.ofList (lowercase sub) with
  | "list" => return .plugin .list
  | "load" => return .plugin (.load (← firstWordOf args "plugin load" "path"))
  | "unload" => return .plugin (.unload (← firstWordOf args "plugin unload" "name"))
  | "reload" => return .plugin (.reload (← firstWordOf args "plugin reload" "name"))
  | "enable" => return .plugin (.enable (← firstWordOf args "plugin enable" "name"))
  | "disable" => return .plugin (.disable (← firstWordOf args "plugin disable" "name"))
  | "info" => return .plugin (.info (← firstWordOf args "plugin info" "name"))
  | _ => unknownSubcommand "plugin" sub "list, load, unload, reload, enable, disable, info"

def parseEncryption : Except CommandError ClientCommand := do
  let sub ← argument "encryption" "subcommand" args[0]?
  match String.ofList (lowercase sub) with
  | "status" => return .encryption .status
  | "reset" => return .encryption (.reset (← firstWordOf args "encryption reset" "nick"))
  | "info" => return .encryption (.info (← firstWordOf args "encryption info" "nick"))
  | _ => unknownSubcommand "encryption" sub "status, reset, info"

def parseGroup : Except CommandError ClientCommand := do
  let sub ← argument "group" "subcommand" args[0]?
  match String.ofList (lowercase sub) with
  | "create" => return .group (.create (← argument "group create" "name" args[1]?))
  | "invite" => return .group (.invite (← firstWordOf args "group invite" "nick"))
  | "join" =>
    match Decimal.parse 64 (← firstWordOf args "group join" "group_id") with
    | .ok groupId => return .group (.join groupId)
    | .error _ =>
      .error (.invalidArgument "group join" "group_id" "must be a numeric group ID".toList)
  | "leave" => return .group .leave
  | "members" => return .group .members
  | "list" => return .group .list
  | "info" => return .group .info
  | _ => unknownSubcommand "group" sub "create, invite, join, leave, members, list, info"

/-- The command of a name with its arguments. -/
def fromParsed (name : Str) : Except CommandError ClientCommand :=
  match String.ofList name with
  | "join" => parseJoin args
  | "part" => parsePart args
  | "topic" => parseTopic args
  | "list" => .ok (.list args[0]?)
  | "invite" => parseInvite args
  | "names" => .ok (.names args[0]?)
  | "msg" | "privmsg" => parseMsg args
  | "query" => parseQuery args
  | "me" => parseMe args
  | "notice" => parseNotice args
  | "ctcp" => parseCtcp args
  | "nick" => parseNick args
  | "whois" => parseWhois args
  | "away" => .ok (.away (joinAllArgs args))
  | "quit" => .ok (.quit (joinAllArgs args))
  | "kick" => parseKick args
  | "ban" => parseBan args
  | "mode" => parseMode args
  | "oper" => parseOper args
  | "kill" => parseKill args
  | "die" => .ok (.die (joinAllArgs args))
  | "restart" => .ok (.restart (joinAllArgs args))
  | "cluster" => parseCluster args
  | "invite-key" => .ok (.inviteKey args)
  | "network" => .ok (.network args)
  | "reconnect" => .ok .reconnect
  | "disconnect" => .ok .disconnect
  | "group" => parseGroup args
  | "plugin" => parsePlugin args
  | "encryption" => parseEncryption args
  | "fingerprint" => .ok (.fingerprint args[0]?)
  | "help" => .ok (.help args[0]?)
  | _ => .ok (.unknown name args)

/-- The subcommand that `/cluster` sends; an unknown one is sent as a join. -/
def clusterSubcommand (sub : Str) : PircSubcommand :=
  match String.ofList (sub.map Char.toUpper) with
  | "WELCOME" => .clusterWelcome
  | "SYNC" => .clusterSync
  | "HEARTBEAT" => .clusterHeartbeat
  | "MIGRATE" => .clusterMigrate
  | "RAFT" => .clusterRaft
  | _ => .clusterJoin

def ctcpBody (text : Str) : Str := '\x01' :: text ++ ['\x01']

/-- The message that a command is sent as, if it is sent. The context is the active channel or
query. -/
def toMessage (context : Option Str) : ClientCommand → Option Message
  | join channel => some { command := .join, params := [channel] }
  | part channel reason => some { command := .part, params := channel :: reason.toList }
  | topic channel text => some { command := .topic, params := channel :: text.toList }
  | list pattern => some { command := .list, params := pattern.toList }
  | invite target channel => some { command := .invite, params := [target, channel] }
  | names channel => some { command := .names, params := channel.toList }
  | msg target message => some { command := .privmsg, params := [target, message] }
  | query target message => message.map fun text => { command := .privmsg, params := [target, text] }
  | me action => context.map fun target =>
      { command := .privmsg, params := [target, ctcpBody ("ACTION ".toList ++ action)] }
  | notice target message => some { command := .notice, params := [target, message] }
  | ctcp target command args =>
    let body := match args with
      | some args => command ++ ' ' :: args
      | none => command
    some { command := .privmsg, params := [target, ctcpBody body] }
  | nick name => some { command := .nick, params := [name] }
  | whois name => some { command := .whois, params := [name] }
  | away reason => some { command := .away, params := reason.toList }
  | quit reason => some { command := .quit, params := reason.toList }
  | kick channel target reason => some { command := .kick, params := channel :: target :: reason.toList }
  | ban channel mask => some { command := .ban, params := [channel, mask] }
  | mode target modeString => some { command := .mode, params := target :: modeString.toList }
  | oper name password => some { command := .oper, params := [name, password] }
  | kill target reason => some { command := .kill, params := [target, reason] }
  | die reason => some { command := .die, params := reason.toList }
  | restart reason => some { command := .restart, params := reason.toList }
  | cluster sub args => some { command := .pirc (clusterSubcommand sub), params := args }
  | inviteKey args => some { command := .pirc .keyExchange, params := args }
  | network args => some { command := .pirc .cap, params := args }
  | reconnect | disconnect | group _ | plugin _ | encryption _ | fingerprint _ | help _ |
    unknown _ _ => none

end ClientCommand

/-- The message that a line is sent as. -/
def sent (context : Option Str) (input : Str) : Option Message :=
  match CommandParser.parse input with
  | .chatMessage _ => none
  | .command name args =>
    match ClientCommand.fromParsed args name with
    | .ok command => command.toMessage context
    | .error _ => none

/-! ## Words -/

namespace CommandParser

variable {text first : Str}

/-- The first word of a text that starts with a number sign is a parameter, and no text is lost but
white space. -/
theorem splitArgs_hash (rest : Str) :
    ∃ more : Option Str, splitArgs ('#' :: rest) =
      ('#' :: rest.takeWhile (fun c => !isWhitespace c)) :: more.toList ∧
        ∀ arg ∈ splitArgs ('#' :: rest), ∀ c ∈ arg, c ∈ '#' :: rest := by
  have hfirst : (splitWord ('#' :: rest)).1 = '#' :: rest.takeWhile (fun c => !isWhitespace c) := rfl
  have hfirst_mem : ∀ c ∈ (splitWord ('#' :: rest)).1, c ∈ '#' :: rest := fun c hc =>
    (List.takeWhile_prefix _).mem hc
  have hrest_mem : ∀ c ∈ (splitWord ('#' :: rest)).2, c ∈ '#' :: rest := fun c hc =>
    (List.dropWhile_suffix _).mem ((List.dropWhile_suffix _).mem hc)
  unfold splitArgs
  dsimp only
  split_ifs with hempty
  · refine ⟨none, by rw [hfirst]; rfl, ?_⟩
    simpa using hfirst_mem
  · refine ⟨some (splitWord ('#' :: rest)).2, by rw [hfirst]; rfl, ?_⟩
    intro arg harg
    rcases List.mem_pair.mp harg with rfl | rfl
    · exact hfirst_mem
    · exact hrest_mem

theorem splitArgs_word (hfirst : ∀ c ∈ first, isWhitespace c = false) : splitArgs first = [first] := by
  have hdrop : first.dropWhile (fun c => !isWhitespace c) = [] :=
    List.dropWhile_eq_nil_iff.2 fun c hc => by simp [hfirst c hc]
  have htake : first.takeWhile (fun c => !isWhitespace c) = first :=
    List.takeWhile_eq_self_iff.2 fun c hc => by simp [hfirst c hc]
  unfold splitArgs splitWord
  rw [hdrop, htake]
  rfl

theorem splitArgs_append (hfirst : ∀ c ∈ first, isWhitespace c = false) {c : Char}
    (hc : isWhitespace c = false) (rest : Str) :
    splitArgs (first ++ ' ' :: c :: rest) = [first, c :: rest] := by
  have hspace : isWhitespace ' ' = true := by decide
  have hdrop : (first ++ ' ' :: c :: rest).dropWhile (fun c => !isWhitespace c) = ' ' :: c :: rest := by
    rw [List.dropWhile_append_of_pos fun c hc => by simp [hfirst c hc]]
    simp [hspace]
  have htake : (first ++ ' ' :: c :: rest).takeWhile (fun c => !isWhitespace c) = first := by
    rw [List.takeWhile_append_of_pos fun c hc => by simp [hfirst c hc]]
    simp [hspace]
  unfold splitArgs splitWord
  rw [hdrop, htake]
  simp [hspace, hc]

end CommandParser

/-! ## Typed lines -/

/-- Lines with the command `/mode` or `/join` and words after it. -/
inductive TypedLine
  | mode (channel : ChannelName) (words : List Str)
  | join (channel : ChannelName) (word : Str)
  deriving DecidableEq

namespace TypedLine

/-- What a word is: it has no white space, and no colon in front. -/
structure Word (w : Str) : Prop where
  ne_nil : w ≠ []
  wordly : ∀ c ∈ w, isWhitespace c = false
  colonless : w.head? ≠ some ':'

def text : TypedLine → Str
  | mode channel words => "/mode ".toList ++ channel.name ++ words.flatMap (' ' :: ·)
  | join channel word => "/join ".toList ++ channel.name ++ ' ' :: word

def command : TypedLine → Command
  | mode _ _ => .mode
  | join _ _ => .join

def params : TypedLine → List Str
  | mode channel words => channel.name :: words
  | join channel word => [channel.name, word]

/-- At most thirteen words follow the channel. -/
def Proper : TypedLine → Prop
  | mode _ words => words.length ≤ 13 ∧ ∀ w ∈ words, Word w
  | join _ word => Word word

def Fits (context : Option Str) (line : TypedLine) : Prop :=
  ∀ m ∈ sent context line.text, (utf8 m.toWire).length + 2 ≤ maxMessageLen

/-- **The server gets the command as it was typed**: a message is sent, and reading it off the wire
gives the command with its words. -/
def Delivered (context : Option Str) (line : TypedLine) : Prop :=
  ∃ m ∈ sent context line.text, ∃ bytes, PircCodec.encode m [] = .ok bytes ∧
    ∃ received : Message, PircCodec.decode bytes = (.ok (some received), []) ∧
      received.command = line.command ∧ received.params = line.params

/-- Lines of `/mode` with at most one word, whose channel has no white space in its name. -/
def AsTyped : TypedLine → Prop
  | mode channel words => words.length ≤ 1 ∧ ∀ c ∈ channel.name, isWhitespace c = false
  | join _ _ => False

variable {context : Option Str} {line : TypedLine}

def args : TypedLine → Str
  | mode channel words => channel.name ++ words.flatMap (' ' :: ·)
  | join channel word => channel.name ++ ' ' :: word

theorem sent_text (context : Option Str) (line : TypedLine) :
    sent context line.text = some { command := line.command, params :=
      match line with
      | mode _ _ => CommandParser.splitArgs line.args
      | join _ _ => (CommandParser.splitArgs line.args).take 1 } := by
  -- the name starts with a number sign, which ends the white space after the command
  cases line with
  | mode channel words =>
    obtain ⟨rest, hname, -⟩ := channel.name_eq
    obtain ⟨more, hsplit, -⟩ := CommandParser.splitArgs_hash (rest ++ words.flatMap (' ' :: ·))
    have hparse : CommandParser.parse (mode channel words).text =
        .command "mode".toList (CommandParser.splitArgs (mode channel words).args) := by
      change CommandParser.parse ("/mode ".toList ++ channel.name ++ words.flatMap (' ' :: ·)) =
        .command _ (CommandParser.splitArgs (channel.name ++ words.flatMap (' ' :: ·)))
      rw [hname]
      rfl
    have hargs : (mode channel words).args = '#' :: (rest ++ words.flatMap (' ' :: ·)) := by
      rw [args, hname, List.cons_append]
    unfold sent
    rw [hparse, hargs, hsplit]
    cases more with
    | none => rfl
    | some more => rfl
  | join channel word =>
    obtain ⟨rest, hname, -⟩ := channel.name_eq
    obtain ⟨more, hsplit, -⟩ := CommandParser.splitArgs_hash (rest ++ ' ' :: word)
    have hparse : CommandParser.parse (join channel word).text =
        .command "join".toList (CommandParser.splitArgs (join channel word).args) := by
      change CommandParser.parse ("/join ".toList ++ channel.name ++ ' ' :: word) =
        .command _ (CommandParser.splitArgs (channel.name ++ ' ' :: word))
      rw [hname]
      rfl
    have hargs : (join channel word).args = '#' :: (rest ++ ' ' :: word) := by
      rw [args, hname, List.cons_append]
    unfold sent
    rw [hparse, hargs, hsplit]
    rfl

theorem notMem_args (h : line.Proper) : '\r' ∉ line.args := by
  have hchannel : ∀ channel : ChannelName, '\r' ∉ channel.name := by
    intro channel hmem
    obtain ⟨rest, hname, hrest⟩ := channel.name_eq
    rw [hname, List.mem_cons] at hmem
    rcases hmem with hhash | hmem
    · exact absurd hhash (by decide)
    · exact absurd (hrest _ hmem).2 (by decide)
  have hword : ∀ {w : Str}, Word w → '\r' ∉ w := fun hw hmem =>
    absurd (hw.wordly _ hmem) (by decide)
  cases line with
  | mode channel words =>
    simp only [args, List.mem_append, List.mem_flatMap, List.mem_cons, not_or, not_exists, not_and]
    exact ⟨hchannel channel, fun w hw => ⟨by decide, hword (h.2 w hw)⟩⟩
  | join channel word =>
    simp only [args, List.mem_append, List.mem_cons, not_or]
    exact ⟨hchannel channel, by decide, hword h⟩

/-- A message without a prefix, whose only parameters are a number sign with a word after it and
maybe one more text, is read as it was sent. -/
theorem decode_encode_hash {command : Command} (hcommand : ∀ code, command ≠ .numeric code)
    {rest : Str} {more : Option Str} (hrest : ' ' ∉ rest) (hline : '\r' ∉ '#' :: rest)
    (hmore : ∀ arg ∈ more, '\r' ∉ arg) {bytes : List UInt8}
    (henc : PircCodec.encode { command := command, params := ('#' :: rest) :: more.toList } [] =
      .ok bytes) :
    PircCodec.decode bytes =
      (.ok (some { command := command, params := ('#' :: rest) :: more.toList }), []) := by
  have hplain : Plain ('#' :: rest) := ⟨List.cons_ne_nil _ _, by simp [hrest], by simp⟩
  have hlength : (('#' :: rest) :: more.toList).length < maxParams := by
    cases more with
    | none => simp [maxParams]
    | some more => simp [maxParams]
  have hwell : Message.WellFormed
      { command := command, params := ('#' :: rest) :: more.toList } := by
    refine ⟨by simp, fun code hcode => absurd hcode (hcommand code), hlength.le, ?_⟩
    cases more with
    | none => simp
    | some more => simpa using hplain
  have hlineless : Message.Lineless
      { command := command, params := ('#' :: rest) :: more.toList } := by
    intro arg harg
    have hnotMem : '\r' ∉ arg := by
      cases more with
      | none =>
        have hself : arg = '#' :: rest := by simpa [Message.strings] using harg
        exact hself ▸ hline
      | some more =>
        rcases (by simpa [Message.strings] using harg) with rfl | rfl
        · exact hline
        · exact hmore _ rfl
    have hnone : pairAt '\r' '\n' (arg ++ []) = none := pairAt_append_of_notMem hnotMem [] rfl
    rwa [List.append_nil] at hnone
  rw [PircCodec.decode_encode hwell hlineless henc, received_of_length hlength]

theorem exists_sent (context : Option Str) (h : line.Proper) :
    ∃ (rest : Str) (more : Option Str),
      sent context line.text = some { command := line.command, params := ('#' :: rest) :: more.toList } ∧
        ' ' ∉ rest ∧ '\r' ∉ '#' :: rest ∧ ∀ arg ∈ more, '\r' ∉ arg := by
  have hargs : ∃ rest, line.args = '#' :: rest := by
    cases line with
    | mode channel words =>
      obtain ⟨rest, hname, -⟩ := channel.name_eq
      exact ⟨_, by rw [args, hname, List.cons_append]⟩
    | join channel word =>
      obtain ⟨rest, hname, -⟩ := channel.name_eq
      exact ⟨_, by rw [args, hname, List.cons_append]⟩
  obtain ⟨rest, hrest⟩ := hargs
  obtain ⟨more, hsplit, hmem⟩ := CommandParser.splitArgs_hash rest
  have hnotMem := notMem_args h
  rw [hrest] at hnotMem
  have hline : ∀ arg ∈ CommandParser.splitArgs ('#' :: rest), '\r' ∉ arg := fun arg harg hc =>
    hnotMem (hmem arg harg _ hc)
  rw [hsplit] at hline
  have hspace : ' ' ∉ rest.takeWhile (fun c => !isWhitespace c) := fun hc =>
    absurd (List.mem_takeWhile_imp hc) (by decide)
  have hsent := sent_text context line
  rw [hrest, hsplit] at hsent
  cases line with
  | mode channel words =>
    exact ⟨_, more, hsent, hspace, hline _ List.mem_cons_self, fun arg harg =>
      hline arg (List.mem_cons_of_mem _ (Option.mem_toList.mpr harg))⟩
  | join channel word =>
    exact ⟨_, none, hsent, hspace, hline _ List.mem_cons_self, by simp⟩

theorem delivered_iff_sent (h : line.Proper) (hfits : line.Fits context) :
    line.Delivered context ↔
      ∃ m ∈ sent context line.text, m.params = line.params := by
  obtain ⟨rest, more, hsent, hspace, hline, hmore⟩ := exists_sent context h
  have hcommand : ∀ code, line.command ≠ .numeric code := by
    intro code
    cases line <;> simp [command]
  have henc := PircCodec.encode_of_le (hfits _ hsent)
  have hdecode := decode_encode_hash hcommand hspace hline hmore henc
  constructor
  · rintro ⟨m, hm, bytes, hbytes, received, hreceived, -, hparams⟩
    obtain rfl := Option.mem_unique hm hsent
    obtain rfl := Except.ok.inj (henc.symm.trans hbytes)
    rw [hdecode] at hreceived
    obtain rfl : _ = received := by simpa using hreceived
    exact ⟨_, hsent, hparams⟩
  · rintro ⟨m, hm, hparams⟩
    obtain rfl := Option.mem_unique hm hsent
    exact ⟨_, hsent, _, henc, _, hdecode, rfl, hparams⟩

/-- **A command reaches the server as it was typed exactly when** it is a `/mode` with at most one
word: more words arrive as one parameter, and of `/join` only the channel is sent. -/
theorem delivered_iff_asTyped (h : line.Proper) (hfits : line.Fits context) :
    line.Delivered context ↔ line.AsTyped := by
  rw [delivered_iff_sent h hfits, sent_text]
  clear hfits
  simp only [Option.mem_some_iff, exists_eq_left']
  cases line with
  | join channel word =>
    refine iff_of_false (fun hparams => ?_) not_false
    have hlength := congrArg List.length hparams
    simp only [List.length_take, params, List.length_cons, List.length_nil] at hlength
    omega
  | mode channel words =>
    obtain ⟨rest, hname, -⟩ := channel.name_eq
    simp only [args, params, AsTyped]
    by_cases hwhite : ∀ c ∈ channel.name, isWhitespace c = false
    · rw [and_iff_left hwhite]
      match words, h with
      | [], _ => simp [CommandParser.splitArgs_word hwhite]
      | word :: words, h =>
        have hword := h.2 word List.mem_cons_self
        obtain ⟨c, w, rfl⟩ := List.exists_cons_of_ne_nil hword.ne_nil
        have hc := hword.wordly c List.mem_cons_self
        have hsplit := CommandParser.splitArgs_append hwhite hc (w ++ words.flatMap (' ' :: ·))
        simp only [List.flatMap_cons, List.cons_append, hsplit]
        cases words with
        | nil => simp
        | cons next words => simp
    · -- the first argument ends before the white space
      refine iff_of_false (fun hparams => ?_) (fun h => hwhite h.2)
      obtain ⟨more, hsplit, -⟩ := CommandParser.splitArgs_hash (rest ++ words.flatMap (' ' :: ·))
      rw [hname, List.cons_append, hsplit, List.cons.injEq, List.cons.injEq] at hparams
      have hrest : ∀ c ∈ rest, isWhitespace c = false := by
        intro c hc
        rw [← hparams.1.2] at hc
        simpa using List.mem_takeWhile_imp hc
      refine hwhite fun c hc => ?_
      rw [hname, List.mem_cons] at hc
      rcases hc with rfl | hc
      · decide
      · exact hrest c hc

section Examples

def pircChannel : ChannelName := ⟨"#pirc".toList, by decide +kernel⟩

theorem word_of {w : Str} (h : w ≠ [] ∧ (w.all fun c => !isWhitespace c) ∧ w.head? ≠ some ':') :
    Word w :=
  ⟨h.1, fun c hc => by simpa using List.all_eq_true.mp h.2.1 c hc, h.2.2⟩

theorem fits_of {m : Message} (hsent : sent context line.text = some m)
    (h : (utf8 m.toWire).length + 2 ≤ maxMessageLen) : line.Fits context := by
  intro m' hm'
  obtain rfl := Option.mem_unique hm' hsent
  exact h

/-- `/mode #pirc +m` gets there. -/
theorem delivered_mode_moderated : (mode pircChannel ["+m".toList]).Delivered none := by
  have hproper : (mode pircChannel ["+m".toList]).Proper :=
    ⟨by decide, by simpa using word_of (by decide)⟩
  have hfits : (mode pircChannel ["+m".toList]).Fits none :=
    fits_of (m := { command := .mode, params := ["#pirc".toList, "+m".toList] }) rfl
      (by decide +kernel)
  have hall : ("#pirc".toList.all fun c => !isWhitespace c) = true := by decide
  have hasTyped : (mode pircChannel ["+m".toList]).AsTyped :=
    ⟨by decide, fun c hc => by simpa using List.all_eq_true.mp hall c hc⟩
  exact (delivered_iff_asTyped hproper hfits).mpr hasTyped

/-- **The nickname of `/mode #pirc +o bob` and the key of `/join #pirc secret` do not get there** as
they were typed: the server reads the modes as `+o bob`, and the key is not sent. -/
theorem not_delivered :
    (¬ ∀ (context : Option Str) (channel : ChannelName) (words : List Str),
      (mode channel words).Proper → (mode channel words).Fits context →
      (mode channel words).Delivered context) ∧
    ¬ ∀ (context : Option Str) (channel : ChannelName) (word : Str),
      (join channel word).Proper → (join channel word).Fits context →
      (join channel word).Delivered context := by
  constructor
  · intro h
    have hproper : (mode pircChannel ["+o".toList, "bob".toList]).Proper :=
      ⟨by decide, by simpa using ⟨word_of (by decide), word_of (by decide)⟩⟩
    have hfits : (mode pircChannel ["+o".toList, "bob".toList]).Fits none :=
      fits_of (m := { command := .mode, params := ["#pirc".toList, "+o bob".toList] }) rfl
        (by decide +kernel)
    obtain ⟨m, hm, hparams⟩ := (delivered_iff_sent hproper hfits).mp (h none _ _ hproper hfits)
    obtain rfl := Option.some.inj hm
    exact absurd hparams (by decide)
  · intro h
    have hproper : (join pircChannel "secret".toList).Proper := word_of (by decide)
    have hfits : (join pircChannel "secret".toList).Fits none :=
      fits_of (m := { command := .join, params := ["#pirc".toList] }) rfl (by decide +kernel)
    obtain ⟨m, hm, hparams⟩ := (delivered_iff_sent hproper hfits).mp (h none _ _ hproper hfits)
    obtain rfl := Option.some.inj hm
    exact absurd hparams (by decide)

end Examples

end TypedLine

end Pirc.Client
