import Pirc.Lib.Text

/-!
# Protocol: messages

The types of `pirc-protocol` (`command.rs`, `prefix.rs`, `message.rs`, `error.rs`) and the nicknames
of `pirc-common`, with the wire format messages are written in. Strings are lists of characters;
positions that the source counts in bytes at ASCII characters are positions in these lists.
-/

namespace Pirc.Protocol

abbrev Str := List Char

def decimal (n : ℕ) : Str := Nat.toDigits 10 n

/-! ## Nicknames -/

/-- Errors of `Nickname::new`. -/
inductive NicknameError
  | empty
  | tooLong (length : ℕ)
  | invalidFirstChar (c : Char)
  | invalidChar (c : Char) (position : ℕ)
  deriving DecidableEq

def NicknameError.text : NicknameError → Str
  | empty => "nickname must not be empty".toList
  | tooLong n => "nickname must not exceed 30 characters (got ".toList ++ decimal n ++ ")".toList
  | invalidFirstChar c =>
    "nickname must start with a letter or one of: _ \\ ` [ ] \x7b \x7d ^ | (got '".toList ++
      [c] ++ "')".toList
  | invalidChar c i =>
    "nickname contains invalid character '".toList ++ [c] ++ "' at position ".toList ++ decimal i

def isValidFirstChar (c : Char) : Bool := c.isAlpha || c ∈ "_\\`[]\x7b\x7d^|".toList

def isValidSubsequentChar (c : Char) : Bool := isValidFirstChar c || c.isDigit || c = '-'

def validateRest (i : ℕ) : Str → Except NicknameError Unit
  | [] => .ok ()
  | c :: rest => if isValidSubsequentChar c then validateRest (i + 1) rest else .error (.invalidChar c i)

/-- The rules for nicknames. The length is counted in bytes. -/
def Nickname.validate (s : Str) : Except NicknameError Unit :=
  match s with
  | [] => .error .empty
  | first :: rest =>
    if 30 < (utf8 s).length then .error (.tooLong (utf8 s).length)
    else if isValidFirstChar first then validateRest 1 rest
    else .error (.invalidFirstChar first)

/-- A name that passed `Nickname.validate`. -/
structure Nickname where
  name : Str
  valid : Nickname.validate name = .ok ()
  deriving DecidableEq

def Nickname.new (s : Str) : Except NicknameError Nickname :=
  match h : Nickname.validate s with
  | .ok () => .ok ⟨s, h⟩
  | .error e => .error e

theorem Nickname.new_name (nick : Nickname) : Nickname.new nick.name = .ok nick := by
  unfold Nickname.new
  split
  · rfl
  · next e h =>
    rw [nick.valid] at h
    cases h

theorem Nickname.new_of_valid {s : Str} (h : Nickname.validate s = .ok ()) :
    Nickname.new s = .ok ⟨s, h⟩ :=
  Nickname.new_name ⟨s, h⟩

theorem validateRest_eq_ok {s : Str} : ∀ {i : ℕ}, validateRest i s = .ok () →
    ∀ c ∈ s, isValidSubsequentChar c := by
  induction s with
  | nil =>
    intro i _ c hc
    cases hc
  | cons x s ih =>
    intro i h c hc
    rw [validateRest] at h
    split_ifs at h with hx
    rcases List.mem_cons.mp hc with rfl | hmem
    · exact hx
    · exact ih h c hmem

theorem Nickname.forall_mem (nick : Nickname) : ∀ c ∈ nick.name, isValidSubsequentChar c := by
  obtain ⟨name, h⟩ := nick
  intro c hc
  cases name with
  | nil => cases hc
  | cons first rest =>
    rw [validate] at h
    split_ifs at h with hlen hfirst
    rcases List.mem_cons.mp hc with rfl | hmem
    · simp [isValidSubsequentChar, hfirst]
    · exact validateRest_eq_ok h c hmem

/-! ## Commands -/

/-- The subcommands of `PIRC`. -/
inductive PircSubcommand
  | version | cap
  | keyExchange | keyExchangeAck | keyExchangeComplete | fingerprint | encrypted
  | clusterJoin | clusterWelcome | clusterSync | clusterHeartbeat | clusterMigrate | clusterRaft
  | clusterStatus | clusterMembers
  | inviteKeyGenerate | inviteKeyList | inviteKeyRevoke
  | networkInfo
  | p2pOffer | p2pAnswer | p2pIce | p2pEstablished | p2pFailed
  | groupCreate | groupInvite | groupJoin | groupLeave | groupMessage | groupMembers
  | groupKeyExchange | groupP2pOffer | groupP2pAnswer | groupP2pIce
  deriving DecidableEq

namespace PircSubcommand

/-- The keyword, or the two keywords of a namespaced subcommand. -/
def asStr : PircSubcommand → String
  | version => "VERSION"
  | cap => "CAP"
  | keyExchange => "KEYEXCHANGE"
  | keyExchangeAck => "KEYEXCHANGE-ACK"
  | keyExchangeComplete => "KEYEXCHANGE-COMPLETE"
  | fingerprint => "FINGERPRINT"
  | encrypted => "ENCRYPTED"
  | clusterJoin => "CLUSTER JOIN"
  | clusterWelcome => "CLUSTER WELCOME"
  | clusterSync => "CLUSTER SYNC"
  | clusterHeartbeat => "CLUSTER HEARTBEAT"
  | clusterMigrate => "CLUSTER MIGRATE"
  | clusterRaft => "CLUSTER RAFT"
  | clusterStatus => "CLUSTER STATUS"
  | clusterMembers => "CLUSTER MEMBERS"
  | inviteKeyGenerate => "INVITE-KEY GENERATE"
  | inviteKeyList => "INVITE-KEY LIST"
  | inviteKeyRevoke => "INVITE-KEY REVOKE"
  | networkInfo => "NETWORK INFO"
  | p2pOffer => "P2P OFFER"
  | p2pAnswer => "P2P ANSWER"
  | p2pIce => "P2P ICE"
  | p2pEstablished => "P2P ESTABLISHED"
  | p2pFailed => "P2P FAILED"
  | groupCreate => "GROUP CREATE"
  | groupInvite => "GROUP INVITE"
  | groupJoin => "GROUP JOIN"
  | groupLeave => "GROUP LEAVE"
  | groupMessage => "GROUP MSG"
  | groupMembers => "GROUP MEMBERS"
  | groupKeyExchange => "GROUP KEYEX"
  | groupP2pOffer => "GROUP P2P-OFFER"
  | groupP2pAnswer => "GROUP P2P-ANSWER"
  | groupP2pIce => "GROUP P2P-ICE"

def fromKeyword : String → Option PircSubcommand
  | "VERSION" => some version
  | "CAP" => some cap
  | "KEYEXCHANGE" => some keyExchange
  | "KEYEXCHANGE-ACK" => some keyExchangeAck
  | "KEYEXCHANGE-COMPLETE" => some keyExchangeComplete
  | "FINGERPRINT" => some fingerprint
  | "ENCRYPTED" => some encrypted
  | _ => none

def fromNamespace (namespace_ inner : String) : Option PircSubcommand :=
  match namespace_ with
  | "CLUSTER" =>
    match inner with
    | "JOIN" => some clusterJoin
    | "WELCOME" => some clusterWelcome
    | "SYNC" => some clusterSync
    | "HEARTBEAT" => some clusterHeartbeat
    | "MIGRATE" => some clusterMigrate
    | "RAFT" => some clusterRaft
    | "STATUS" => some clusterStatus
    | "MEMBERS" => some clusterMembers
    | _ => none
  | "INVITE-KEY" =>
    match inner with
    | "GENERATE" => some inviteKeyGenerate
    | "LIST" => some inviteKeyList
    | "REVOKE" => some inviteKeyRevoke
    | _ => none
  | "NETWORK" =>
    match inner with
    | "INFO" => some networkInfo
    | _ => none
  | "P2P" =>
    match inner with
    | "OFFER" => some p2pOffer
    | "ANSWER" => some p2pAnswer
    | "ICE" => some p2pIce
    | "ESTABLISHED" => some p2pEstablished
    | "FAILED" => some p2pFailed
    | _ => none
  | "GROUP" =>
    match inner with
    | "CREATE" => some groupCreate
    | "INVITE" => some groupInvite
    | "JOIN" => some groupJoin
    | "LEAVE" => some groupLeave
    | "MSG" => some groupMessage
    | "MEMBERS" => some groupMembers
    | "KEYEX" => some groupKeyExchange
    | "P2P-OFFER" => some groupP2pOffer
    | "P2P-ANSWER" => some groupP2pAnswer
    | "P2P-ICE" => some groupP2pIce
    | _ => none
  | _ => none

end PircSubcommand

/-- The commands of the protocol. -/
inductive Command
  | nick | user | join | part | privmsg | notice | quit | kick | ban | mode | topic | whois | list
  | names | invite | away | oper | kill | die | restart | wallops | motd | ping | pong | error
  | numeric (code : UInt16)
  | pirc (sub : PircSubcommand)
  deriving DecidableEq

namespace Command

def keyword : Command → Option String
  | privmsg => some "PRIVMSG"
  | ping => some "PING"
  | pong => some "PONG"
  | notice => some "NOTICE"
  | nick => some "NICK"
  | join => some "JOIN"
  | part => some "PART"
  | quit => some "QUIT"
  | mode => some "MODE"
  | user => some "USER"
  | topic => some "TOPIC"
  | kick => some "KICK"
  | ban => some "BAN"
  | whois => some "WHOIS"
  | list => some "LIST"
  | names => some "NAMES"
  | invite => some "INVITE"
  | away => some "AWAY"
  | oper => some "OPER"
  | kill => some "KILL"
  | die => some "DIE"
  | restart => some "RESTART"
  | wallops => some "WALLOPS"
  | motd => some "MOTD"
  | error => some "ERROR"
  | pirc _ => some "PIRC"
  | numeric _ => none

/-- How a command is written: its keyword, or its code with at least three digits. -/
def asStr : Command → Str
  | numeric code => (decimal code.toNat).leftpad 3 '0'
  | command => (command.keyword.getD "").toList

def fromDigits : Str → Option Command
  | [a, b, c] =>
    if a.isDigit ∧ b.isDigit ∧ c.isDigit then
      some (numeric (UInt16.ofNat
        ((a.toNat - '0'.toNat) * 100 + (b.toNat - '0'.toNat) * 10 + (c.toNat - '0'.toNat))))
    else none
  | _ => none

/-- A command by its keyword or its three-digit code. The source looks at the length first, which
only saves comparisons. -/
def fromKeyword (s : Str) : Option Command :=
  match String.ofList s with
  | "BAN" => some ban
  | "DIE" => some die
  | "PING" => some ping
  | "PONG" => some pong
  | "NICK" => some nick
  | "JOIN" => some join
  | "PART" => some part
  | "QUIT" => some quit
  | "MODE" => some mode
  | "USER" => some user
  | "KICK" => some kick
  | "KILL" => some kill
  | "LIST" => some list
  | "OPER" => some oper
  | "AWAY" => some away
  | "MOTD" => some motd
  | "TOPIC" => some topic
  | "WHOIS" => some whois
  | "NAMES" => some names
  | "ERROR" => some error
  | "NOTICE" => some notice
  | "INVITE" => some invite
  | "PRIVMSG" => some privmsg
  | "WALLOPS" => some wallops
  | "RESTART" => some restart
  | _ => fromDigits s

end Command

/-! ## Messages -/

inductive Prefix
  | server (name : Str)
  | user (nick : Nickname) (username host : Str)
  deriving DecidableEq

def Prefix.toWire : Prefix → Str
  | server name => name
  | user nick username host => nick.name ++ '!' :: username ++ '@' :: host

structure Message where
  prefix_ : Option Prefix := none
  command : Command
  params : List Str
  deriving DecidableEq

def maxParams : ℕ := 15

/-- The last parameter is written after a colon when it is empty, has a space in it or starts with
a colon itself. -/
def needsColon (last : Str) : Bool := last.isEmpty || ' ' ∈ last || last.head? = some ':'

namespace Message

def paramsToWire : List Str → Str
  | [] => []
  | [last] => if needsColon last then ' ' :: ':' :: last else ' ' :: last
  | param :: next :: params => ' ' :: param ++ paramsToWire (next :: params)

def commandToWire : Command → Str
  | .pirc sub => (Command.pirc sub).asStr ++ ' ' :: sub.asStr.toList
  | command => command.asStr

/-- The wire format, without the end of the line. -/
def toWire (m : Message) : Str :=
  (match m.prefix_ with
    | some p => ':' :: p.toWire ++ [' ']
    | none => []) ++ commandToWire m.command ++ paramsToWire m.params

end Message

inductive ProtocolError
  | emptyMessage
  | messageTooLong (length max : ℕ)
  | missingCommand
  | unknownCommand (text : Str)
  | invalidPrefix (text : Str)
  | invalidNickname (text : Str)
  | tooManyParams (count max : ℕ)
  deriving DecidableEq

end Pirc.Protocol
