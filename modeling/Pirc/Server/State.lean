import Pirc.Lib.Outcome
import Pirc.Server.Channel

/-!
# Server: state and replies

What the handlers of a server share: the user registry, the channel registry and the mailboxes of
the connections, with the helpers that queue messages (`handler.rs`, `handler_channel/util.rs`).
-/

namespace Pirc.Server

open Protocol

/-! ## Numeric replies -/

def rplWelcome : UInt16 := 1
def rplYourHost : UInt16 := 2
def rplCreated : UInt16 := 3
def rplUModeIs : UInt16 := 221
def rplAway : UInt16 := 301
def rplUnaway : UInt16 := 305
def rplNowAway : UInt16 := 306
def rplWhoisUser : UInt16 := 311
def rplWhoisServer : UInt16 := 312
def rplWhoisOperator : UInt16 := 313
def rplWhoisIdle : UInt16 := 317
def rplEndOfWhois : UInt16 := 318
def rplList : UInt16 := 322
def rplListEnd : UInt16 := 323
def rplChannelModeIs : UInt16 := 324
def rplNoTopic : UInt16 := 331
def rplTopic : UInt16 := 332
def rplTopicWhoTime : UInt16 := 333
def rplInviting : UInt16 := 341
def rplNamReply : UInt16 := 353
def rplEndOfNames : UInt16 := 366
def rplBanList : UInt16 := 367
def rplEndOfBanList : UInt16 := 368
def rplMotd : UInt16 := 372
def rplMotdStart : UInt16 := 375
def rplEndOfMotd : UInt16 := 376
def rplYoureOper : UInt16 := 381
def errNoSuchNick : UInt16 := 401
def errNoSuchChannel : UInt16 := 403
def errCannotSendToChan : UInt16 := 404
def errTooManyChannels : UInt16 := 405
def errNoMotd : UInt16 := 422
def errNoNicknameGiven : UInt16 := 431
def errErroneusNickname : UInt16 := 432
def errNicknameInUse : UInt16 := 433
def errUserNotInChannel : UInt16 := 441
def errNotOnChannel : UInt16 := 442
def errUserOnChannel : UInt16 := 443
def errNeedMoreParams : UInt16 := 461
def errAlreadyRegistered : UInt16 := 462
def errPasswdMismatch : UInt16 := 464
def errChannelIsFull : UInt16 := 471
def errUnknownMode : UInt16 := 472
def errInviteOnlyChan : UInt16 := 473
def errBannedChannel : UInt16 := 474
def errBadChannelKey : UInt16 := 475
def errNoPrivileges : UInt16 := 481
def errChanOpPrivsNeeded : UInt16 := 482
def errNoOperHost : UInt16 := 491
def errUModeUnknownFlag : UInt16 := 501
def errUsersDontMatch : UInt16 := 502

/-! ## State -/

def serverName : Str := "pircd".toList

def serverVersion : Str := "0.1.2".toList

/-- What the handlers share. The mail is all that was queued, each message with the connection it
was queued for, the oldest first. -/
structure ServerState where
  registry : UserRegistry := {}
  channels : ChannelRegistry := {}
  mail : List (ConnId × Message) := []

/-- Text is written as a string. -/
instance : Coe String Str := ⟨String.toList⟩

def numeric (code : UInt16) (params : List Str) (trailing : Str) : Message :=
  { prefix_ := some (.server serverName), command := .numeric code, params := params ++ [trailing] }

def UserSession.userPrefix (session : UserSession) : Prefix :=
  .user session.nickname session.username session.hostname

/-- The connections of a channel's members, without the one that is excluded. A member that has no
session is passed over. -/
def recipients (registry : UserRegistry) (channel : Channel) (exclude : Option Nickname) :
    List ConnId :=
  channel.members.keys.filterMap fun member =>
    if exclude.any (fun nick => nick.fold = member.fold) then none
    else (registry.getByNick member).map UserSession.connectionId

/-- The replies that list the members of a channel. -/
def namesReply (nick : Str) (name : ChannelName) (channel : Channel) : List Message :=
  let names := channel.members.entries.map fun e => e.2.prefixChar.toList ++ e.1.name
  let sorted := names.insertionSort (· ≤ ·)
  [numeric rplNamReply [nick, "=", name.name] ([' '].intercalate sorted),
    numeric rplEndOfNames [nick, name.name] "End of /NAMES list"]

/-- The replies that tell a topic. -/
def topicReply (nick : Str) (name : ChannelName) (channel : Channel) : List Message :=
  match channel.topic with
  | some topic =>
    [numeric rplTopic [nick, name.name] topic.text,
      numeric rplTopicWhoTime [nick, name.name, topic.who, decimal topic.timestamp] ""]
  | none => [numeric rplNoTopic [nick, name.name] "No topic is set"]

/-- The replies that list the bans of a channel. -/
def banListReply (nick : Str) (name : ChannelName) (channel : Channel) : List Message :=
  (channel.banList.map fun ban =>
    numeric rplBanList [nick, name.name, ban.mask, ban.whoSet, decimal ban.timestamp] "") ++
    [numeric rplEndOfBanList [nick, name.name] "End of channel ban list"]

namespace ServerState

def deliver (s : ServerState) (out : List (ConnId × Message)) : ServerState :=
  { s with mail := s.mail ++ out }

def reply (s : ServerState) (c : ConnId) (msgs : List Message) : ServerState :=
  s.deliver (msgs.map fun msg => (c, msg))

def send (s : ServerState) (c : ConnId) (msg : Message) : ServerState := s.reply c [msg]

/-- Queue a numeric reply. -/
def sendNumeric (s : ServerState) (c : ConnId) (code : UInt16) (params : List Str)
    (trailing : Str) : ServerState :=
  s.send c (numeric code params trailing)

/-- Queue a message for the members of a channel. -/
def broadcastToChannel (s : ServerState) (channel : Channel) (msg : Message)
    (exclude : Option Nickname) : ServerState :=
  s.deliver ((recipients s.registry channel exclude).map fun c => (c, msg))

/-! Queueing messages leaves the registries alone. -/

section Frame

variable (s : ServerState) (c : ConnId)

@[simp] theorem deliver_registry (out : List (ConnId × Message)) :
    (s.deliver out).registry = s.registry := rfl

@[simp] theorem reply_registry (msgs : List Message) : (s.reply c msgs).registry = s.registry := rfl

@[simp] theorem send_registry (msg : Message) : (s.send c msg).registry = s.registry := rfl

@[simp] theorem send_channels (msg : Message) : (s.send c msg).channels = s.channels := rfl

@[simp] theorem broadcastToChannel_channels (channel : Channel) (msg : Message)
    (exclude : Option Nickname) :
    (s.broadcastToChannel channel msg exclude).channels = s.channels := rfl

end Frame

end ServerState

end Pirc.Server
