import Pirc.Lib.Base64
import Pirc.Network.Chunks
import Pirc.Server.GroupRegistry
import Pirc.Server.OfflineStore
import Pirc.Server.UserCommands

/-!
# Server: the `PIRC` commands of users

The handlers of `handler.rs`, `handler_relay.rs`, `handler_p2p.rs` and `handler_group.rs` for key
exchanges, encrypted messages, connections between users, and groups. Most of them relay a message
to another user as it is, under the sender's own prefix.
-/

namespace Pirc.Server

open Protocol Network

/-! ## State -/

/-- Pre-key bundles by nickname, and the chunks of bundles that are being uploaded. -/
structure PreKeyBundleStore where
  bundles : FoldMap Nickname.fold (List UInt8) := ∅
  chunkBuffer : FoldMap Nickname.fold ChunkBuffer := ∅

namespace PreKeyBundleStore

def addBundleChunk (store : PreKeyBundleStore) (nick : Nickname) (chunk : Str) (n total : ℕ) :
    Option Str × PreKeyBundleStore :=
  let (assembled, buffer) := addChunk (store.chunkBuffer.get nick) chunk n total
  (assembled, { store with
    chunkBuffer := buffer.elim (store.chunkBuffer.remove nick) (store.chunkBuffer.insert nick) })

def storeBundle (store : PreKeyBundleStore) (nick : Nickname) (data : List UInt8) :
    PreKeyBundleStore :=
  { store with bundles := store.bundles.insert nick data }

def getBundle (store : PreKeyBundleStore) (nick : Nickname) : Option (List UInt8) :=
  store.bundles.get nick

end PreKeyBundleStore

/-- The server, with the stores of the extension. -/
structure PircServer where
  server : ServerState := {}
  preKeys : PreKeyBundleStore := {}
  offline : OfflineMessageStore := {}
  groups : GroupRegistry := {}

def serverNotice (nick : Nickname) (text : Str) : Message :=
  { prefix_ := some (.server serverName), command := .notice, params := [nick.name, text] }

def noSuchNick (session : UserSession) (target : Str) : Message :=
  numeric errNoSuchNick [session.nickname.name, target] "No such nick/channel"

namespace PircServer

variable (s : PircServer) (msg : Message) (c : ConnId)

def deliver (out : List (ConnId × Message)) : PircServer := { s with server := s.server.deliver out }

def reply (msgs : List Message) : PircServer := { s with server := s.server.reply c msgs }

def session : Option UserSession := s.server.registry.getByConnection c

def relayOrQueue (session : UserSession) (target : Nickname) (relay : Message) (notice : Str)
    (now : ℕ) : PircServer :=
  match s.server.registry.getByNick target with
  | some targetSession => s.reply targetSession.connectionId [relay]
  | none =>
    { s with offline := (s.offline.queueMessage target relay now).2 }.reply c
      [serverNotice session.nickname (target.name ++ notice)]

def relayOrRefuse (session : UserSession) (target : Nickname) (relay : Message) : PircServer :=
  match s.server.registry.getByNick target with
  | some targetSession => s.reply targetSession.connectionId [relay]
  | none => s.reply c [noSuchNick session target.name]

end PircServer

/-! ## Key exchanges and relays -/

def bundleChunkSize : ℕ := 400

def bundleMessages (requester : Nickname) (encoded : Str) : List Message :=
  if bundleChunkSize < encoded.length then
    (numbered (chunks bundleChunkSize encoded)).map fun (chunk, n, total) =>
      { prefix_ := some (.server serverName)
        command := .pirc .keyExchange
        params := [requester.name, chunkHeader n total, chunk] }
  else
    [{ prefix_ := some (.server serverName)
       command := .pirc .keyExchange
       params := [requester.name, encoded] }]

/-- The message asks for a bundle: it carries no data, or data that says so. -/
def isRequestBundle (params : List Str) : Bool :=
  match params with
  | _ :: data :: _ => (Base64.decode data).any fun bytes => bytes.head? = some 0
  | _ => true

def relayed (session : UserSession) (command : Command) (params : List Str) : Message :=
  { prefix_ := some session.userPrefix, command := command, params := params }

def relayCheck (session : UserSession) (name : Str) (params : List Str) : Except Message Nickname :=
  match params with
  | [] => .error (needMoreParams session.nickname.name name)
  | targetStr :: _ =>
    match Nickname.new targetStr with
    | .error _ => .error (noSuchNick session targetStr)
    | .ok target => .ok target

def offlineNotice : Str := " is offline. Message will be delivered when they reconnect."

namespace PircServer

variable (s : PircServer) (msg : Message) (c : ConnId)

/-- `PIRC KEYEXCHANGE <target> [data]`: a bundle that is asked for comes from the store, and
anything else is relayed. -/
def handleKeyExchange (now : ℕ) : PircServer :=
  match s.session c with
  | none => s
  | some session =>
    match relayCheck session "KEYEXCHANGE" msg.params with
    | .error refusal => s.reply c [refusal]
    | .ok target =>
      if isRequestBundle msg.params then
        match s.preKeys.getBundle target with
        | some data => s.reply c (bundleMessages session.nickname (Base64.encode data))
        | none =>
          s.reply c [serverNotice session.nickname
            ("No pre-key bundle available for ".toList ++ target.name)]
      else
        s.relayOrQueue c session target
          (relayed session (.pirc .keyExchange) (target.name :: msg.params.tail)) offlineNotice now

/-- The base64 data of a bundle that is uploaded, once all of it is there. -/
def uploaded (nick : Nickname) : List Str → Option Str × PircServer
  | _ :: header :: chunk :: _ =>
    match parseChunkHeader header with
    | some (n, total) =>
      let (assembled, preKeys) := s.preKeys.addBundleChunk nick chunk n total
      (assembled, { s with preKeys := preKeys })
    | none => (some header, s)
  | [_, data] => (some data, s)
  | _ => (none, s)

/-- `PIRC KEYEXCHANGE * <data>`: a user uploads its bundle, which is kept as it is. -/
def maybeStorePrekeyBundle : PircServer :=
  match s.session c with
  | none => s
  | some session =>
    match s.uploaded session.nickname msg.params with
    | (none, s) => s
    | (some encoded, s) =>
      match Base64.decode encoded with
      | none => s.reply c [serverNotice session.nickname "Invalid key exchange data encoding"]
      | some data =>
        if data.head? ≠ some 1 then
          s.reply c [serverNotice session.nickname "Expected a Bundle message for registration"]
        else
          { s with preKeys := s.preKeys.storeBundle session.nickname data }.reply c
            [serverNotice session.nickname "Pre-key bundle registered"]

/-- Relay a message of the encryption protocol, now or once its target registers. -/
def handleRelay (sub : PircSubcommand) (now : ℕ) : PircServer :=
  match s.session c with
  | none => s
  | some session =>
    match relayCheck session sub.asStr msg.params with
    | .error refusal => s.reply c [refusal]
    | .ok target =>
      s.relayOrQueue c session target (relayed session (.pirc sub) msg.params) offlineNotice now

/-- Relay a message about a connection between users, to one who is there. -/
def handleP2pRelay (sub : PircSubcommand) : PircServer :=
  match s.session c with
  | none => s
  | some session =>
    match relayCheck session sub.asStr msg.params with
    | .error refusal => s.reply c [refusal]
    | .ok target => s.relayOrRefuse c session target (relayed session (.pirc sub) msg.params)

end PircServer

/-! ## Groups -/

/-- What a message for a member of a group has to pass: enough parameters, a group the sender is a
member of, and a target. -/
def groupCheck (groups : GroupRegistry) (session : UserSession) (name : Str) (needed : ℕ)
    (params : List Str) : Except Message (GroupId × Nickname) :=
  match params with
  | groupStr :: targetStr :: _ =>
    if params.length < needed then .error (needMoreParams session.nickname.name name)
    else
      match GroupId.parse groupStr with
      | none => .error (serverNotice session.nickname "Invalid group ID")
      | some group =>
        if ¬ groups.isMember group session.nickname.name then
          .error (serverNotice session.nickname "You are not a member of this group")
        else
          match Nickname.new targetStr with
          | .error _ => .error (noSuchNick session targetStr)
          | .ok target => .ok (group, target)
  | _ => .error (needMoreParams session.nickname.name name)

def GroupId.text (group : GroupId) : Str := decimal group.toNat

/-- **The message that is relayed** for a member of a group, or the reply that refuses it. -/
def groupRelay (groups : GroupRegistry) (session : UserSession) (sub : PircSubcommand)
    (params : List Str) : Except Message (GroupId × Nickname × Message) := do
  match sub with
  | .groupInvite =>
    let (group, target) ← groupCheck groups session "GROUP INVITE" 2 params
    return (group, target, relayed session (.pirc .groupInvite)
      [group.text, target.name, (groups.groupName group).getD []])
  | .groupMessage =>
    let (group, target) ← groupCheck groups session "GROUP MSG" 3 params
    return (group, target, relayed session (.pirc .groupMessage)
      [group.text, target.name, params.getD 2 []])
  | sub =>
    let (group, target) ← groupCheck groups session sub.asStr 2 params
    return (group, target, relayed session (.pirc sub) params)

namespace PircServer

variable (s : PircServer) (msg : Message) (c : ConnId)

def broadcastToGroupMembers (members : List Str) (msg : Message) : PircServer :=
  s.deliver (members.filterMap fun member =>
    match Nickname.new member with
    | .ok nick => (s.server.registry.getByNick nick).map fun session => (session.connectionId, msg)
    | .error _ => none)

def handleGroupCreate (now : ℕ) : PircServer :=
  match s.session c with
  | none => s
  | some session =>
    match msg.params with
    | [] => s.reply c [needMoreParams session.nickname.name "GROUP CREATE"]
    | name :: _ =>
      let (group, groups) := s.groups.createGroup name session.nickname.name now
      { s with groups := groups }.reply c
        [relayed session (.pirc .groupCreate) [group.text, name]]

def handleGroupInvite : PircServer :=
  match s.session c with
  | none => s
  | some session =>
    match groupRelay s.groups session .groupInvite msg.params with
    | .error refusal => s.reply c [refusal]
    | .ok (_, target, relay) => s.relayOrRefuse c session target relay

/-- `PIRC GROUP JOIN <group>`: whoever knows the number may join. -/
def handleGroupJoin (now : ℕ) : PircServer :=
  match s.session c with
  | none => s
  | some session =>
    match msg.params with
    | [] => s.reply c [needMoreParams session.nickname.name "GROUP JOIN"]
    | groupStr :: _ =>
      match GroupId.parse groupStr with
      | none => s.reply c [serverNotice session.nickname "Invalid group ID"]
      | some group =>
        if ¬ s.groups.exists_ group then
          s.reply c [serverNotice session.nickname "Group does not exist"]
        else
          match s.groups.addMember group session.nickname.name now with
          | (false, _) => s.reply c [serverNotice session.nickname "Already a member of this group"]
          | (true, groups) =>
            let members := groups.members group
            ({ s with groups := groups }.broadcastToGroupMembers members
              (relayed session (.pirc .groupJoin) [group.text])).reply c
                [{ prefix_ := some (.server serverName)
                   command := .pirc .groupMembers
                   params := group.text :: members }]

/-- A user leaves a group; those who stay are told. -/
def handleMemberLeave (group : GroupId) (session : UserSession) : PircServer :=
  match s.groups.removeMember group session.nickname.name with
  | (none, _) => s
  | (some result, groups) =>
    let s := { s with groups := groups }
    if result.groupDestroyed then s
    else s.broadcastToGroupMembers result.remaining (relayed session (.pirc .groupLeave) [group.text])

def handleGroupLeave : PircServer :=
  match s.session c with
  | none => s
  | some session =>
    match msg.params with
    | [] => s.reply c [needMoreParams session.nickname.name "GROUP LEAVE"]
    | groupStr :: _ =>
      match GroupId.parse groupStr with
      | none => s.reply c [serverNotice session.nickname "Invalid group ID"]
      | some group => s.handleMemberLeave group session

/-- `PIRC GROUP MSG <group> <target> <payload>`: relay a message, now or once its target
registers. -/
def handleGroupMessageRelay (now : ℕ) : PircServer :=
  match s.session c with
  | none => s
  | some session =>
    match groupRelay s.groups session .groupMessage msg.params with
    | .error refusal => s.reply c [refusal]
    | .ok (_, target, relay) =>
      s.relayOrQueue c session target relay
        " is offline. Group message will be delivered when they reconnect." now

/-- Relay a message about keys or a connection to a member of a group. -/
def handleGroupSignalingRelay (sub : PircSubcommand) : PircServer :=
  match s.session c with
  | none => s
  | some session =>
    match groupRelay s.groups session sub msg.params with
    | .error refusal => s.reply c [refusal]
    | .ok (_, target, relay) => s.relayOrRefuse c session target relay

def removeUserFromAllGroups (session : UserSession) : PircServer :=
  (s.groups.groupsForMember session.nickname.name).foldl
    (fun s group => s.handleMemberLeave group session) s

/-- The messages that waited for a user, in the order of their delivery. -/
def deliverOfflineMessages (nick : Nickname) (now : ℕ) : PircServer :=
  let (messages, offline) := s.offline.takeMessages nick now
  { s with offline := offline }.reply c (OfflineMessageStore.deliveryOrder messages)

/-- The dispatch of `PIRC` commands, on a server that is not part of a cluster. -/
def handlePirc (sub : PircSubcommand) (clock : Clock) : PircServer :=
  match sub with
  | .keyExchange =>
    if msg.params.head? = some ['*'] then s.maybeStorePrekeyBundle msg c
    else s.handleKeyExchange msg c clock.instant
  | .encrypted | .keyExchangeAck | .keyExchangeComplete | .fingerprint =>
    s.handleRelay msg c sub clock.instant
  | .p2pOffer | .p2pAnswer | .p2pIce | .p2pEstablished | .p2pFailed => s.handleP2pRelay msg c sub
  | .groupCreate => s.handleGroupCreate msg c clock.unix
  | .groupInvite => s.handleGroupInvite msg c
  | .groupJoin => s.handleGroupJoin msg c clock.unix
  | .groupLeave => s.handleGroupLeave msg c
  | .groupMessage => s.handleGroupMessageRelay msg c clock.instant
  | .groupKeyExchange | .groupP2pOffer | .groupP2pAnswer | .groupP2pIce =>
    s.handleGroupSignalingRelay msg c sub
  | _ => s

end PircServer

end Pirc.Server
