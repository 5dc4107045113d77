import Pirc.Server.Membership
import Pirc.Server.PircCommands

/-!
# Server: connections and the `PIRC` commands

`handle_message` and `handle_connection` with the stores of the extension: a user who registers gets
what waited for it, and one who quits or whose connection is lost leaves its groups. What they do to
the registry of users is what they do without the extension.
-/

namespace Pirc.Server

open Protocol

namespace PircServer

/-! ## Messages -/

def touch (s : PircServer) (c : ConnId) (clock : Clock) : PircServer :=
  { s with server := s.server.touch c clock }

def removeByConnection (s : PircServer) (c : ConnId) : PircServer :=
  { s with server := { s.server with registry := (s.server.registry.removeByConnection c).2 } }

def handleQuit (s : PircServer) (msg : Message) (c : ConnId) (state : PreRegistrationState) :
    PircServer × PreRegistrationState :=
  let quitMessage := msg.params.head?.getD "Client Quit"
  let session := s.session c
  let hostname := (session.map UserSession.hostname).getD state.hostname
  let s :=
    match session with
    | some session =>
      { s with server := s.server.broadcastQuitAndRemove session.nickname {
          prefix_ := some session.userPrefix
          command := .quit
          params := [quitMessage] } }.removeUserFromAllGroups session
    | none => s
  let s := if state.registered then s.removeByConnection c else s
  (s.reply c [{
    command := .error
    params := ["Closing Link: ".toList ++ hostname ++ " (Quit: ".toList ++ quitMessage ++
      ")".toList] }], { state with registered := false })

/-- The dispatch of messages. -/
def handleMessage (config : ServerConfig) (clock : Clock) (s : PircServer) (msg : Message)
    (c : ConnId) (state : PreRegistrationState) :
    PircServer × PreRegistrationState × HandleResult :=
  match state.registered, msg.command with
  | true, .quit =>
    let (s, state) := (s.touch c clock).handleQuit msg c state
    (s, state, .quit)
  | true, .pirc sub => ((s.touch c clock).handlePirc msg c sub clock, state, .continue_)
  | registered, _ =>
    let (server, state, result) := Server.handleMessage config clock s.server msg c state
    let s := { s with server := server }
    -- who registers with this message gets what waited for it
    match registered, state.registered, state.nick with
    | false, true, some nick => (s.deliverOfflineMessages c nick clock.instant, state, result)
    | _, _, _ => (s, state, result)

def cleanup (s : PircServer) (c : ConnId) (state : PreRegistrationState) : PircServer :=
  if state.registered then
    (match s.session c with
      | some session => s.removeUserFromAllGroups session
      | none => s).removeByConnection c
  else s

end PircServer

/-! ## The loop of a connection -/

/-- The server with its stores, the connections it serves and the id of the next one. -/
structure PircWorld where
  world : World := {}
  preKeys : PreKeyBundleStore := {}
  offline : OfflineMessageStore := {}
  groups : GroupRegistry := {}

namespace PircWorld

def server (w : PircWorld) : PircServer := ⟨w.world.server, w.preKeys, w.offline, w.groups⟩

def setServer (w : PircWorld) (s : PircServer) (c : ConnId) (conn : Option Connection) : PircWorld where
  world := { w.world with server := s.server }.setConnection c conn
  preKeys := s.preKeys
  offline := s.offline
  groups := s.groups

def receive (config : ServerConfig) (w : PircWorld) (c : ConnId) (msg : Message) (clock : Clock) :
    PircWorld :=
  match w.world.connections c with
  | some conn =>
    let (s, state, result) := w.server.handleMessage config clock msg c conn.state
    w.setServer s c (some ⟨state, some result⟩)
  | none => w

def lose (w : PircWorld) (c : ConnId) : PircWorld :=
  match w.world.connections c with
  | some conn => w.setServer (w.server.cleanup c conn.state) c none
  | none => w

def step (config : ServerConfig) (w : PircWorld) : Event → PircWorld
  | .accepted hostname => { w with world := w.world.accept config hostname }
  | .received c msg clock => w.receive config c msg clock
  | .flushed c => { w with world := w.world.flush c }
  | .lost c => w.lose c

end PircWorld

/-! ## The registries -/

/-- **Users and groups are as they were**: messages are relayed or answered. -/
structure Relays (s t : PircServer) : Prop where
  registry : t.server.registry = s.server.registry
  groups : t.groups = s.groups

theorem Relays.refl (s : PircServer) : Relays s s := ⟨rfl, rfl⟩

namespace PircServer

variable {s : PircServer} {msg : Message} {c : ConnId}

@[simp] theorem deliver_registry (out : List (ConnId × Message)) :
    (s.deliver out).server.registry = s.server.registry := rfl

@[simp] theorem reply_registry (msgs : List Message) :
    (s.reply c msgs).server.registry = s.server.registry := rfl

theorem relays_reply (msgs : List Message) : Relays s (s.reply c msgs) := ⟨rfl, rfl⟩

theorem relayOrQueue_relays {session : UserSession} {target : Nickname} {relay : Message}
    {notice : Str} {now : ℕ} : Relays s (s.relayOrQueue c session target relay notice now) := by
  unfold relayOrQueue
  split
  · exact ⟨rfl, rfl⟩
  · exact ⟨rfl, rfl⟩

theorem relayOrRefuse_relays {session : UserSession} {target : Nickname} {relay : Message} :
    Relays s (s.relayOrRefuse c session target relay) := by
  unfold relayOrRefuse
  split
  · exact ⟨rfl, rfl⟩
  · exact ⟨rfl, rfl⟩

theorem uploaded_relays {nick : Nickname} {params : List Str} :
    Relays s (s.uploaded nick params).2 := by
  unfold uploaded
  split
  · split
    · exact ⟨rfl, rfl⟩
    · exact ⟨rfl, rfl⟩
  · exact ⟨rfl, rfl⟩
  · exact ⟨rfl, rfl⟩

theorem handleKeyExchange_relays {now : ℕ} : Relays s (s.handleKeyExchange msg c now) := by
  unfold handleKeyExchange
  rcases s.session c with - | session
  · exact .refl s
  · dsimp only
    rcases relayCheck session "KEYEXCHANGE" msg.params with refusal | target
    · exact relays_reply _
    · dsimp only
      split_ifs
      · rcases s.preKeys.getBundle target with - | data
        · exact relays_reply _
        · exact relays_reply _
      · exact relayOrQueue_relays

theorem maybeStorePrekeyBundle_relays : Relays s (s.maybeStorePrekeyBundle msg c) := by
  unfold maybeStorePrekeyBundle
  rcases s.session c with - | session
  · exact .refl s
  · have huploaded := @uploaded_relays s session.nickname msg.params
    dsimp only
    rcases hresult : s.uploaded session.nickname msg.params with ⟨- | encoded, t⟩
    all_goals rw [hresult] at huploaded
    · exact huploaded
    · dsimp only
      rcases Base64.decode encoded with - | data
      · exact ⟨huploaded.registry, huploaded.groups⟩
      · dsimp only
        split_ifs
        · exact ⟨huploaded.registry, huploaded.groups⟩
        · exact ⟨huploaded.registry, huploaded.groups⟩

theorem handleRelay_relays {sub : PircSubcommand} {now : ℕ} :
    Relays s (s.handleRelay msg c sub now) := by
  unfold handleRelay
  rcases s.session c with - | session
  · exact .refl s
  · dsimp only
    rcases relayCheck session sub.asStr msg.params with refusal | target
    · exact relays_reply _
    · exact relayOrQueue_relays

theorem handleP2pRelay_relays {sub : PircSubcommand} : Relays s (s.handleP2pRelay msg c sub) := by
  unfold handleP2pRelay
  rcases s.session c with - | session
  · exact .refl s
  · dsimp only
    rcases relayCheck session sub.asStr msg.params with refusal | target
    · exact relays_reply _
    · exact relayOrRefuse_relays

theorem handleGroupInvite_relays : Relays s (s.handleGroupInvite msg c) := by
  unfold handleGroupInvite
  rcases s.session c with - | session
  · exact .refl s
  · dsimp only
    rcases groupRelay s.groups session .groupInvite msg.params with refusal | ⟨group, target, relay⟩
    · exact relays_reply _
    · exact relayOrRefuse_relays

theorem handleGroupMessageRelay_relays {now : ℕ} :
    Relays s (s.handleGroupMessageRelay msg c now) := by
  unfold handleGroupMessageRelay
  rcases s.session c with - | session
  · exact .refl s
  · dsimp only
    rcases groupRelay s.groups session .groupMessage msg.params with refusal | ⟨group, target, relay⟩
    · exact relays_reply _
    · exact relayOrQueue_relays

theorem handleGroupSignalingRelay_relays {sub : PircSubcommand} :
    Relays s (s.handleGroupSignalingRelay msg c sub) := by
  unfold handleGroupSignalingRelay
  rcases s.session c with - | session
  · exact .refl s
  · dsimp only
    rcases groupRelay s.groups session sub msg.params with refusal | ⟨group, target, relay⟩
    · exact relays_reply _
    · exact relayOrRefuse_relays

/-! Creating, joining and leaving groups writes to the groups. -/

@[simp] theorem handleMemberLeave_registry {group : GroupId} {session : UserSession} :
    (s.handleMemberLeave group session).server.registry = s.server.registry := by
  unfold handleMemberLeave
  split
  · rfl
  · dsimp only
    split_ifs
    · rfl
    · rfl

@[simp] theorem removeUserFromAllGroups_registry {session : UserSession} :
    (s.removeUserFromAllGroups session).server.registry = s.server.registry := by
  unfold removeUserFromAllGroups
  induction s.groups.groupsForMember session.nickname.name generalizing s with
  | nil => rfl
  | cons group groups ih => rw [List.foldl_cons, ih, handleMemberLeave_registry]

theorem handleGroupCreate_registry {now : ℕ} :
    (s.handleGroupCreate msg c now).server.registry = s.server.registry := by
  unfold handleGroupCreate
  rcases s.session c with - | session
  · rfl
  · rcases msg.params with - | ⟨name, rest⟩
    · rfl
    · rfl

theorem handleGroupJoin_registry {now : ℕ} :
    (s.handleGroupJoin msg c now).server.registry = s.server.registry := by
  unfold handleGroupJoin
  rcases s.session c with - | session
  · rfl
  · rcases msg.params with - | ⟨groupStr, rest⟩
    · rfl
    · dsimp only
      rcases GroupId.parse groupStr with - | group
      · rfl
      · dsimp only
        rcases s.groups.addMember group session.nickname.name now with ⟨- | -, groups⟩
        · dsimp only
          split_ifs
          · rfl
          · rfl
        · dsimp only
          split_ifs
          · rfl
          · rfl

theorem handleGroupLeave_registry :
    (s.handleGroupLeave msg c).server.registry = s.server.registry := by
  unfold handleGroupLeave
  rcases s.session c with - | session
  · rfl
  · rcases msg.params with - | ⟨groupStr, rest⟩
    · rfl
    · dsimp only
      rcases GroupId.parse groupStr with - | group
      · rfl
      · exact handleMemberLeave_registry

/-- **Other `PIRC` commands** relay and answer. -/
theorem handlePirc_relays {sub : PircSubcommand} (clock : Clock) (hcreate : sub ≠ .groupCreate)
    (hjoin : sub ≠ .groupJoin) (hleave : sub ≠ .groupLeave) : Relays s (s.handlePirc msg c sub clock) := by
  unfold handlePirc
  split
  · split_ifs
    · exact maybeStorePrekeyBundle_relays
    · exact handleKeyExchange_relays
  iterate 4 exact handleRelay_relays
  iterate 5 exact handleP2pRelay_relays
  · exact absurd rfl hcreate
  · exact handleGroupInvite_relays
  · exact absurd rfl hjoin
  · exact absurd rfl hleave
  · exact handleGroupMessageRelay_relays
  iterate 4 exact handleGroupSignalingRelay_relays
  · exact .refl s

/-- **`PIRC` commands** do nothing to the registry. -/
theorem handlePirc_registry (sub : PircSubcommand) (clock : Clock) :
    (s.handlePirc msg c sub clock).server.registry = s.server.registry := by
  rcases eq_or_ne sub .groupCreate with rfl | hcreate
  · exact handleGroupCreate_registry
  rcases eq_or_ne sub .groupJoin with rfl | hjoin
  · exact handleGroupJoin_registry
  rcases eq_or_ne sub .groupLeave with rfl | hleave
  · exact handleGroupLeave_registry
  · exact (handlePirc_relays clock hcreate hjoin hleave).registry

theorem handleQuit_registry {state : PreRegistrationState} (hregistered : state.registered = true) :
    (s.handleQuit msg c state).1.server.registry =
      (Server.handleQuit s.server msg c state).1.registry := by
  rw [registry_handleQuit hregistered]
  unfold handleQuit session
  dsimp only
  rw [if_pos hregistered]
  rcases s.server.registry.getByConnection c with - | session
  · rfl
  · simp only [reply_registry, removeByConnection, removeUserFromAllGroups_registry,
      (broadcastQuitAndRemove_spec ..).1]

/-- **The registry** is what it is without the extension, and so is the state of the connection. -/
theorem handleMessage_registry (config : ServerConfig) (clock : Clock)
    (state : PreRegistrationState) : (s.handleMessage config clock msg c state).1.server.registry =
        (Server.handleMessage config clock s.server msg c state).1.registry ∧
      (s.handleMessage config clock msg c state).2 =
        (Server.handleMessage config clock s.server msg c state).2 := by
  unfold handleMessage
  split
  · next hregistered hquit =>
    have hstate : (Server.handleQuit (s.server.touch c clock) msg c state).2 =
        ((s.touch c clock).handleQuit msg c state).2 := rfl
    simp only [Server.handleMessage, hregistered, if_true, handleRegistered, hquit]
    refine ⟨?_, ?_⟩
    · rw [handleQuit_registry hregistered]
      rfl
    · rw [← hstate]
      rfl
  · next sub hregistered hpirc =>
    have hcommand (t : ServerState) : handleCommand config clock t msg c = t := by
      simp [handleCommand, hpirc]
    have hbase : Server.handleMessage config clock s.server msg c state =
        (s.server.touch c clock, state, .continue_) := by
      simp [Server.handleMessage, hregistered, handleRegistered, hpirc, hcommand]
    rw [hbase]
    exact ⟨handlePirc_registry sub clock, rfl⟩
  · -- what waited is sent, and nothing else is done
    dsimp only
    split
    · exact ⟨rfl, rfl⟩
    · exact ⟨rfl, rfl⟩

theorem cleanup_registry {state : PreRegistrationState} :
    (s.cleanup c state).server.registry = (Server.cleanup s.server c state).registry := by
  unfold cleanup Server.cleanup
  split_ifs
  · rcases s.session c with - | session
    · rfl
    · simp only [removeByConnection, removeUserFromAllGroups_registry]
  · rfl

end PircServer

/-! ## Runs -/

namespace PircWorld

variable {config : ServerConfig} {w : PircWorld} {c : ConnId}

theorem receive_inv (hw : w.world.Inv) (msg : Message) (clock : Clock) :
    (w.receive config c msg clock).world.Inv := by
  unfold receive
  rcases hconn : w.world.connections c with - | conn
  · exact hw
  · obtain ⟨hreg, hresult⟩ :=
      (@PircServer.handleMessage_registry w.server msg c) config clock conn.state
    have hhandled := handleMessage_handled (s := w.server.server) (c := c) config clock msg
      hw.consistent (hw.registered hconn)
    dsimp only
    generalize w.server.handleMessage config clock msg c conn.state = result at hreg hresult ⊢
    apply World.inv_setConnection hw (hw.served hconn)
    · rw [hreg]
      exact hhandled.consistent
    · intro c' hne hnone
      rw [hreg]
      exact hhandled.others c' hne hnone
    · rintro conn' ⟨⟩ hstate
      rw [hreg]
      apply hhandled.unregistered
      rw [← hresult]
      exact hstate

theorem lose_inv (hw : w.world.Inv) : (w.lose c).world.Inv := by
  have hlost := World.lose_inv (c := c) hw
  unfold lose
  unfold World.lose at hlost
  rcases hconn : w.world.connections c with - | conn
  · exact hw
  · rw [hconn] at hlost
    have hreg := @PircServer.cleanup_registry w.server c conn.state
    apply World.inv_setConnection hw (hw.served hconn)
    · rw [hreg]
      exact hlost.consistent
    · intro c' hne hnone
      rw [hreg]
      unfold cleanup
      split
      · exact (hw.consistent.lookup_removeByConnection c c').trans ((if_neg hne.symm).trans hnone)
      · exact hnone
    · rintro conn' ⟨⟩

/-- **Every run** keeps what runs without the extension keep. -/
theorem step_inv (hw : w.world.Inv) (e : Event) : (w.step config e).world.Inv := by
  cases e with
  | accepted hostname => exact World.accept_inv hw hostname
  | received c msg clock => exact receive_inv hw msg clock
  | flushed c => exact World.flush_inv hw
  | lost c => exact lose_inv hw

end PircWorld

end Pirc.Server
