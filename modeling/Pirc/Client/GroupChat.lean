import Pirc.Crypto.Bytes
import Pirc.Lib.Tlv
import Pirc.P2p.GroupMesh

/-!
# Client: encrypted group chat

`group_chat/`: a group message is put into an envelope, encrypted for every ready member, and goes
to each over its transport, or else through the server. Joins and leaves keep the keys and the mesh
of a group together; a key exchange writes to the keys alone, whenever it is done, so one that ends
after its member left makes that member a recipient again.
-/

namespace Pirc.Client

open Crypto P2p Protocol

abbrev GroupId := UInt64

/-! ## Envelopes -/

/-- A message with its place in the sender's order. -/
structure MessageEnvelope where
  sequenceNumber : ℕ
  timestampMs : ℕ
  plaintext : List UInt8
  deriving DecidableEq

def envelopeHeaderSize : ℕ := 16

namespace MessageEnvelope

def toBytes (envelope : MessageEnvelope) : List UInt8 :=
  Tlv.bigEndian 8 envelope.sequenceNumber ++ Tlv.bigEndian 8 envelope.timestampMs ++
    envelope.plaintext

def fromBytes (bytes : List UInt8) : Except String MessageEnvelope :=
  if bytes.length < envelopeHeaderSize then
    .error ("envelope too short: expected at least " ++ toString envelopeHeaderSize ++
      " bytes, got " ++ toString bytes.length)
  else .ok {
    sequenceNumber := Tlv.ofBigEndian (bytes.take 8)
    timestampMs := Tlv.ofBigEndian ((bytes.drop 8).take 8)
    plaintext := bytes.drop envelopeHeaderSize }

end MessageEnvelope

/-! ## Groups -/

structure GroupState (τ : Type) where
  keyManager : GroupKeyManager := {}
  mesh : GroupMesh τ := {}
  nextSequence : ℕ := 1

/-- The groups, each with its state. -/
structure GroupChatManager (τ : Type) where
  groups : GroupId → Option (GroupState τ) := fun _ => none

inductive DeliveryPath
  | p2p
  | relay
  deriving DecidableEq

structure DeliveryResult where
  recipient : Str
  path : DeliveryPath
  encryptedPayload : List UInt8
  deriving DecidableEq

structure RelayMessage where
  groupId : GroupId
  target : Str
  encryptedPayload : List UInt8
  deriving DecidableEq

structure ReceivedGroupMessage where
  groupId : GroupId
  sender : Str
  sequenceNumber : ℕ
  timestampMs : ℕ
  plaintext : List UInt8
  deriving DecidableEq

namespace GroupState

variable {τ : Type} (state : GroupState τ)

def addMember (nickname : Str) : GroupState τ :=
  { state with
    keyManager := state.keyManager.addMember nickname
    mesh := state.mesh.addMember nickname }

def removeMember (nickname : Str) : GroupState τ :=
  { state with
    keyManager := state.keyManager.removeMember nickname
    mesh := state.mesh.removeMember nickname }

/-- What becomes of a message for one recipient: its transport takes it, or the server has to. -/
def deliver (sent : τ → List UInt8 → Bool) (groupId : GroupId) (nickname : Str)
    (message : EncryptedMessage) : DeliveryResult × Option RelayMessage :=
  let payload := message.toBytes
  if (state.mesh.getTransport nickname).any fun transport => sent transport payload then
    (⟨nickname, .p2p, payload⟩, none)
  else (⟨nickname, .relay, payload⟩, some ⟨groupId, nickname, payload⟩)

variable {state} {sent : τ → List UInt8 → Bool} {groupId : GroupId} {nickname : Str}
  {message : EncryptedMessage} {relay : RelayMessage}

theorem deliver_recipient :
    (state.deliver sent groupId nickname message).1.recipient = nickname := by
  unfold deliver
  dsimp only
  split_ifs
  · rfl
  · rfl

theorem deliver_target (h : (state.deliver sent groupId nickname message).2 = some relay) :
    relay.target = nickname := by
  unfold deliver at h
  dsimp only at h
  split_ifs at h
  obtain rfl := Option.some.inj h
  rfl

end GroupState

namespace GroupChatManager

variable {τ : Type} (manager : GroupChatManager τ) (groupId : GroupId) (nickname : Str)

def setGroup (state : Option (GroupState τ)) : GroupChatManager τ where
  groups := Function.update manager.groups groupId state

def onGroup (f : GroupState τ → GroupState τ) : GroupChatManager τ :=
  match manager.groups groupId with
  | none => manager
  | some state => manager.setGroup groupId (some (f state))

def addGroup : GroupChatManager τ :=
  match manager.groups groupId with
  | some _ => manager
  | none => manager.setGroup groupId (some {})

def removeGroup : GroupChatManager τ := manager.setGroup groupId none

/-! ## Members -/

def addMember : GroupChatManager τ := manager.onGroup groupId fun state => state.addMember nickname

def removeMember : GroupChatManager τ :=
  manager.onGroup groupId fun state => state.removeMember nickname

def setMemberEstablishing : GroupChatManager τ :=
  manager.onGroup groupId fun state =>
    { state with keyManager := state.keyManager.setEstablishing nickname }

def setMemberSession (session : TripleRatchetSession) : GroupChatManager τ :=
  manager.onGroup groupId fun state =>
    { state with keyManager := state.keyManager.setSession nickname session }

def memberConnected (transport : τ) : GroupChatManager τ :=
  manager.onGroup groupId fun state =>
    { state with mesh := state.mesh.memberConnected nickname transport }

def memberDegraded (reason : Str) : GroupChatManager τ :=
  manager.onGroup groupId fun state =>
    { state with mesh := state.mesh.memberDegraded nickname reason }

def memberDisconnected : GroupChatManager τ :=
  manager.onGroup groupId fun state => { state with mesh := state.mesh.memberDisconnected nickname }

def reconnectMember (transport : τ) : Bool × GroupChatManager τ :=
  match (manager.groups groupId).bind fun state => state.mesh.memberState nickname with
  | some .relayFallback | some .disconnected | some .connecting =>
    (true, manager.memberConnected groupId nickname transport)
  | some .connected => (false, manager)
  | none => (false, manager)

/-- Someone joined a group; false if it is known already. -/
def handleMemberJoin : Bool × GroupChatManager τ :=
  match manager.groups groupId with
  | none => (false, manager)
  | some state =>
    if (state.keyManager.memberState nickname).isSome then (false, manager)
    else (true, manager.setGroup groupId (some (state.addMember nickname)))

/-- Someone left a group; false if it was not known. -/
def handleMemberLeave : Bool × GroupChatManager τ :=
  match manager.groups groupId with
  | none => (false, manager)
  | some state =>
    if (state.keyManager.memberState nickname).isNone then (false, manager)
    else (true, manager.setGroup groupId (some (state.removeMember nickname)))

/-! ## Messages -/

variable (P : Primitives)

/-- Send a message to all ready members of a group. `now` is the clock, and `sent` says whether a
transport takes a payload. -/
def sendMessage (plaintext : List UInt8) (now : ℕ) (sent : τ → List UInt8 → Bool) (rng : OsRng) :
    Except String (List DeliveryResult × List RelayMessage) × GroupChatManager τ × OsRng :=
  match manager.groups groupId with
  | none => (.error ("group " ++ toString groupId ++ " not found"), manager, rng)
  | some state =>
    let envelope : MessageEnvelope := ⟨state.nextSequence, now, plaintext⟩
    let state := { state with nextSequence := state.nextSequence + 1 }
    match (P.encryptForGroup envelope.toBytes).run (state.keyManager, rng) with
    | .error e (keyManager, rng) =>
      (.error ("encryption failed: " ++ e.display),
        manager.setGroup groupId (some { state with keyManager := keyManager }), rng)
    | .ok encrypted (keyManager, rng) =>
      let deliveries := encrypted.map fun (nickname, message) =>
        state.deliver sent groupId nickname message
      (.ok (deliveries.map Prod.fst, deliveries.filterMap Prod.snd),
        manager.setGroup groupId (some { state with keyManager := keyManager }), rng)

def receiveMessage (sender : Str) (encryptedPayload : List UInt8) (rng : OsRng) :
    Except String ReceivedGroupMessage × GroupChatManager τ × OsRng :=
  match manager.groups groupId with
  | none => (.error ("group " ++ toString groupId ++ " not found"), manager, rng)
  | some state =>
    match EncryptedMessage.fromBytes encryptedPayload with
    | .error e =>
      (.error ("failed to deserialize encrypted message: " ++ e.display), manager, rng)
    | .ok encrypted =>
      match (P.decryptFromMember sender encrypted).run (state.keyManager, rng) with
      | .error e (keyManager, rng) =>
        (.error ("decryption failed: " ++ e.display),
          manager.setGroup groupId (some { state with keyManager := keyManager }), rng)
      | .ok bytes (keyManager, rng) =>
        (do
          let envelope ← MessageEnvelope.fromBytes bytes
          return ⟨groupId, sender, envelope.sequenceNumber, envelope.timestampMs,
            envelope.plaintext⟩,
          manager.setGroup groupId (some { state with keyManager := keyManager }), rng)

/-! ## Who is ready -/

def memberEncryptionState : Option GroupEncryptionState :=
  (manager.groups groupId).bind fun state => state.keyManager.memberState nickname

def readyMembers : List Str :=
  (manager.groups groupId).elim [] fun state => state.keyManager.readyMembers

variable {manager groupId nickname P} {group : GroupId} {other : Str}

theorem mem_readyMembers : nickname ∈ manager.readyMembers groupId ↔
    manager.memberEncryptionState groupId nickname = some .ready := by
  unfold readyMembers memberEncryptionState
  rcases manager.groups groupId with - | state
  · simp
  · simp [GroupKeyManager.mem_readyMembers]

theorem memberEncryptionState_setGroup {state : Option (GroupState τ)} :
    (manager.setGroup groupId state).memberEncryptionState group other =
      if group = groupId then state.bind fun state => state.keyManager.memberState other
      else manager.memberEncryptionState group other := by
  unfold memberEncryptionState setGroup
  rcases eq_or_ne group groupId with rfl | hne
  · simp
  · simp [hne]

theorem memberEncryptionState_onGroup {f : GroupState τ → GroupState τ} :
    (manager.onGroup groupId f).memberEncryptionState group other =
      if group = groupId then
        (manager.groups groupId).bind fun state => (f state).keyManager.memberState other
      else manager.memberEncryptionState group other := by
  unfold onGroup
  rcases hgroup : manager.groups groupId with - | state
  · split_ifs with hsame
    · rw [hsame, memberEncryptionState, hgroup]
      rfl
    · rfl
  · rw [memberEncryptionState_setGroup]
    rfl

theorem memberEncryptionState_onGroup_mesh {f : GroupState τ → GroupState τ}
    (h : ∀ state, (f state).keyManager = state.keyManager) :
    (manager.onGroup groupId f).memberEncryptionState group other =
      manager.memberEncryptionState group other := by
  rw [memberEncryptionState_onGroup]
  simp only [h]
  split_ifs with hsame
  · rw [hsame, memberEncryptionState]
  · rfl

@[simp] theorem memberEncryptionState_addGroup :
    (manager.addGroup groupId).memberEncryptionState group other =
      manager.memberEncryptionState group other := by
  unfold addGroup
  rcases hgroup : manager.groups groupId with - | state
  · rw [memberEncryptionState_setGroup]
    split_ifs with hsame
    · -- a new group knows nobody
      rw [hsame, memberEncryptionState, hgroup]
      rfl
    · rfl
  · rfl

@[simp] theorem memberEncryptionState_removeGroup :
    (manager.removeGroup groupId).memberEncryptionState group other =
      if group = groupId then none else manager.memberEncryptionState group other :=
  memberEncryptionState_setGroup

@[simp] theorem memberEncryptionState_addMember :
    (manager.addMember groupId nickname).memberEncryptionState group other =
      if group = groupId ∧ other = nickname then
        (manager.groups groupId).map fun state =>
          (state.keyManager.memberState nickname).getD .pending
      else manager.memberEncryptionState group other := by
  rw [addMember, memberEncryptionState_onGroup]
  rcases eq_or_ne group groupId with rfl | hgroup
  · rcases eq_or_ne other nickname with rfl | hother
    · simp [GroupState.addMember, Option.map_eq_bind]
    · simp [GroupState.addMember, hother, memberEncryptionState]
  · simp [hgroup]

@[simp] theorem memberEncryptionState_removeMember :
    (manager.removeMember groupId nickname).memberEncryptionState group other =
      if group = groupId ∧ other = nickname then none
      else manager.memberEncryptionState group other := by
  rw [removeMember, memberEncryptionState_onGroup]
  rcases eq_or_ne group groupId with rfl | hgroup
  · rcases eq_or_ne other nickname with rfl | hother
    · simp [GroupState.removeMember]
    · simp [GroupState.removeMember, hother, memberEncryptionState]
  · simp [hgroup]

@[simp] theorem memberEncryptionState_setMemberEstablishing :
    (manager.setMemberEstablishing groupId nickname).memberEncryptionState group other =
      if group = groupId ∧ other = nickname then
        (manager.groups groupId).map fun _ => .establishing
      else manager.memberEncryptionState group other := by
  rw [setMemberEstablishing, memberEncryptionState_onGroup]
  rcases eq_or_ne group groupId with rfl | hgroup
  · rcases eq_or_ne other nickname with rfl | hother
    · simp [Option.map_eq_bind]
    · simp [hother, memberEncryptionState]
  · simp [hgroup]

/-- **A key exchange that is done** makes its member ready, whoever that is. -/
@[simp] theorem memberEncryptionState_setMemberSession {session : TripleRatchetSession} :
    (manager.setMemberSession groupId nickname session).memberEncryptionState group other =
      if group = groupId ∧ other = nickname then (manager.groups groupId).map fun _ => .ready
      else manager.memberEncryptionState group other := by
  rw [setMemberSession, memberEncryptionState_onGroup]
  rcases eq_or_ne group groupId with rfl | hgroup
  · rcases eq_or_ne other nickname with rfl | hother
    · simp [Option.map_eq_bind]
    · simp [hother, memberEncryptionState]
  · simp [hgroup]

@[simp] theorem memberEncryptionState_memberConnected {transport : τ} :
    (manager.memberConnected groupId nickname transport).memberEncryptionState group other =
      manager.memberEncryptionState group other :=
  memberEncryptionState_onGroup_mesh fun _ => rfl

@[simp] theorem memberEncryptionState_memberDegraded {reason : Str} :
    (manager.memberDegraded groupId nickname reason).memberEncryptionState group other =
      manager.memberEncryptionState group other :=
  memberEncryptionState_onGroup_mesh fun _ => rfl

@[simp] theorem memberEncryptionState_memberDisconnected :
    (manager.memberDisconnected groupId nickname).memberEncryptionState group other =
      manager.memberEncryptionState group other :=
  memberEncryptionState_onGroup_mesh fun _ => rfl

@[simp] theorem memberEncryptionState_reconnectMember {transport : τ} :
    (manager.reconnectMember groupId nickname transport).2.memberEncryptionState group other =
      manager.memberEncryptionState group other := by
  unfold reconnectMember
  rcases (manager.groups groupId).bind fun state => state.mesh.memberState nickname with
    - | (- | - | - | -)
  · rfl
  · exact memberEncryptionState_memberConnected
  · rfl
  · exact memberEncryptionState_memberConnected
  · exact memberEncryptionState_memberConnected

theorem handleMemberJoin_memberEncryptionState :
    (manager.handleMemberJoin groupId nickname).2.memberEncryptionState group other =
      (manager.addMember groupId nickname).memberEncryptionState group other := by
  rw [memberEncryptionState_addMember, handleMemberJoin]
  rcases hgroup : manager.groups groupId with - | state
  · split_ifs with hsame
    · rw [hsame.1, memberEncryptionState, hgroup]
      rfl
    · rfl
  · have hadd := @memberEncryptionState_addMember _ manager groupId nickname group other
    rw [addMember, onGroup, hgroup] at hadd
    rcases hknown : state.keyManager.memberState nickname with - | known
    · simpa [hknown] using hadd
    · -- the member is known
      split_ifs with hsame
      · simp [hsame.1, hsame.2, memberEncryptionState, hgroup, hknown]
      · simp [hknown]

/-- **A leave** removes the member. -/
theorem handleMemberLeave_memberEncryptionState :
    (manager.handleMemberLeave groupId nickname).2.memberEncryptionState group other =
      (manager.removeMember groupId nickname).memberEncryptionState group other := by
  rw [memberEncryptionState_removeMember, handleMemberLeave]
  rcases hgroup : manager.groups groupId with - | state
  · split_ifs with hsame
    · rw [hsame.1, memberEncryptionState, hgroup]
      rfl
    · rfl
  · have hremove := @memberEncryptionState_removeMember _ manager groupId nickname group other
    rw [removeMember, onGroup, hgroup] at hremove
    rcases hknown : state.keyManager.memberState nickname with - | known
    · -- the member is not known
      split_ifs with hsame
      · simp [hsame.1, hsame.2, memberEncryptionState, hgroup, hknown]
      · simp [hknown]
    · simpa [hknown] using hremove

theorem memberEncryptionState_setGroup_same {state state' : GroupState τ}
    (hgroup : manager.groups groupId = some state)
    (hsame : state'.keyManager.memberStates = state.keyManager.memberStates) :
    (manager.setGroup groupId (some state')).memberEncryptionState group other =
      manager.memberEncryptionState group other := by
  rw [memberEncryptionState_setGroup]
  split_ifs with h
  · rw [h, memberEncryptionState, hgroup]
    simp only [Option.bind_some, GroupKeyManager.memberState, hsame]
  · rfl

/-- **Sending** changes no state. -/
@[simp] theorem memberEncryptionState_sendMessage {plaintext : List UInt8} {now : ℕ}
    {sent : τ → List UInt8 → Bool} {rng : OsRng} :
    (manager.sendMessage groupId P plaintext now sent rng).2.1.memberEncryptionState group other =
      manager.memberEncryptionState group other := by
  unfold sendMessage
  rcases hgroup : manager.groups groupId with - | state
  · rfl
  · dsimp only
    rcases hrun : (P.encryptForGroup (MessageEnvelope.toBytes ⟨state.nextSequence, now,
      plaintext⟩)).run (state.keyManager, rng) with ⟨encrypted, keyManager, rng'⟩ | ⟨e, keyManager, rng'⟩
    · exact memberEncryptionState_setGroup_same hgroup
        (Primitives.encryptForGroup_within.ok hrun)
    · exact memberEncryptionState_setGroup_same hgroup
        (Primitives.encryptForGroup_within.error hrun)

@[simp] theorem memberEncryptionState_receiveMessage {sender : Str} {payload : List UInt8}
    {rng : OsRng} :
    (manager.receiveMessage groupId P sender payload rng).2.1.memberEncryptionState group other =
      manager.memberEncryptionState group other := by
  unfold receiveMessage
  rcases hgroup : manager.groups groupId with - | state
  · rfl
  · dsimp only
    rcases EncryptedMessage.fromBytes payload with e | encrypted
    · rfl
    · dsimp only
      rcases hrun : (P.decryptFromMember sender encrypted).run (state.keyManager, rng) with
        ⟨bytes, keyManager, rng'⟩ | ⟨e, keyManager, rng'⟩
      · exact memberEncryptionState_setGroup_same hgroup
          ((Primitives.decryptFromMember_within sender encrypted).ok hrun)
      · exact memberEncryptionState_setGroup_same hgroup
          ((Primitives.decryptFromMember_within sender encrypted).error hrun)

/-- **Recipients**: a message goes to the members that are ready, and nobody else. -/
theorem sendMessage_recipients {plaintext : List UInt8} {now : ℕ} {sent : τ → List UInt8 → Bool}
    {rng : OsRng} {results : List DeliveryResult} {relays : List RelayMessage}
    (h : (manager.sendMessage groupId P plaintext now sent rng).1 = .ok (results, relays)) :
    results.map DeliveryResult.recipient = manager.readyMembers groupId ∧
      relays.map RelayMessage.target ⊆ manager.readyMembers groupId := by
  unfold sendMessage at h
  unfold readyMembers
  rcases hgroup : manager.groups groupId with - | state
  · rw [hgroup] at h
    cases h
  · rw [hgroup] at h
    dsimp only at h
    rcases hrun : (P.encryptForGroup (MessageEnvelope.toBytes ⟨state.nextSequence, now,
      plaintext⟩)).run (state.keyManager, rng) with ⟨encrypted, keyManager, rng'⟩ | ⟨e, keyManager, rng'⟩
    · rw [hrun] at h
      obtain ⟨rfl, rfl⟩ := Prod.mk.inj (Except.ok.inj h)
      have hready := Primitives.encryptForGroup_ok hrun
      refine ⟨?_, ?_⟩
      · rw [Option.elim_some, ← hready, List.map_map, List.map_map]
        exact List.map_congr_left fun entry _ => GroupState.deliver_recipient
      · rw [Option.elim_some, ← hready]
        intro target htarget
        simp only [List.mem_map, List.mem_filterMap] at htarget ⊢
        obtain ⟨relay, ⟨delivery, ⟨entry, hmem, rfl⟩, hrelay⟩, rfl⟩ := htarget
        exact ⟨entry, hmem, (GroupState.deliver_target hrelay).symm⟩
    · rw [hrun] at h
      cases h

end GroupChatManager

/-! ## Runs -/

inductive GroupEvent (τ : Type)
  | addGroup (groupId : GroupId)
  | removeGroup (groupId : GroupId)
  | addMember (groupId : GroupId) (nickname : Str)
  | removeMember (groupId : GroupId) (nickname : Str)
  | handleMemberJoin (groupId : GroupId) (nickname : Str)
  | handleMemberLeave (groupId : GroupId) (nickname : Str)
  | setMemberEstablishing (groupId : GroupId) (nickname : Str)
  | setMemberSession (groupId : GroupId) (nickname : Str) (session : TripleRatchetSession)
  | memberConnected (groupId : GroupId) (nickname : Str) (transport : τ)
  | memberDegraded (groupId : GroupId) (nickname : Str) (reason : Str)
  | memberDisconnected (groupId : GroupId) (nickname : Str)
  | reconnectMember (groupId : GroupId) (nickname : Str) (transport : τ)
  | sendMessage (groupId : GroupId) (plaintext : List UInt8) (now : ℕ)
      (sent : τ → List UInt8 → Bool)
  | receiveMessage (groupId : GroupId) (sender : Str) (payload : List UInt8)

/-- A manager, and who is in which group: whose latest join or leave was a join. -/
structure GroupRun (τ : Type) where
  manager : GroupChatManager τ := {}
  rng : OsRng
  joined : GroupId → Str → Bool := fun _ _ => false

namespace GroupRun

variable {τ : Type} (P : Primitives)

def setJoined (run : GroupRun τ) (groupId : GroupId) (nickname : Str) (member : Bool) :
    GroupRun τ :=
  { run with joined := fun group other =>
      if group = groupId ∧ other = nickname then member else run.joined group other }

def step (run : GroupRun τ) : GroupEvent τ → GroupRun τ
  | .addGroup groupId => { run with manager := run.manager.addGroup groupId }
  | .removeGroup groupId => { run with manager := run.manager.removeGroup groupId }
  | .addMember groupId nickname =>
    { run with manager := run.manager.addMember groupId nickname }.setJoined groupId nickname true
  | .removeMember groupId nickname =>
    { run with manager := run.manager.removeMember groupId nickname }.setJoined groupId nickname false
  | .handleMemberJoin groupId nickname =>
    { run with manager := (run.manager.handleMemberJoin groupId nickname).2 }.setJoined groupId
      nickname true
  | .handleMemberLeave groupId nickname =>
    { run with manager := (run.manager.handleMemberLeave groupId nickname).2 }.setJoined groupId
      nickname false
  | .setMemberEstablishing groupId nickname =>
    { run with manager := run.manager.setMemberEstablishing groupId nickname }
  | .setMemberSession groupId nickname session =>
    { run with manager := run.manager.setMemberSession groupId nickname session }
  | .memberConnected groupId nickname transport =>
    { run with manager := run.manager.memberConnected groupId nickname transport }
  | .memberDegraded groupId nickname reason =>
    { run with manager := run.manager.memberDegraded groupId nickname reason }
  | .memberDisconnected groupId nickname =>
    { run with manager := run.manager.memberDisconnected groupId nickname }
  | .reconnectMember groupId nickname transport =>
    { run with manager := (run.manager.reconnectMember groupId nickname transport).2 }
  | .sendMessage groupId plaintext now sent =>
    let (_, manager, rng) := run.manager.sendMessage groupId P plaintext now sent run.rng
    { run with manager := manager, rng := rng }
  | .receiveMessage groupId sender payload =>
    let (_, manager, rng) := run.manager.receiveMessage groupId P sender payload run.rng
    { run with manager := manager, rng := rng }

/-- **Any sequence** of joins, leaves, key exchanges, connections and messages. -/
def system : System (GroupRun τ) (GroupEvent τ) where
  enabled _ _ := True
  step := step P

/-- **A message is addressed to members only**, by its deliveries and by what the server relays. -/
def AddressesMembers (run : GroupRun τ) : GroupEvent τ → Prop
  | .sendMessage groupId plaintext now sent =>
    ∀ results relays,
      (run.manager.sendMessage groupId P plaintext now sent run.rng).1 = .ok (results, relays) →
        (∀ result ∈ results, run.joined groupId result.recipient = true) ∧
          ∀ relay ∈ relays, run.joined groupId relay.target = true
  | _ => True

/-- **Timely key exchanges**: one that is done is one with a member. -/
def Timely (run : GroupRun τ) : GroupEvent τ → Prop
  | .setMemberSession groupId nickname _ =>
    (run.manager.groups groupId).isSome = true → run.joined groupId nickname = true
  | _ => True

def OnlyMembersReady (run : GroupRun τ) : Prop :=
  ∀ groupId nickname, run.manager.memberEncryptionState groupId nickname = some .ready →
    run.joined groupId nickname = true

variable {P} {run : GroupRun τ}

/-- **One step**: only members stay ready exactly if a key exchange that is done is timely. -/
theorem OnlyMembersReady.step_iff (h : OnlyMembersReady run) (event : GroupEvent τ) :
    OnlyMembersReady (step P run event) ↔ Timely run event := by
  -- nobody becomes ready, and nobody leaves
  have hsame {run' : GroupRun τ} (hstate : ∀ groupId nickname,
      run'.manager.memberEncryptionState groupId nickname = some .ready →
        run.manager.memberEncryptionState groupId nickname = some .ready)
      (hjoined : ∀ groupId nickname, run.joined groupId nickname = true →
        run'.joined groupId nickname = true) : OnlyMembersReady run' :=
    fun groupId nickname hready => hjoined _ _ (h groupId nickname (hstate _ _ hready))
  have hjoin (groupId : GroupId) (nickname : Str) : OnlyMembersReady
      ({ run with manager := run.manager.addMember groupId nickname }.setJoined groupId nickname
        true) := by
    refine hsame ?_ ?_
    · intro group other hready
      rw [setJoined, GroupChatManager.memberEncryptionState_addMember] at hready
      split_ifs at hready with hmember
      · obtain ⟨state, hgroup, hstate⟩ := Option.map_eq_some_iff.mp hready
        rw [hmember.1, hmember.2, GroupChatManager.memberEncryptionState, hgroup]
        rcases hknown : state.keyManager.memberState nickname with - | known
        · rw [hknown] at hstate
          cases hstate
        · rw [hknown] at hstate
          exact hknown.trans (congrArg some hstate)
      · exact hready
    · intro group other hmember
      simp [setJoined, hmember]
  have hleave (groupId : GroupId) (nickname : Str) : OnlyMembersReady
      ({ run with manager := run.manager.removeMember groupId nickname }.setJoined groupId nickname
        false) := by
    intro group other hready
    rw [setJoined, GroupChatManager.memberEncryptionState_removeMember] at hready
    split_ifs at hready with hmember
    simp only [setJoined, if_neg hmember]
    exact h group other hready
  cases event with
  | addGroup groupId =>
    refine iff_of_true (hsame ?_ fun _ _ h => h) trivial
    simp [step]
  | removeGroup groupId =>
    refine iff_of_true (hsame ?_ fun _ _ h => h) trivial
    intro group nickname hready
    rw [step, GroupChatManager.memberEncryptionState_removeGroup] at hready
    split_ifs at hready
    exact hready
  | addMember groupId nickname => exact iff_of_true (hjoin groupId nickname) trivial
  | removeMember groupId nickname => exact iff_of_true (hleave groupId nickname) trivial
  | handleMemberJoin groupId nickname =>
    refine iff_of_true (fun group other hready => hjoin groupId nickname group other ?_) trivial
    rw [← hready]
    exact GroupChatManager.handleMemberJoin_memberEncryptionState.symm
  | handleMemberLeave groupId nickname =>
    refine iff_of_true (fun group other hready => hleave groupId nickname group other ?_) trivial
    rw [← hready]
    exact GroupChatManager.handleMemberLeave_memberEncryptionState.symm
  | setMemberEstablishing groupId nickname =>
    refine iff_of_true (hsame ?_ fun _ _ h => h) trivial
    intro group other hready
    rw [step, GroupChatManager.memberEncryptionState_setMemberEstablishing] at hready
    split_ifs at hready with hmember
    · obtain ⟨state, -, hstate⟩ := Option.map_eq_some_iff.mp hready
      cases hstate
    · exact hready
  | setMemberSession groupId nickname session =>
    constructor
    · intro honly hgroup
      refine honly groupId nickname ?_
      obtain ⟨state, hstate⟩ := Option.isSome_iff_exists.mp hgroup
      simp [step, hstate]
    · intro htimely group other hready
      rw [step, GroupChatManager.memberEncryptionState_setMemberSession] at hready
      split_ifs at hready with hmember
      · obtain ⟨state, hgroup, -⟩ := Option.map_eq_some_iff.mp hready
        rw [hmember.1, hmember.2]
        exact htimely (Option.isSome_iff_exists.mpr ⟨state, hgroup⟩)
      · exact h group other hready
  | memberConnected groupId nickname transport =>
    refine iff_of_true (hsame ?_ fun _ _ h => h) trivial
    simp [step]
  | memberDegraded groupId nickname reason =>
    refine iff_of_true (hsame ?_ fun _ _ h => h) trivial
    simp [step]
  | memberDisconnected groupId nickname =>
    refine iff_of_true (hsame ?_ fun _ _ h => h) trivial
    simp [step]
  | reconnectMember groupId nickname transport =>
    refine iff_of_true (hsame ?_ fun _ _ h => h) trivial
    simp [step]
  | sendMessage groupId plaintext now sent =>
    refine iff_of_true (hsame ?_ fun _ _ h => h) trivial
    simp [step]
  | receiveMessage groupId sender payload =>
    refine iff_of_true (hsame ?_ fun _ _ h => h) trivial
    simp [step]

def start (rng : OsRng) : GroupRun τ := { rng := rng }

theorem onlyMembersReady_start (rng : OsRng) : OnlyMembersReady (start rng : GroupRun τ) := by
  intro groupId nickname hready
  cases hready

theorem OnlyMembersReady.addressesMembers (h : OnlyMembersReady run) (event : GroupEvent τ) :
    AddressesMembers P run event := by
  cases event with
  | sendMessage groupId plaintext now sent =>
    intro results relays hsend
    obtain ⟨hresults, hrelays⟩ := GroupChatManager.sendMessage_recipients hsend
    have hmember {nickname : Str} (hmem : nickname ∈ run.manager.readyMembers groupId) :
        run.joined groupId nickname = true :=
      h groupId nickname (GroupChatManager.mem_readyMembers.mp hmem)
    refine ⟨fun result hresult => hmember ?_, fun relay hrelay => hmember ?_⟩
    · rw [← hresults]
      exact List.mem_map_of_mem hresult
    · exact hrelays (List.mem_map_of_mem hrelay)
  | _ => trivial

/-- **A departed member receives nothing** in a run whose key exchanges are timely. -/
theorem addressesMembers_of_timely (rng : OsRng) (events : List (GroupEvent τ))
    (h : System.Legal (system P) Timely (start rng) events) :
    System.Legal (system P) (AddressesMembers P) (start rng) events := by
  have honly := h.invariant (fun run event _ htimely hready =>
    (OnlyMembersReady.step_iff hready event).mpr htimely) (onlyMembersReady_start rng)
  exact honly.mono fun run event hboth => hboth.1.addressesMembers event

/-! ## A departed member -/

def toySession : TripleRatchetSession := toySchedule.senderSession toyKemPair.ek toyKemPair

/-- A member leaves between the beginning and the end of a key exchange. -/
def lateExchange : List (GroupEvent Unit) :=
  [.addGroup 1, .handleMemberJoin 1 ['b'], .setMemberEstablishing 1 ['b'],
    .handleMemberLeave 1 ['b'], .setMemberSession 1 ['b'] toySession]

theorem timelyExchange_addressesMembers :
    System.Legal (system toyPrimitives) (AddressesMembers toyPrimitives) (start toyRng)
      [.addGroup 1, .handleMemberJoin 1 ['b'], .setMemberEstablishing 1 ['b'],
        .setMemberSession 1 ['b'] toySession, .sendMessage 1 [1] 0 fun _ _ => true,
        .handleMemberLeave 1 ['b'], .sendMessage (τ := Unit) 1 [2] 0 fun _ _ => true] :=
  addressesMembers_of_timely toyRng _ ⟨trivial, trivial, trivial, trivial, trivial, trivial,
    trivial, fun _ => rfl, trivial, trivial, trivial, trivial, trivial, trivial, trivial⟩

/-- **A message for a member who left**: the key exchange that was under way when it left makes it a
recipient. -/
theorem departed_addressed :
    ¬ ∀ events : List (GroupEvent Unit),
      System.Legal (system toyPrimitives) (AddressesMembers toyPrimitives) (start toyRng) events := by
  intro hall
  obtain ⟨-, -, hsend, -⟩ := System.legal_append.mp
    (hall (lateExchange ++ [.sendMessage 1 [1] 0 fun _ _ => true]))
  generalize hrun : (system toyPrimitives).exec (start toyRng) lateExchange = run at hsend
  have hready : run.manager.readyMembers 1 = [['b']] := by
    subst hrun
    decide +kernel
  have hleft : run.joined 1 ['b'] = false := by
    subst hrun
    decide +kernel
  have hok : (run.manager.sendMessage 1 toyPrimitives [1] 0 (fun _ _ => true) run.rng).1.isOk := by
    subst hrun
    decide +kernel
  rcases hmessage : (run.manager.sendMessage 1 toyPrimitives [1] 0 (fun _ _ => true) run.rng).1 with
    e | ⟨results, relays⟩
  · rw [hmessage] at hok
    cases hok
  · have hrecipients := (GroupChatManager.sendMessage_recipients hmessage).1
    rw [hready] at hrecipients
    obtain ⟨result, hresult, hrecipient⟩ :=
      List.mem_map.mp (hrecipients ▸ List.mem_singleton_self ['b'] :
        ['b'] ∈ results.map DeliveryResult.recipient)
    have hmember := (hsend results relays hmessage).1 result hresult
    rw [hrecipient, hleft] at hmember
    cases hmember

end GroupRun

end Pirc.Client
