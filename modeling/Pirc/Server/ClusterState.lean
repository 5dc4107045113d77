import Pirc.Raft.Types
import Pirc.Server.Channel

/-!
# Server: the replicated state

`raft/cluster_command.rs` and `raft/state_machine.rs`: the commands that the cluster agrees on, and
the state machine that every node applies them to. The state machine has copies of users and
channels of its own, in maps whose keys are names in lower case. Its snapshots are JSON, which is
not modelled.
-/

namespace Pirc.Server

open Protocol
open Raft (NodeId)

/-! ## Commands -/

structure SocketAddr where
  ip : Str
  port : ℕ
  deriving DecidableEq

/-- **The commands of the cluster.** Names are text here, which each reader validates for itself. -/
inductive ClusterCommand
  | userRegistered (connectionId : ConnId) (nickname username realname hostname : Str)
      (signonTime : ℕ) (homeNode : Option NodeId)
  | nickChanged (oldNick newNick : Str)
  | userQuit (nickname : Str) (reason : Option Str)
  | userAway (nickname : Str) (message : Option Str)
  | userModeChanged (nickname : Str) (modesAdded modesRemoved : List Str)
  | channelJoined (nickname channel status : Str)
  | channelParted (nickname channel : Str) (reason : Option Str)
  | topicSet (channel : Str) (topic : Option Topic)
  | channelModeChanged (channel : Str) (modesAdded modesRemoved : List Str) (key : Option Str)
      (userLimit : Option ℕ) (memberStatusChanges : List (Str × Str))
  | banAdded (channel mask whoSet : Str) (timestamp : ℕ)
  | banRemoved (channel mask : Str)
  | inviteAdded (channel nickname : Str)
  | userKicked (channel nickname who : Str) (reason : Option Str)
  | userKilled (nickname reason : Str)
  | operGranted (nickname : Str)
  | serverAdded (nodeId : NodeId) (addr : SocketAddr)
  | serverRemoved (nodeId : NodeId)
  | userMigrated (nickname : Str) (fromNode toNode : NodeId)
  | noop (description : Str)
  deriving DecidableEq

/-! ## The state machine -/

abbrev StrMap (ν : Type) := FoldMap (fun s : Str => s) ν

structure ReplicatedUser where
  nickname : Str
  username : Str
  realname : Str
  hostname : Str
  modes : Finset Str := ∅
  awayMessage : Option Str := none
  signonTime : ℕ
  homeNode : Option NodeId
  isOper : Bool := false

/-- A channel as the cluster knows it. Bans have the fields of `BanEntry`. -/
structure ReplicatedChannel where
  name : Str
  topic : Option Topic := none
  modes : Finset Str := ∅
  members : StrMap Str := ∅
  banList : List BanEntry := []
  inviteList : Finset Str := ∅
  key : Option Str := none
  userLimit : Option ℕ := none

def ReplicatedChannel.rename (oldKey newKey : Str) (ch : ReplicatedChannel) : ReplicatedChannel :=
  match ch.members.get oldKey with
  | some status => { ch with members := (ch.members.remove oldKey).insert newKey status }
  | none => ch

def ReplicatedChannel.setStatus (ch : ReplicatedChannel) (change : Str × Str) : ReplicatedChannel :=
  let nickKey := lowercase change.1
  if ch.members.contains nickKey then
    { ch with members := ch.members.insert nickKey change.2 }
  else ch

structure ReplicatedServer where
  nodeId : NodeId
  addr : SocketAddr

/-- **The replicated state.** -/
structure ClusterStateMachine where
  users : StrMap ReplicatedUser := ∅
  channels : StrMap ReplicatedChannel := ∅
  servers : FoldMap (fun node : NodeId => node) ReplicatedServer := ∅

namespace ClusterStateMachine

/-- Write to a channel, which is made with defaults if there is none of the name. -/
def ensureChannel (m : ClusterStateMachine) (channel : Str)
    (write : ReplicatedChannel → ReplicatedChannel) : ClusterStateMachine :=
  let key := lowercase channel
  { m with
    channels := m.channels.insert key (write ((m.channels.get key).getD { name := channel })) }

def modifyUser (m : ClusterStateMachine) (nickname : Str)
    (write : ReplicatedUser → ReplicatedUser) : ClusterStateMachine :=
  { m with users := m.users.modify (lowercase nickname) write }

def removeUserFromAllChannels (m : ClusterStateMachine) (nickKey : Str) : ClusterStateMachine :=
  let channels := m.channels.mapValues fun ch => { ch with members := ch.members.remove nickKey }
  { m with channels := channels.retain fun ch => !ch.members.isEmpty }

def removeMemberFromChannel (m : ClusterStateMachine) (channel nickname : Str) :
    ClusterStateMachine :=
  let chanKey := lowercase channel
  let nickKey := lowercase nickname
  match m.channels.get chanKey with
  | some ch =>
    let members := ch.members.remove nickKey
    if members.isEmpty then { m with channels := m.channels.remove chanKey }
    else { m with channels := m.channels.insert chanKey { ch with members := members } }
  | none => m

def applyUserRegistered (m : ClusterStateMachine) (nickname username realname hostname : Str)
    (signonTime : ℕ) (homeNode : Option NodeId) : ClusterStateMachine :=
  { m with
    users := m.users.insert (lowercase nickname) {
      nickname := nickname
      username := username
      realname := realname
      hostname := hostname
      signonTime := signonTime
      homeNode := homeNode } }

def applyNickChanged (m : ClusterStateMachine) (oldNick newNick : Str) : ClusterStateMachine :=
  let oldKey := lowercase oldNick
  let newKey := lowercase newNick
  let users :=
    match m.users.get oldKey with
    | some user => (m.users.remove oldKey).insert newKey { user with nickname := newNick }
    | none => m.users
  { m with
    users := users
    channels := m.channels.mapValues (ReplicatedChannel.rename oldKey newKey) }

def applyChannelModeChanged (m : ClusterStateMachine) (channel : Str)
    (modesAdded modesRemoved : List Str) (key : Option Str) (userLimit : Option ℕ)
    (memberStatusChanges : List (Str × Str)) : ClusterStateMachine :=
  m.ensureChannel channel fun ch =>
    memberStatusChanges.foldl ReplicatedChannel.setStatus
      { ch with
        modes := (ch.modes ∪ modesAdded.toFinset) \ modesRemoved.toFinset
        key := key.or ch.key
        userLimit := userLimit.or ch.userLimit }

def apply (m : ClusterStateMachine) : ClusterCommand → ClusterStateMachine
  | .userRegistered _ nickname username realname hostname signonTime homeNode =>
    m.applyUserRegistered nickname username realname hostname signonTime homeNode
  | .nickChanged oldNick newNick => m.applyNickChanged oldNick newNick
  | .userQuit nickname _ | .userKilled nickname _ =>
    let key := lowercase nickname
    { m with users := m.users.remove key }.removeUserFromAllChannels key
  | .userAway nickname message => m.modifyUser nickname fun user =>
    { user with awayMessage := message }
  | .userModeChanged nickname modesAdded modesRemoved => m.modifyUser nickname fun user =>
    { user with modes := (user.modes ∪ modesAdded.toFinset) \ modesRemoved.toFinset }
  | .channelJoined nickname channel status => m.ensureChannel channel fun ch =>
    { ch with members := ch.members.insert (lowercase nickname) status }
  | .channelParted nickname channel _ | .userKicked channel nickname _ _ =>
    m.removeMemberFromChannel channel nickname
  | .topicSet channel topic => m.ensureChannel channel fun ch => { ch with topic := topic }
  | .channelModeChanged channel modesAdded modesRemoved key userLimit memberStatusChanges =>
    m.applyChannelModeChanged channel modesAdded modesRemoved key userLimit memberStatusChanges
  | .banAdded channel mask whoSet timestamp => m.ensureChannel channel fun ch =>
    { ch with banList := ch.banList ++ [{ mask := mask, whoSet := whoSet, timestamp := timestamp }] }
  | .banRemoved channel mask =>
    { m with
      channels := m.channels.modify (lowercase channel) fun ch =>
        { ch with banList := ch.banList.filter fun b => b.mask ≠ mask } }
  | .inviteAdded channel nickname => m.ensureChannel channel fun ch =>
    { ch with inviteList := insert (lowercase nickname) ch.inviteList }
  | .operGranted nickname => m.modifyUser nickname fun user => { user with isOper := true }
  | .serverAdded nodeId addr => { m with servers := m.servers.insert nodeId ⟨nodeId, addr⟩ }
  | .serverRemoved nodeId => { m with servers := m.servers.remove nodeId }
  | .userMigrated nickname _ toNode => m.modifyUser nickname fun user =>
    { user with homeNode := some toNode }
  | .noop _ => m

end ClusterStateMachine

/-! ## Who is on which channel

Whatever else a command carries, its effect on the pairs of a channel and a member is a function of
these pairs alone. Names are compared in lower case. -/

def renameMember (old new : Str) (pairs : Set (Str × Str)) : Set (Str × Str) :=
  {p | (p.2 ≠ old ∧ p ∈ pairs) ∨ (p.2 = new ∧ (p.1, old) ∈ pairs)}

/-- **The effect of a command** on the pairs of a channel and a member. -/
def ClusterCommand.effect (pairs : Set (Str × Str)) : ClusterCommand → Set (Str × Str)
  | .nickChanged oldNick newNick => renameMember (lowercase oldNick) (lowercase newNick) pairs
  | .userQuit nickname _ | .userKilled nickname _ => {p ∈ pairs | p.2 ≠ lowercase nickname}
  | .channelJoined nickname channel _ => insert (lowercase channel, lowercase nickname) pairs
  | .channelParted nickname channel _ | .userKicked channel nickname _ _ =>
    pairs \ {(lowercase channel, lowercase nickname)}
  | _ => pairs

def ReplicatedChannel.occupants (ch : ReplicatedChannel) : Set Str :=
  {i | ∃ status, ch.members.lookup i = some status}

namespace ReplicatedChannel

variable (ch : ReplicatedChannel)

@[simp] theorem occupants_insert (i status : Str) :
    { ch with members := ch.members.insert i status }.occupants = insert i ch.occupants := by
  ext j
  simp only [occupants, FoldMap.lookup_insert, Set.mem_ofPred_eq, Set.mem_insert_iff]
  by_cases hj : i = j
  · simp [hj]
  · simp [hj, Ne.symm hj]

@[simp] theorem occupants_remove (i : Str) :
    { ch with members := ch.members.remove i }.occupants = ch.occupants \ {i} := by
  ext j
  simp only [occupants, FoldMap.lookup_remove, Set.mem_ofPred_eq, Set.mem_sdiff,
    Set.mem_singleton_iff]
  split_ifs with hj
  · simp [hj]
  · simp [Ne.symm hj]

theorem occupants_eq_empty : ch.occupants = ∅ ↔ ch.members.isEmpty := by
  rw [FoldMap.isEmpty_iff, Set.eq_empty_iff_forall_notMem]
  apply forall_congr'
  intro i
  simp [occupants, Option.eq_none_iff_forall_ne_some]

theorem mem_occupants_rename (old new i : Str) :
    i ∈ (ch.rename old new).occupants ↔
      (i ≠ old ∧ i ∈ ch.occupants) ∨ (i = new ∧ old ∈ ch.occupants) := by
  unfold rename
  cases hold : ch.members.get old with
  | some status =>
    have hmem : old ∈ ch.occupants := ⟨status, hold⟩
    have hrest := (occupants_remove ch old)
    rw [occupants_insert { ch with members := ch.members.remove old } new status, hrest]
    simp [hmem]
    tauto
  | none =>
    have hmem : old ∉ ch.occupants := by
      rintro ⟨status, hstatus⟩
      rw [FoldMap.get, hstatus] at hold
      cases hold
    simp only [hmem, and_false, or_false, iff_and_self]
    rintro hi rfl
    exact hmem hi

theorem occupants_setStatus (change : Str × Str) :
    (ch.setStatus change).occupants = ch.occupants := by
  unfold setStatus
  dsimp only
  split_ifs with hin
  · rw [occupants_insert]
    exact Set.insert_eq_of_mem (FoldMap.contains_iff.mp hin)
  · rfl

theorem occupants_foldl_setStatus (changes : List (Str × Str)) :
    (changes.foldl setStatus ch).occupants = ch.occupants := by
  induction changes generalizing ch with
  | nil => rfl
  | cons change changes ih => rw [List.foldl_cons, ih, occupants_setStatus]

end ReplicatedChannel

theorem renameMember_self (nick : Str) (pairs : Set (Str × Str)) :
    renameMember nick nick pairs = pairs := by
  ext ⟨k, i⟩
  by_cases hi : i = nick
  · simp [renameMember, hi]
  · simp [renameMember, hi]

namespace ClusterStateMachine

def membership (m : ClusterStateMachine) : Set (Str × Str) :=
  {p | ∃ ch, m.channels.lookup p.1 = some ch ∧ p.2 ∈ ch.occupants}

section Membership

variable (m : ClusterStateMachine) {k i : Str}

theorem mem_membership : (k, i) ∈ m.membership ↔
    ∃ ch, m.channels.lookup k = some ch ∧ i ∈ ch.occupants := Iff.rfl

theorem membership_congr {m' : ClusterStateMachine} (h : m'.channels = m.channels) :
    m'.membership = m.membership := by
  ext ⟨k, i⟩
  rw [mem_membership, mem_membership, h]

theorem mem_membership_ensureChannel (channel : Str)
    {write : ReplicatedChannel → ReplicatedChannel} (f : Set Str → Set Str)
    (h : ∀ ch, (write ch).occupants = f ch.occupants) :
    (k, i) ∈ (m.ensureChannel channel write).membership ↔
      if lowercase channel = k then i ∈ f {j | (k, j) ∈ m.membership} else (k, i) ∈ m.membership := by
  rw [mem_membership]
  simp only [ensureChannel, FoldMap.lookup_insert]
  split_ifs with hk
  · simp only [Option.some.injEq, exists_eq_left', h, mem_membership, FoldMap.get, hk]
    -- a channel that is new has nobody on it
    cases hch : m.channels.lookup k with
    | some ch => simp
    | none => simp [ReplicatedChannel.occupants]
  · exact m.mem_membership.symm

theorem membership_ensureChannel (channel : Str) {write : ReplicatedChannel → ReplicatedChannel}
    (h : ∀ ch, (write ch).occupants = ch.occupants) :
    (m.ensureChannel channel write).membership = m.membership := by
  ext ⟨k, i⟩
  rw [m.mem_membership_ensureChannel channel (fun o => o) h]
  split_ifs
  · rfl
  · rfl

theorem membership_join (channel nickname status : Str) :
    (m.ensureChannel channel fun ch =>
      { ch with members := ch.members.insert (lowercase nickname) status }).membership =
      insert (lowercase channel, lowercase nickname) m.membership := by
  ext ⟨k, i⟩
  rw [m.mem_membership_ensureChannel channel (fun o => insert (lowercase nickname) o)
    fun ch => ch.occupants_insert _ _]
  split_ifs with hk
  · simp [hk]
  · simp [Ne.symm hk]

theorem membership_removeMemberFromChannel (channel nickname : Str) :
    (m.removeMemberFromChannel channel nickname).membership =
      m.membership \ {(lowercase channel, lowercase nickname)} := by
  ext ⟨k, i⟩
  rw [Set.mem_sdiff, Set.mem_singleton_iff, Prod.mk.injEq, mem_membership, mem_membership]
  unfold removeMemberFromChannel
  dsimp only
  cases hch : m.channels.get (lowercase channel) with
  | none =>
    rw [FoldMap.get] at hch
    constructor
    · rintro ⟨ch, hlookup, hi⟩
      refine ⟨⟨ch, hlookup, hi⟩, ?_⟩
      rintro ⟨rfl, -⟩
      rw [hch] at hlookup
      cases hlookup
    · exact fun h => h.1
  | some ch =>
    rw [FoldMap.get] at hch
    dsimp only
    have hleft := ch.occupants_remove (lowercase nickname)
    by_cases hk : lowercase channel = k
    · subst hk
      -- the members that stay are the old ones without the one who leaves
      have hstay : (∃ ch', m.channels.lookup (lowercase channel) = some ch' ∧ i ∈ ch'.occupants) ∧
          ¬ (lowercase channel = lowercase channel ∧ i = lowercase nickname) ↔
          i ∈ ch.occupants \ {lowercase nickname} := by
        simp [hch]
      rw [hstay, ← hleft]
      split_ifs with hempty
      · have hnobody := (ReplicatedChannel.occupants_eq_empty
          { ch with members := ch.members.remove (lowercase nickname) }).mpr hempty
        rw [hnobody, FoldMap.lookup_remove, if_pos rfl]
        simp
      · rw [FoldMap.lookup_insert, if_pos rfl]
        simp
    · split_ifs with hempty
      · rw [FoldMap.lookup_remove, if_neg hk]
        simp [Ne.symm hk]
      · rw [FoldMap.lookup_insert, if_neg hk]
        simp [Ne.symm hk]

theorem membership_removeUserFromAllChannels (nickKey : Str) :
    (m.removeUserFromAllChannels nickKey).membership = {p ∈ m.membership | p.2 ≠ nickKey} := by
  ext ⟨k, i⟩
  simp only [Set.mem_ofPred_eq, mem_membership, removeUserFromAllChannels, FoldMap.lookup_retain,
    FoldMap.lookup_mapValues, Option.filter_eq_some_iff, Option.map_eq_some_iff]
  constructor
  · rintro ⟨_, ⟨⟨ch, hch, rfl⟩, -⟩, hi⟩
    rw [ch.occupants_remove] at hi
    exact ⟨⟨ch, hch, hi.1⟩, hi.2⟩
  · rintro ⟨⟨ch, hch, hi⟩, hne⟩
    have hstay : i ∈ { ch with members := ch.members.remove nickKey }.occupants := by
      rw [ch.occupants_remove]
      exact ⟨hi, hne⟩
    refine ⟨_, ⟨⟨ch, hch, rfl⟩, ?_⟩, hstay⟩
    rw [Bool.not_eq_true', ← Bool.not_eq_true, ← ReplicatedChannel.occupants_eq_empty]
    exact Set.Nonempty.ne_empty ⟨i, hstay⟩

theorem membership_applyNickChanged (oldNick newNick : Str) :
    (m.applyNickChanged oldNick newNick).membership =
      renameMember (lowercase oldNick) (lowercase newNick) m.membership := by
  ext ⟨k, i⟩
  simp only [renameMember, Set.mem_ofPred_eq, mem_membership, applyNickChanged,
    FoldMap.lookup_mapValues, Option.map_eq_some_iff]
  constructor
  · rintro ⟨_, ⟨ch, hch, rfl⟩, hi⟩
    rcases (ch.mem_occupants_rename _ _ i).mp hi with ⟨hne, hi⟩ | ⟨heq, hold⟩
    · exact .inl ⟨hne, ch, hch, hi⟩
    · exact .inr ⟨heq, ch, hch, hold⟩
  · rintro (⟨hne, ch, hch, hi⟩ | ⟨heq, ch, hch, hold⟩)
    · exact ⟨_, ⟨ch, hch, rfl⟩, (ch.mem_occupants_rename _ _ i).mpr (.inl ⟨hne, hi⟩)⟩
    · exact ⟨_, ⟨ch, hch, rfl⟩, (ch.mem_occupants_rename _ _ i).mpr (.inr ⟨heq, hold⟩)⟩

theorem membership_modify (key : Str) {write : ReplicatedChannel → ReplicatedChannel}
    (h : ∀ ch, (write ch).occupants = ch.occupants) :
    membership { m with channels := m.channels.modify key write } = m.membership := by
  ext ⟨k, i⟩
  rw [mem_membership, mem_membership, FoldMap.lookup_modify]
  split_ifs with hk
  · simp [Option.map_eq_some_iff, h]
  · rfl

/-- **The state machine has the effect of the command.** -/
theorem membership_apply (command : ClusterCommand) :
    (m.apply command).membership = command.effect m.membership := by
  cases command with
  | userRegistered => exact membership_congr _ rfl
  | nickChanged oldNick newNick => exact m.membership_applyNickChanged oldNick newNick
  | userQuit nickname => exact membership_removeUserFromAllChannels _ _
  | userKilled nickname => exact membership_removeUserFromAllChannels _ _
  | userAway => exact membership_congr _ rfl
  | userModeChanged => exact membership_congr _ rfl
  | channelJoined nickname channel status => exact m.membership_join channel nickname status
  | channelParted nickname channel => exact m.membership_removeMemberFromChannel channel nickname
  | userKicked channel nickname => exact m.membership_removeMemberFromChannel channel nickname
  | topicSet channel => exact m.membership_ensureChannel channel fun _ => rfl
  | channelModeChanged channel =>
    exact m.membership_ensureChannel channel fun _ =>
      ReplicatedChannel.occupants_foldl_setStatus _ _
  | banAdded channel => exact m.membership_ensureChannel channel fun _ => rfl
  | banRemoved channel => exact m.membership_modify _ fun _ => rfl
  | inviteAdded channel => exact m.membership_ensureChannel channel fun _ => rfl
  | operGranted => exact membership_congr _ rfl
  | serverAdded => exact membership_congr _ rfl
  | serverRemoved => exact membership_congr _ rfl
  | userMigrated => exact membership_congr _ rfl
  | noop => rfl

end Membership

end ClusterStateMachine

end Pirc.Server
