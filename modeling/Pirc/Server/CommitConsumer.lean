import Pirc.Server.ClusterState
import Pirc.Server.Membership

/-!
# Server: committed commands

`commit_consumer.rs`: a node applies every committed command to its own registries, beside the
replicated state machine. Sessions of users on other nodes get a sender that nobody reads.
-/

namespace Pirc.Server

open Protocol

/-! ## Commands on the registries -/

def parseMemberStatus (s : Str) : MemberStatus :=
  if s = "operator" then .operator
  else if s = "voiced" then .voiced
  else .normal

def parseChannelMode (s : Str) : Option ChannelMode :=
  if s = "i" then some .inviteOnly
  else if s = "m" then some .moderated
  else if s = "n" then some .noExternalMessages
  else if s = "s" then some .secret
  else if s = "t" then some .topicProtected
  else none

def parseUserMode (s : Str) : Option UserMode :=
  if s = "i" ∨ s = "w" then some .normal
  else if s = "o" then some .operator
  else if s = "v" then some .voiced
  else none

/-- Run with a validated nickname; a command with an invalid one does nothing. -/
def withNick (s : ServerState) (nickname : Str) (f : Nickname → ServerState) : ServerState :=
  match Nickname.new nickname with
  | .ok nick => f nick
  | .error _ => s

def withChannel (s : ServerState) (channel : Str) (f : ChannelName → ServerState) : ServerState :=
  match ChannelName.new channel with
  | .ok name => f name
  | .error _ => s

def ServerState.writeSession (s : ServerState) (nick : Nickname) (f : UserSession → UserSession) :
    ServerState :=
  { s with registry := { s.registry with byNick := s.registry.byNick.modify nick f } }

def ServerState.writeChannel (s : ServerState) (name : ChannelName) (f : Channel → Channel) :
    ServerState :=
  { s with channels := s.channels.modify name f }

def remoteSession (now : ℕ) (connectionId : ConnId) (nick : Nickname)
    (username realname hostname : Str) (signonTime : ℕ) : UserSession where
  connectionId := connectionId
  nickname := nick
  username := username
  realname := realname
  hostname := hostname
  signonTime := signonTime
  lastActive := now

/-- A user registered somewhere in the cluster. On its own node it is in the registry already. -/
def applyUserRegistered (s : ServerState) (now : ℕ) (connectionId : ConnId)
    (nickname username realname hostname : Str) (signonTime : ℕ) : ServerState :=
  withNick s nickname fun nick =>
    if s.registry.nickInUse nick then s
    else
      match s.registry.register
        (remoteSession now connectionId nick username realname hostname signonTime) with
      | .ok registry => { s with registry := registry }
      | .error _ => s

def applyNickChanged (s : ServerState) (oldNick newNick : Str) : ServerState :=
  withNick s oldNick fun old =>
    withNick s newNick fun new =>
      match s.registry.getByNick old with
      | none => s
      | some _ =>
        match s.registry.changeNick old new with
        | .ok registry => { s with registry := registry }
        | .error _ => s

/-- Take a user off every channel, and then remove the channels that are empty. -/
def ChannelRegistry.removeFromAll (channels : ChannelRegistry) (nick : Nickname) : ChannelRegistry :=
  let channels := channels.listAll.foldl (fun channels e =>
    channels.modify e.1 fun channel => { channel with members := channel.members.remove nick }) channels
  channels.listAll.foldl (fun channels e => channels.removeIfEmpty e.1) channels

/-- A user quit or was killed. A user that is not in the registry is taken to be gone already. -/
def applyUserQuit (s : ServerState) (nickname : Str) : ServerState :=
  withNick s nickname fun nick =>
    match s.registry.getByNick nick with
    | none => s
    | some session =>
      { s with
        channels := s.channels.removeFromAll nick
        registry := (s.registry.removeByConnection session.connectionId).2 }

def applyUserModeChanged (s : ServerState) (nickname : Str) (modesAdded modesRemoved : List Str) :
    ServerState :=
  withNick s nickname fun nick =>
    s.writeSession nick fun session =>
      { session with
        modes := (session.modes ∪ (modesAdded.filterMap parseUserMode).toFinset) \
          (modesRemoved.filterMap parseUserMode).toFinset }

/-- A user joined a channel. Members keep the status they have. -/
def applyChannelJoined (s : ServerState) (nickname channel status : Str) : ServerState :=
  withNick s nickname fun nick =>
    withChannel s channel fun name =>
      let (_, channels) := s.channels.getOrCreate name
      { s with
        channels := channels.modify name fun channel =>
          if channel.members.contains nick then channel
          else { channel with members := channel.members.insert nick (parseMemberStatus status) } }

def applyChannelParted (s : ServerState) (nickname channel : Str) : ServerState :=
  withNick s nickname fun nick =>
    withChannel s channel fun name =>
      match s.channels.get name with
      | some _ => s.removeMember name nick
      | none => s

def Channel.setStatus (channel : Channel) (change : Str × Str) : Channel :=
  match Nickname.new change.1 with
  | .ok nick =>
    if channel.members.contains nick then
      { channel with members := channel.members.insert nick (parseMemberStatus change.2) }
    else channel
  | .error _ => channel

def applyChannelModeChanged (s : ServerState) (channel : Str) (modesAdded modesRemoved : List Str)
    (key : Option Str) (userLimit : Option ℕ) (memberStatusChanges : List (Str × Str)) :
    ServerState :=
  withChannel s channel fun name =>
    s.writeChannel name fun ch =>
      memberStatusChanges.foldl Channel.setStatus
        { ch with
          modes := (ch.modes ∪ (modesAdded.filterMap parseChannelMode).toFinset) \
            (modesRemoved.filterMap parseChannelMode).toFinset
          key := key.or ch.key
          userLimit := userLimit.or ch.userLimit }

def applyBanAdded (s : ServerState) (channel mask whoSet : Str) (timestamp : ℕ) : ServerState :=
  withChannel s channel fun name =>
    s.writeChannel name fun ch =>
      if ch.banList.any fun b => b.mask = mask then ch
      else
        { ch with
          banList := ch.banList ++ [{ mask := mask, whoSet := whoSet, timestamp := timestamp }] }

def applyInviteAdded (s : ServerState) (channel nickname : Str) : ServerState :=
  withNick s nickname fun nick =>
    withChannel s channel fun name =>
      s.writeChannel name fun ch => { ch with inviteList := ch.inviteList.insert nick () }

/-- A user moved to another node: its session goes, so that the nickname is free. -/
def applyUserMigrated (s : ServerState) (nickname : Str) : ServerState :=
  withNick s nickname fun nick =>
    match s.registry.getByNick nick with
    | none => s
    | some session =>
      { s with registry := (s.registry.removeByConnection session.connectionId).2 }

/-- **Apply a committed command to the registries**, at the instant `now`. -/
def applyCommand (now : ℕ) (s : ServerState) : ClusterCommand → ServerState
  | .userRegistered connectionId nickname username realname hostname signonTime _ =>
    applyUserRegistered s now connectionId nickname username realname hostname signonTime
  | .nickChanged oldNick newNick => applyNickChanged s oldNick newNick
  | .userQuit nickname _ | .userKilled nickname _ => applyUserQuit s nickname
  | .userAway nickname message => withNick s nickname fun nick =>
    s.writeSession nick fun session => { session with awayMessage := message }
  | .userModeChanged nickname modesAdded modesRemoved =>
    applyUserModeChanged s nickname modesAdded modesRemoved
  | .channelJoined nickname channel status => applyChannelJoined s nickname channel status
  | .channelParted nickname channel _ | .userKicked channel nickname _ _ =>
    applyChannelParted s nickname channel
  | .topicSet channel topic => withChannel s channel fun name =>
    s.writeChannel name fun ch => { ch with topic := topic }
  | .channelModeChanged channel modesAdded modesRemoved key userLimit memberStatusChanges =>
    applyChannelModeChanged s channel modesAdded modesRemoved key userLimit memberStatusChanges
  | .banAdded channel mask whoSet timestamp => applyBanAdded s channel mask whoSet timestamp
  | .banRemoved channel mask => withChannel s channel fun name =>
    s.writeChannel name fun ch => { ch with banList := ch.banList.filter fun b => b.mask ≠ mask }
  | .inviteAdded channel nickname => applyInviteAdded s channel nickname
  | .operGranted nickname => withNick s nickname fun nick =>
    s.writeSession nick fun session => { session with modes := insert .operator session.modes }
  | .userMigrated nickname _ _ => applyUserMigrated s nickname
  -- other subsystems handle the servers
  | .serverAdded .. | .serverRemoved _ | .noop _ => s

/-! ## Who is on which channel -/

def ChannelRegistry.membership (r : ChannelRegistry) : Set (Str × Str) :=
  {p | ∃ channel, r.byName.lookup p.1 = some channel ∧ p.2 ∈ channel.occupants}

section Membership

variable {s : ServerState} {r : ChannelRegistry} {name : ChannelName} {nick : Nickname} {k i : Str}

theorem mem_membership : (k, i) ∈ r.membership ↔
    ∃ channel, r.byName.lookup k = some channel ∧ i ∈ channel.occupants := Iff.rfl

theorem onChannel_iff_mem :
    s.onChannel nick = true ↔ ∃ k, (k, nick.fold) ∈ s.channels.membership := by
  unfold ServerState.onChannel
  rw [List.any_eq_true]
  constructor
  · rintro ⟨e, he, hmember⟩
    exact ⟨e.1.fold, e.2, FoldMap.get_of_mem he, FoldMap.contains_iff.mp hmember⟩
  · rintro ⟨k, channel, hchannel, hi⟩
    obtain ⟨name, -, hmem⟩ := FoldMap.lookup_eq_some.mp hchannel
    exact ⟨(name, channel), hmem, FoldMap.contains_iff.mpr hi⟩

theorem mem_membership_modify (f : Channel → Channel) (g : Set Str → Set Str)
    (hg : ∀ channel, (f channel).occupants = g channel.occupants) :
    (k, i) ∈ (r.modify name f).membership ↔
      ∃ channel, r.byName.lookup k = some channel ∧
        i ∈ if name.fold = k then g channel.occupants else channel.occupants := by
  simp only [mem_membership, ChannelRegistry.modify, FoldMap.lookup_modify]
  split_ifs with hk
  · simp only [Option.map_eq_some_iff]
    constructor
    · rintro ⟨_, ⟨channel, hchannel, rfl⟩, hi⟩
      rw [hg] at hi
      exact ⟨channel, hchannel, hi⟩
    · rintro ⟨channel, hchannel, hi⟩
      rw [← hg] at hi
      exact ⟨_, ⟨channel, hchannel, rfl⟩, hi⟩
  · rfl

theorem membership_modify (f : Channel → Channel)
    (hf : ∀ channel, (f channel).occupants = channel.occupants) :
    (r.modify name f).membership = r.membership := by
  ext ⟨k, i⟩
  rw [mem_membership_modify f (fun o => o) hf]
  simp only [ite_self]
  rfl

theorem membership_modify_remove :
    (r.modify name fun channel =>
      { channel with members := channel.members.remove nick }).membership =
      r.membership \ {(name.fold, nick.fold)} := by
  ext ⟨k, i⟩
  rw [mem_membership_modify _ (fun o => o \ {nick.fold}) fun channel => occupants_remove channel nick]
  rw [Set.mem_sdiff, Set.mem_singleton_iff, Prod.mk.injEq, mem_membership]
  by_cases hk : name.fold = k
  · subst hk
    simp only [if_true, Set.mem_sdiff, Set.mem_singleton_iff, true_and]
    constructor
    · rintro ⟨channel, hchannel, hi, hne⟩
      exact ⟨⟨channel, hchannel, hi⟩, hne⟩
    · rintro ⟨⟨channel, hchannel, hi⟩, hne⟩
      exact ⟨channel, hchannel, hi, hne⟩
  · simp [hk, Ne.symm hk]

theorem membership_removeIfEmpty : (r.removeIfEmpty name).membership = r.membership := by
  ext ⟨k, i⟩
  rw [mem_membership, mem_membership, ChannelRegistry.lookup_removeIfEmpty]
  split_ifs with hk
  · constructor
    · rintro ⟨channel, hchannel, hi⟩
      exact ⟨channel, (Option.filter_eq_some_iff.mp hchannel).1, hi⟩
    · rintro ⟨channel, hchannel, hi⟩
      refine ⟨channel, Option.filter_eq_some_iff.mpr ⟨hchannel, ?_⟩, hi⟩
      rw [Bool.not_eq_true', ← Bool.not_eq_true, ← occupants_eq_empty]
      exact Set.Nonempty.ne_empty ⟨i, hi⟩
  · rfl

theorem membership_foldl_removeIfEmpty (items : List (ChannelName × Channel)) :
    (items.foldl (fun r e => r.removeIfEmpty e.1) r).membership = r.membership := by
  induction items generalizing r with
  | nil => rfl
  | cons e items ih => rw [List.foldl_cons, ih, membership_removeIfEmpty]

theorem membership_foldl_remove (items : List (ChannelName × Channel)) :
    (items.foldl (fun r e => r.modify e.1 fun channel =>
      { channel with members := channel.members.remove nick }) r).membership =
      {p ∈ r.membership | ∀ e ∈ items, p ≠ (e.1.fold, nick.fold)} := by
  induction items generalizing r with
  | nil => simp
  | cons e items ih =>
    rw [List.foldl_cons, ih, membership_modify_remove]
    ext p
    simp only [Set.mem_ofPred_eq, Set.mem_sdiff, Set.mem_singleton_iff, List.forall_mem_cons, ne_eq]
    tauto

theorem membership_removeFromAll :
    (r.removeFromAll nick).membership = {p ∈ r.membership | p.2 ≠ nick.fold} := by
  unfold ChannelRegistry.removeFromAll
  dsimp only
  rw [membership_foldl_removeIfEmpty, membership_foldl_remove]
  ext ⟨k, i⟩
  simp only [Set.mem_ofPred_eq, and_congr_right_iff]
  rintro ⟨channel, hchannel, -⟩
  constructor
  · rintro hall rfl
    obtain ⟨name, rfl, hmem⟩ := FoldMap.lookup_eq_some.mp hchannel
    exact hall (name, channel) hmem rfl
  · rintro hne e _ heq
    exact hne (congrArg Prod.snd heq)

theorem membership_getOrCreate : (r.getOrCreate name).2.membership = r.membership := by
  ext ⟨k, i⟩
  rw [mem_membership, mem_membership, ChannelRegistry.lookup_getOrCreate]
  split_ifs with hk
  · subst hk
    unfold ChannelRegistry.getOrCreate FoldMap.get
    cases r.byName.lookup name.fold with
    | some channel => rfl
    | none => simp [Channel.occupants]
  · rfl

theorem membership_removeMember (s : ServerState) :
    (s.removeMember name nick).channels.membership =
      s.channels.membership \ {(name.fold, nick.fold)} := by
  unfold ServerState.removeMember
  dsimp only
  rw [membership_removeIfEmpty, membership_modify_remove]

theorem occupants_insert_member (channel : Channel) (nick : Nickname) (status : MemberStatus) :
    { channel with members := channel.members.insert nick status }.occupants =
      insert nick.fold channel.occupants := by
  ext i
  simp only [Channel.occupants, FoldMap.lookup_insert, Set.mem_ofPred_eq, Set.mem_insert_iff]
  by_cases hi : nick.fold = i
  · simp [hi]
  · simp [hi, Ne.symm hi]

theorem occupants_foldl_setStatus (channel : Channel) (changes : List (Str × Str)) :
    (changes.foldl Channel.setStatus channel).occupants = channel.occupants := by
  induction changes generalizing channel with
  | nil => rfl
  | cons change changes ih =>
    rw [List.foldl_cons, ih]
    unfold Channel.setStatus
    split
    · split_ifs with hin
      · exact occupants_insert hin
      · rfl
    · rfl

end Membership

/-! ## Effects -/

section Validation

variable {s : ServerState} {P : ServerState → Prop}

theorem withNick_of_valid {nickname : Str} (h : Nickname.validate nickname = .ok ())
    (f : Nickname → ServerState) : withNick s nickname f = f ⟨nickname, h⟩ := by
  unfold withNick
  rw [Nickname.new_of_valid h]

theorem withChannel_of_valid {channel : Str} (h : ChannelName.validate channel = .ok ())
    (f : ChannelName → ServerState) : withChannel s channel f = f ⟨channel, h⟩ := by
  unfold withChannel
  rw [ChannelName.new_name ⟨channel, h⟩]

theorem withNick_induction {nickname : Str} {f : Nickname → ServerState} (hs : P s)
    (hf : ∀ nick, P (f nick)) : P (withNick s nickname f) := by
  unfold withNick
  split
  · exact hf _
  · exact hs

theorem withChannel_induction {channel : Str} {f : ChannelName → ServerState} (hs : P s)
    (hf : ∀ name, P (f name)) : P (withChannel s channel f) := by
  unfold withChannel
  split
  · exact hf _
  · exact hs

end Validation

def ClusterCommand.Valid : ClusterCommand → Prop
  | .userRegistered _ nickname _ _ _ _ _ => Nickname.validate nickname = .ok ()
  | .nickChanged oldNick newNick =>
    Nickname.validate oldNick = .ok () ∧ Nickname.validate newNick = .ok ()
  | .userQuit nickname _ | .userKilled nickname _ => Nickname.validate nickname = .ok ()
  | .channelJoined nickname channel _ | .channelParted nickname channel _
  | .userKicked channel nickname _ _ =>
    Nickname.validate nickname = .ok () ∧ ChannelName.validate channel = .ok ()
  | _ => True

instance : DecidablePred ClusterCommand.Valid := fun command => by
  unfold ClusterCommand.Valid
  split <;> infer_instance

/-- **The registries follow a command**: it renames nobody who is on a channel, and the user who
quits is in the registry or on no channel. -/
def ServerState.keepsMembership (s : ServerState) : ClusterCommand → Bool
  | .nickChanged oldNick newNick =>
    match Nickname.new oldNick, Nickname.new newNick with
    | .ok old, .ok new => old.fold = new.fold || !s.onChannel old
    | _, _ => true
  | .userQuit nickname _ | .userKilled nickname _ =>
    match Nickname.new nickname with
    | .ok nick => s.registry.nickInUse nick || !s.onChannel nick
    | .error _ => true
  | _ => true

section Effects

variable {s : ServerState}

theorem membership_withNick {nickname : Str} {f : Nickname → ServerState}
    (hf : ∀ nick, (f nick).channels.membership = s.channels.membership) :
    (withNick s nickname f).channels.membership = s.channels.membership :=
  withNick_induction (P := fun t => t.channels.membership = s.channels.membership) rfl hf

theorem membership_withChannel {channel : Str} {f : ChannelName → Channel → Channel}
    (hf : ∀ {name} ch, (f name ch).occupants = ch.occupants) :
    (withChannel s channel fun name => s.writeChannel name (f name)).channels.membership =
      s.channels.membership := by
  apply withChannel_induction (P := fun t => t.channels.membership = s.channels.membership) rfl
  intro name
  exact membership_modify _ hf

theorem channels_applyUserRegistered (now : ℕ) (connectionId : ConnId)
    (nickname username realname hostname : Str) (signonTime : ℕ) :
    (applyUserRegistered s now connectionId nickname username realname hostname
      signonTime).channels = s.channels := by
  apply withNick_induction (P := fun t => t.channels = s.channels) rfl
  intro nick
  split_ifs
  · rfl
  · split
    · rfl
    · rfl

theorem channels_applyNickChanged (oldNick newNick : Str) :
    (applyNickChanged s oldNick newNick).channels = s.channels := by
  apply withNick_induction (P := fun t => t.channels = s.channels) rfl
  intro old
  apply withNick_induction (P := fun t => t.channels = s.channels) rfl
  intro new
  split
  · rfl
  · split
    · rfl
    · rfl

theorem membership_applyChannelJoined {nickname channel : Str}
    (hnick : Nickname.validate nickname = .ok ()) (hname : ChannelName.validate channel = .ok ())
    (status : Str) :
    (applyChannelJoined s nickname channel status).channels.membership =
      insert (lowercase channel, lowercase nickname) s.channels.membership := by
  unfold applyChannelJoined
  rw [withNick_of_valid hnick, withChannel_of_valid hname]
  generalize hn : (⟨nickname, hnick⟩ : Nickname) = nick
  generalize hc : (⟨channel, hname⟩ : ChannelName) = name
  have hfold : nick.fold = lowercase nickname := by rw [← hn]; rfl
  have hkey : name.fold = lowercase channel := by rw [← hc]; rfl
  have hsame : (s.channels.getOrCreate name).2.membership = s.channels.membership :=
    membership_getOrCreate
  rw [← hfold, ← hkey, ← hsame]
  dsimp only
  -- whether or not the user was a member, it is one now, and the others stay
  ext ⟨k, i⟩
  rw [mem_membership_modify _ (fun o => insert nick.fold o)]
  · rw [Set.mem_insert_iff, Prod.mk.injEq, mem_membership, ChannelRegistry.lookup_getOrCreate]
    by_cases hk : name.fold = k
    · simp [hk]
    · simp [hk, Ne.symm hk]
  · intro ch
    split_ifs with hin
    · have hmember : nick.fold ∈ ch.occupants := FoldMap.contains_iff.mp hin
      exact (Set.insert_eq_of_mem hmember).symm
    · exact occupants_insert_member ch nick _

theorem membership_applyChannelParted {nickname channel : Str}
    (hnick : Nickname.validate nickname = .ok ()) (hname : ChannelName.validate channel = .ok ()) :
    (applyChannelParted s nickname channel).channels.membership =
      s.channels.membership \ {(lowercase channel, lowercase nickname)} := by
  unfold applyChannelParted
  rw [withNick_of_valid hnick, withChannel_of_valid hname]
  cases hget : s.channels.get ⟨channel, hname⟩ with
  | some ch => exact membership_removeMember s
  | none =>
    symm
    apply Set.sdiff_singleton_eq_self
    rintro ⟨ch, hch, -⟩
    rw [ChannelRegistry.get, FoldMap.get] at hget
    rw [show lowercase channel = ChannelName.fold ⟨channel, hname⟩ from rfl] at hch
    rw [hget] at hch
    cases hch

theorem eq_without_iff (nick : Nickname) :
    s.channels.membership = {p ∈ s.channels.membership | p.2 ≠ nick.fold} ↔
      s.onChannel nick = false := by
  rw [← Bool.not_eq_true, onChannel_iff_mem]
  constructor
  · rintro h ⟨k, hk⟩
    rw [h] at hk
    exact hk.2 rfl
  · intro hnone
    ext ⟨k, i⟩
    simp only [Set.mem_ofPred_eq, iff_self_and]
    rintro hk rfl
    exact hnone ⟨k, hk⟩

theorem eq_renameMember_iff (old new : Nickname) :
    s.channels.membership = renameMember old.fold new.fold s.channels.membership ↔
      old.fold = new.fold ∨ s.onChannel old = false := by
  rw [← Bool.not_eq_true, onChannel_iff_mem]
  constructor
  · intro h
    by_contra hne
    rw [not_or, not_not] at hne
    obtain ⟨hfold, k, hk⟩ := hne
    -- the old name is on the channel, and after the renaming it is not
    rw [h] at hk
    rcases hk with ⟨hself, -⟩ | ⟨hnew, -⟩
    · exact hself rfl
    · exact hfold hnew
  · rintro (hfold | hnone)
    · rw [hfold, renameMember_self]
    · ext ⟨k, i⟩
      simp only [renameMember, Set.mem_ofPred_eq]
      constructor
      · intro hk
        refine .inl ⟨?_, hk⟩
        rintro rfl
        exact hnone ⟨k, hk⟩
      · rintro (⟨-, hk⟩ | ⟨-, hk⟩)
        · exact hk
        · exact absurd ⟨k, hk⟩ hnone

theorem membership_applyUserQuit_iff {nickname : Str} (h : Nickname.validate nickname = .ok ()) :
    (applyUserQuit s nickname).channels.membership =
        {p ∈ s.channels.membership | p.2 ≠ lowercase nickname} ↔
      (s.registry.nickInUse ⟨nickname, h⟩ || !s.onChannel ⟨nickname, h⟩) = true := by
  unfold applyUserQuit
  rw [withNick_of_valid h]
  cases hget : s.registry.getByNick ⟨nickname, h⟩ with
  | some session =>
    dsimp only
    have hin : s.registry.nickInUse ⟨nickname, h⟩ = true := FoldMap.contains_iff.mpr ⟨_, hget⟩
    rw [hin, Bool.true_or]
    exact iff_of_true membership_removeFromAll rfl
  | none =>
    dsimp only
    have hout : s.registry.nickInUse ⟨nickname, h⟩ = false := FoldMap.contains_eq_false.mpr hget
    rw [hout, Bool.false_or, Bool.not_eq_true']
    exact eq_without_iff ⟨nickname, h⟩

/-- **The registries have the effect of a command exactly if they follow it.** -/
theorem membership_applyCommand_iff (now : ℕ) {command : ClusterCommand} (h : command.Valid) :
    (applyCommand now s command).channels.membership = command.effect s.channels.membership ↔
      s.keepsMembership command = true := by
  cases command with
  | nickChanged oldNick newNick =>
    obtain ⟨hold, hnew⟩ := h
    have hkeeps := eq_renameMember_iff (s := s) ⟨oldNick, hold⟩ ⟨newNick, hnew⟩
    dsimp only [ServerState.keepsMembership, applyCommand]
    rw [channels_applyNickChanged, Nickname.new_of_valid hold, Nickname.new_of_valid hnew]
    rw [Bool.or_eq_true, decide_eq_true_eq, Bool.not_eq_true']
    exact hkeeps
  | userQuit nickname reason =>
    dsimp only [ServerState.keepsMembership]
    rw [Nickname.new_of_valid h]
    exact membership_applyUserQuit_iff h
  | userKilled nickname reason =>
    dsimp only [ServerState.keepsMembership]
    rw [Nickname.new_of_valid h]
    exact membership_applyUserQuit_iff h
  | channelJoined nickname channel status =>
    exact iff_of_true (membership_applyChannelJoined h.1 h.2 status) rfl
  | channelParted nickname channel reason =>
    exact iff_of_true (membership_applyChannelParted h.1 h.2) rfl
  | userKicked channel nickname who reason =>
    exact iff_of_true (membership_applyChannelParted h.1 h.2) rfl
  | userRegistered =>
    exact iff_of_true (congrArg _ (channels_applyUserRegistered ..)) rfl
  -- the other commands write to sessions, or to channels whose members stay
  | userAway => exact iff_of_true (membership_withNick fun _ => rfl) rfl
  | userModeChanged => exact iff_of_true (membership_withNick fun _ => rfl) rfl
  | operGranted => exact iff_of_true (membership_withNick fun _ => rfl) rfl
  | userMigrated nickname =>
    refine iff_of_true (membership_withNick ?_) rfl
    intro nick
    split
    · rfl
    · rfl
  | topicSet => exact iff_of_true (membership_withChannel fun _ => rfl) rfl
  | channelModeChanged =>
    refine iff_of_true (membership_withChannel ?_) rfl
    intro name channel
    exact occupants_foldl_setStatus _ _
  | banAdded =>
    refine iff_of_true (membership_withChannel ?_) rfl
    intro name channel
    split_ifs
    · rfl
    · rfl
  | banRemoved => exact iff_of_true (membership_withChannel fun _ => rfl) rfl
  | inviteAdded =>
    refine iff_of_true (membership_withNick ?_) rfl
    intro nick
    exact membership_withChannel fun _ => rfl
  | serverAdded => exact iff_of_true rfl rfl
  | serverRemoved => exact iff_of_true rfl rfl
  | noop => exact iff_of_true rfl rfl

end Effects

/-! ## Runs -/

/-- A committed command, and the instant at which the node applies it. -/
structure Commit where
  command : ClusterCommand
  now : ℕ := 0

/-- The registries of a node, and its copy of the state machine. -/
structure Replica where
  server : ServerState := {}
  machine : ClusterStateMachine := {}

def Replica.step (r : Replica) (e : Commit) : Replica where
  server := applyCommand e.now r.server e.command
  machine := r.machine.apply e.command

/-- A node that applies committed commands with valid names. -/
def replicaSystem : System Replica Commit where
  enabled _ e := e.command.Valid
  step := Replica.step

instance (r : Replica) (e : Commit) : Decidable (replicaSystem.enabled r e) :=
  inferInstanceAs (Decidable e.command.Valid)

/-- **Registries and state machine.** In a run of committed commands from empty state, the two agree
on who is on which channel in every state exactly when the registries follow every command. -/
theorem membership_eq_iff {es : List Commit} (h : replicaSystem.Legal System.Free {} es) :
    (∀ n, (replicaSystem.exec {} (es.take n)).server.channels.membership =
        (replicaSystem.exec {} (es.take n)).machine.membership) ↔
      replicaSystem.Legal (fun r e => r.server.keepsMembership e.command = true) {} es := by
  apply System.forall_take_iff_of_step (I := fun _ => True)
    (P := fun r => r.server.channels.membership = r.machine.membership) (fun _ _ _ _ => trivial) _ h
    trivial
  · -- both start without channels
    ext ⟨k, i⟩
    simp [mem_membership, ClusterStateMachine.mem_membership]
  · intro r e hvalid _ hr
    have hmachine := r.machine.membership_apply e.command
    rw [← hr] at hmachine
    rw [← membership_applyCommand_iff e.now hvalid, ← hmachine]
    rfl

section Runs

def registered (connectionId : ConnId) (nickname : String) : Commit where
  command := .userRegistered connectionId nickname nickname nickname "localhost" 0 none

/-- A user joins a channel, leaves it, takes another nickname, joins again and quits. -/
def renamesOutside : List Commit :=
  [registered 1 "alice", ⟨.channelJoined "alice" "#a" "operator", 0⟩,
    ⟨.channelParted "Alice" "#A" none, 0⟩, ⟨.nickChanged "alice" "bob", 0⟩,
    ⟨.channelJoined "bob" "#a" "operator", 0⟩, ⟨.userQuit "bob" none, 0⟩]

/-- Two users are on a channel, and one of them takes another nickname. -/
def renamesInside : List Commit :=
  [registered 1 "alice", registered 2 "carol", ⟨.channelJoined "alice" "#a" "operator", 0⟩,
    ⟨.channelJoined "carol" "#a" "normal", 0⟩, ⟨.nickChanged "alice" "bob", 0⟩]

/-- The run of a user who takes another nickname while on no channel. -/
theorem membership_eq_iff_renamesOutside :
    replicaSystem.Legal System.Free {} renamesOutside ∧
      ∀ n, (replicaSystem.exec {} (renamesOutside.take n)).server.channels.membership =
        (replicaSystem.exec {} (renamesOutside.take n)).machine.membership := by
  have hlegal : replicaSystem.Legal System.Free {} renamesOutside := by decide +kernel
  exact ⟨hlegal, (membership_eq_iff hlegal).mpr (by decide +kernel)⟩

/-- **A rename the registries miss**: the state machine has `bob` on the channel, and the registries
still have `alice`. -/
theorem renamed_member_differs :
    replicaSystem.Legal System.Free {} renamesInside ∧
      (replicaSystem.exec {} renamesInside).server.channels.membership ≠
        (replicaSystem.exec {} renamesInside).machine.membership := by
  have hlegal : replicaSystem.Legal System.Free {} renamesInside := by decide +kernel
  refine ⟨hlegal, ?_⟩
  intro heq
  have hlive : ("#a".toList, "alice".toList) ∈
      (replicaSystem.exec {} renamesInside).server.channels.membership := by
    rw [mem_membership]
    have hbool : (((replicaSystem.exec {} renamesInside).server.channels.byName.lookup
        "#a".toList).bind fun ch => ch.members.lookup "alice".toList) = some .operator := by
      decide +kernel
    obtain ⟨ch, hch, hstatus⟩ := Option.bind_eq_some_iff.mp hbool
    exact ⟨ch, hch, _, hstatus⟩
  rw [heq, ClusterStateMachine.mem_membership] at hlive
  obtain ⟨ch, hch, status, hstatus⟩ := hlive
  have hnone : (((replicaSystem.exec {} renamesInside).machine.channels.lookup
      "#a".toList).bind fun ch => ch.members.lookup "alice".toList) = none := by
    decide +kernel
  rw [hch, Option.bind_some, hstatus] at hnone
  cases hnone

end Runs

end Pirc.Server
