import Mathlib
import Pirc.Server.ClusterState

/-!
# Server: keys of the replicated state, and quits

The maps of the replicated state (`raft/state_machine.rs`) are keyed by names in lower case, and
every command lowers the names it brings. A quit takes a user off the channels, and also closes
every channel that nobody is on: other commands make such channels.
-/

namespace Pirc.Server

open Protocol

theorem lowercase_lowercase (s : Str) : lowercase (lowercase s) = lowercase s := by
  simp [lowercase]

/-! ## Canonical keys -/

/-- The members and the invited are in lower case. -/
structure ReplicatedChannel.Canonical (ch : ReplicatedChannel) : Prop where
  members : ∀ nickKey status, ch.members.lookup nickKey = some status → lowercase nickKey = nickKey
  invites : ∀ nickKey ∈ ch.inviteList, lowercase nickKey = nickKey

/-- **Every key is the lower-case form of the name under it.** -/
structure ClusterStateMachine.Canonical (m : ClusterStateMachine) : Prop where
  users : ∀ key user, m.users.lookup key = some user → lowercase user.nickname = key
  named : ∀ key ch, m.channels.lookup key = some ch → lowercase ch.name = key
  channels : ∀ key ch, m.channels.lookup key = some ch → ch.Canonical

namespace ReplicatedChannel.Canonical

variable {ch : ReplicatedChannel}

theorem new (name : Str) : ({ name := name } : ReplicatedChannel).Canonical where
  members _ _ h := by
    rw [FoldMap.lookup_empty] at h
    cases h
  invites _ h := by cases h

theorem congr {ch' : ReplicatedChannel} (h : ch.Canonical) (hmembers : ch'.members = ch.members)
    (hinvites : ch'.inviteList = ch.inviteList) : ch'.Canonical where
  members := hmembers ▸ h.members
  invites := hinvites ▸ h.invites

theorem insert (h : ch.Canonical) (nickname status : Str) :
    { ch with members := ch.members.insert (lowercase nickname) status }.Canonical where
  members nickKey status' hlookup := by
    rw [FoldMap.lookup_insert] at hlookup
    split_ifs at hlookup with hkey
    · rw [← hkey]
      exact lowercase_lowercase nickname
    · exact h.members _ _ hlookup
  invites := h.invites

theorem remove (h : ch.Canonical) (nickKey : Str) :
    { ch with members := ch.members.remove nickKey }.Canonical where
  members nickKey' status hlookup := by
    rw [FoldMap.lookup_remove] at hlookup
    split_ifs at hlookup
    exact h.members _ _ hlookup
  invites := h.invites

theorem invite (h : ch.Canonical) (nickname : Str) :
    { ch with inviteList := Insert.insert (lowercase nickname) ch.inviteList }.Canonical where
  members := h.members
  invites nickKey hmem := by
    rcases Finset.mem_insert.mp hmem with rfl | hmem
    · exact lowercase_lowercase nickname
    · exact h.invites _ hmem

theorem rename (h : ch.Canonical) (oldKey newNick : Str) :
    (ch.rename oldKey (lowercase newNick)).Canonical := by
  unfold ReplicatedChannel.rename
  split
  · exact (h.remove oldKey).insert newNick _
  · exact h

theorem setStatus (h : ch.Canonical) (change : Str × Str) : (ch.setStatus change).Canonical := by
  unfold ReplicatedChannel.setStatus
  dsimp only
  split_ifs
  · exact h.insert change.1 change.2
  · exact h

theorem foldl_setStatus (h : ch.Canonical) (changes : List (Str × Str)) :
    (changes.foldl ReplicatedChannel.setStatus ch).Canonical :=
  List.foldlRecOn changes _ h fun _ hch change _ => hch.setStatus change

end ReplicatedChannel.Canonical

namespace ClusterStateMachine

variable {m : ClusterStateMachine}

theorem Canonical.empty : ({} : ClusterStateMachine).Canonical where
  users _ _ h := by
    rw [FoldMap.lookup_empty] at h
    cases h
  named _ _ h := by
    rw [FoldMap.lookup_empty] at h
    cases h
  channels _ _ h := by
    rw [FoldMap.lookup_empty] at h
    cases h

theorem Canonical.ensureChannel (h : m.Canonical) (channel : Str)
    {write : ReplicatedChannel → ReplicatedChannel} (hname : ∀ ch, (write ch).name = ch.name)
    (hwrite : ∀ ch, ch.Canonical → (write ch).Canonical) : (m.ensureChannel channel write).Canonical := by
  -- the channel that is written to, new or not, has the name of its key
  have hfound : lowercase ((m.channels.get (lowercase channel)).getD { name := channel }).name =
      lowercase channel ∧ ((m.channels.get (lowercase channel)).getD { name := channel }).Canonical := by
    cases hget : m.channels.get (lowercase channel) with
    | some ch => exact ⟨h.named _ ch hget, h.channels _ ch hget⟩
    | none => exact ⟨rfl, .new channel⟩
  refine ⟨h.users, fun key ch hlookup => ?_, fun key ch hlookup => ?_⟩
  · rw [ClusterStateMachine.ensureChannel, FoldMap.lookup_insert] at hlookup
    split_ifs at hlookup with hkey
    · cases hlookup
      rw [hname, hfound.1, hkey]
    · exact h.named _ _ hlookup
  · rw [ClusterStateMachine.ensureChannel, FoldMap.lookup_insert] at hlookup
    split_ifs at hlookup with hkey
    · cases hlookup
      exact hwrite _ hfound.2
    · exact h.channels _ _ hlookup

theorem Canonical.modifyUser (h : m.Canonical) (nickname : Str) {write : ReplicatedUser → ReplicatedUser}
    (hname : ∀ user, (write user).nickname = user.nickname) : (m.modifyUser nickname write).Canonical := by
  refine ⟨fun key user hlookup => ?_, h.named, h.channels⟩
  rw [ClusterStateMachine.modifyUser, FoldMap.lookup_modify] at hlookup
  split_ifs at hlookup with hkey
  · obtain ⟨user', huser', rfl⟩ := Option.map_eq_some_iff.mp hlookup
    rw [hname]
    exact h.users _ _ huser'
  · exact h.users _ _ hlookup

theorem Canonical.of_channels (h : m.Canonical) {channels : StrMap ReplicatedChannel}
    (hchannels : ∀ key ch, channels.lookup key = some ch →
      ∃ ch', m.channels.lookup key = some ch' ∧ ch.name = ch'.name ∧ (ch'.Canonical → ch.Canonical)) :
    { m with channels := channels }.Canonical := by
  refine ⟨h.users, fun key ch hlookup => ?_, fun key ch hlookup => ?_⟩
  · obtain ⟨ch', hch', hname, -⟩ := hchannels key ch hlookup
    rw [hname]
    exact h.named _ _ hch'
  · obtain ⟨ch', hch', -, hkeep⟩ := hchannels key ch hlookup
    exact hkeep (h.channels _ _ hch')

theorem Canonical.removeUser (h : m.Canonical) (key : Str) :
    { m with users := m.users.remove key }.Canonical := by
  refine ⟨fun key' user hlookup => ?_, h.named, h.channels⟩
  rw [FoldMap.lookup_remove] at hlookup
  split_ifs at hlookup
  exact h.users _ _ hlookup

theorem Canonical.insertUser (h : m.Canonical) (user : ReplicatedUser) :
    { m with users := m.users.insert (lowercase user.nickname) user }.Canonical := by
  refine ⟨fun key user' hlookup => ?_, h.named, h.channels⟩
  rw [FoldMap.lookup_insert] at hlookup
  split_ifs at hlookup with hkey
  · cases hlookup
    exact hkey
  · exact h.users _ _ hlookup

theorem Canonical.removeUserFromAllChannels (h : m.Canonical) (nickKey : Str) :
    (m.removeUserFromAllChannels nickKey).Canonical := by
  refine h.of_channels fun key ch hlookup => ?_
  rw [FoldMap.lookup_retain, FoldMap.lookup_mapValues] at hlookup
  obtain ⟨ch', hch', rfl⟩ := Option.map_eq_some_iff.mp (Option.filter_eq_some_iff.mp hlookup).1
  exact ⟨ch', hch', rfl, fun hcanonical => hcanonical.remove nickKey⟩

theorem Canonical.removeMemberFromChannel (h : m.Canonical) (channel nickname : Str) :
    (m.removeMemberFromChannel channel nickname).Canonical := by
  unfold ClusterStateMachine.removeMemberFromChannel
  dsimp only
  split
  · next ch hch =>
    split_ifs
    · refine h.of_channels fun key ch' hlookup => ?_
      rw [FoldMap.lookup_remove] at hlookup
      split_ifs at hlookup
      exact ⟨ch', hlookup, rfl, fun hcanonical => hcanonical⟩
    · refine h.of_channels fun key ch' hlookup => ?_
      rw [FoldMap.lookup_insert] at hlookup
      split_ifs at hlookup with hkey
      · cases hlookup
        exact ⟨ch, hkey ▸ hch, rfl, fun hcanonical => hcanonical.remove _⟩
      · exact ⟨ch', hlookup, rfl, fun hcanonical => hcanonical⟩
  · exact h

theorem Canonical.applyNickChanged (h : m.Canonical) (oldNick newNick : Str) :
    (m.applyNickChanged oldNick newNick).Canonical := by
  have husers : { m with users := (m.applyNickChanged oldNick newNick).users }.Canonical := by
    unfold ClusterStateMachine.applyNickChanged
    dsimp only
    split
    · next user _ => exact (h.removeUser (lowercase oldNick)).insertUser { user with nickname := newNick }
    · exact h
  refine husers.of_channels fun key ch hlookup => ?_
  rw [FoldMap.lookup_mapValues] at hlookup
  obtain ⟨ch', hch', rfl⟩ := Option.map_eq_some_iff.mp hlookup
  refine ⟨ch', hch', ?_, fun hcanonical => hcanonical.rename _ newNick⟩
  unfold ReplicatedChannel.rename
  split
  · rfl
  · rfl

theorem name_foldl_setStatus (changes : List (Str × Str)) (ch : ReplicatedChannel) :
    (changes.foldl ReplicatedChannel.setStatus ch).name = ch.name := by
  induction changes generalizing ch with
  | nil => rfl
  | cons change changes ih =>
    rw [List.foldl_cons, ih, ReplicatedChannel.setStatus]
    split_ifs
    · rfl
    · rfl

/-- **One command**, by cases on it. -/
theorem canonical_apply (h : m.Canonical) (command : ClusterCommand) : (m.apply command).Canonical := by
  cases command with
  | userRegistered connectionId nickname username realname hostname signonTime homeNode =>
    exact h.insertUser {
      nickname := nickname
      username := username
      realname := realname
      hostname := hostname
      signonTime := signonTime
      homeNode := homeNode }
  | nickChanged oldNick newNick => exact h.applyNickChanged oldNick newNick
  | userQuit nickname => exact (h.removeUser _).removeUserFromAllChannels _
  | userKilled nickname => exact (h.removeUser _).removeUserFromAllChannels _
  | userAway nickname => exact h.modifyUser nickname fun _ => rfl
  | userModeChanged nickname => exact h.modifyUser nickname fun _ => rfl
  | channelJoined nickname channel status =>
    rw [apply]
    refine h.ensureChannel channel ?_ ?_
    · exact fun _ => rfl
    · exact fun _ hch => hch.insert nickname status
  | channelParted nickname channel => exact h.removeMemberFromChannel channel nickname
  | userKicked channel nickname => exact h.removeMemberFromChannel channel nickname
  | topicSet channel =>
    rw [apply]
    refine h.ensureChannel channel ?_ ?_
    · exact fun _ => rfl
    · exact fun _ hch => hch.congr rfl rfl
  | channelModeChanged channel modesAdded modesRemoved key userLimit memberStatusChanges =>
    rw [apply, applyChannelModeChanged]
    refine h.ensureChannel channel ?_ ?_
    · exact fun _ => name_foldl_setStatus _ _
    · intro ch hch
      have hset : ({ ch with
          modes := (ch.modes ∪ modesAdded.toFinset) \ modesRemoved.toFinset
          key := key.or ch.key
          userLimit := userLimit.or ch.userLimit } : ReplicatedChannel).Canonical := hch.congr rfl rfl
      exact hset.foldl_setStatus memberStatusChanges
  | banAdded channel =>
    rw [apply]
    refine h.ensureChannel channel ?_ ?_
    · exact fun _ => rfl
    · exact fun _ hch => hch.congr rfl rfl
  | banRemoved channel mask =>
    refine h.of_channels fun key ch hlookup => ?_
    rw [FoldMap.lookup_modify] at hlookup
    split_ifs at hlookup
    · obtain ⟨ch', hch', rfl⟩ := Option.map_eq_some_iff.mp hlookup
      exact ⟨ch', hch', rfl, fun hcanonical => hcanonical.congr rfl rfl⟩
    · exact ⟨ch, hlookup, rfl, fun hcanonical => hcanonical⟩
  | inviteAdded channel nickname =>
    rw [apply]
    refine h.ensureChannel channel ?_ ?_
    · exact fun _ => rfl
    · exact fun _ hch => hch.invite nickname
  | operGranted nickname => exact h.modifyUser nickname fun _ => rfl
  | serverAdded => exact ⟨h.users, h.named, h.channels⟩
  | serverRemoved => exact ⟨h.users, h.named, h.channels⟩
  | userMigrated nickname => exact h.modifyUser nickname fun _ => rfl
  | noop => exact h

/-- **The keys are canonical** after any commands, from the empty state on. -/
theorem canonical_run (commands : List ClusterCommand) :
    (commands.foldl apply ({} : ClusterStateMachine)).Canonical :=
  List.foldlRecOn commands _ .empty fun _ h command _ => canonical_apply h command

/-! ## Quits -/

/-- **What a quit does** to the channels: the user goes from its own, and so do the channels nobody
is on then, or was on before. -/
structure QuitEffect (m t : ClusterStateMachine) (nickKey : Str) : Prop where
  others : ∀ key ch, m.channels.lookup key = some ch → ch.members.contains nickKey = false →
    ch.members.isEmpty = false → t.channels.lookup key = some ch
  kept : ∀ key ch, m.channels.lookup key = some ch → ch.members.contains nickKey = true →
    (∃ other status, other ≠ nickKey ∧ ch.members.lookup other = some status) →
    t.channels.lookup key = some { ch with members := ch.members.remove nickKey }
  last : ∀ key ch, m.channels.lookup key = some ch →
    (∀ other status, other ≠ nickKey → ch.members.lookup other ≠ some status) →
    t.channels.lookup key = none
  /-- No channel appears. -/
  none : ∀ key, m.channels.lookup key = none → t.channels.lookup key = none

theorem lookup_removeUserFromAllChannels (m : ClusterStateMachine) (nickKey key : Str) :
    (m.removeUserFromAllChannels nickKey).channels.lookup key =
      (m.channels.lookup key).bind fun ch =>
        if (ch.members.remove nickKey).isEmpty then Option.none
        else some { ch with members := ch.members.remove nickKey } := by
  rw [removeUserFromAllChannels]
  dsimp only
  rw [FoldMap.lookup_retain, FoldMap.lookup_mapValues]
  cases m.channels.lookup key with
  | none => rfl
  | some ch =>
    simp only [Option.map_some, Option.bind_some, Option.filter]
    by_cases hempty : (ch.members.remove nickKey).isEmpty
    · simp [hempty]
    · simp [hempty]

theorem not_isEmpty_remove {ch : ReplicatedChannel} {nickKey other status : Str} (hne : other ≠ nickKey)
    (h : ch.members.lookup other = some status) : (ch.members.remove nickKey).isEmpty = false := by
  rw [← Bool.not_eq_true, FoldMap.isEmpty_iff]
  intro hnone
  have hstays := hnone other
  rw [FoldMap.lookup_remove, if_neg (Ne.symm hne), h] at hstays
  cases hstays

theorem quitEffect_removeUserFromAllChannels (m : ClusterStateMachine) (nickKey : Str) :
    QuitEffect m (m.removeUserFromAllChannels nickKey) nickKey where
  others key ch hch hnot hmembers := by
    -- who is not a member takes nobody off
    have hget : ch.members.get nickKey = Option.none := FoldMap.contains_eq_false.mp hnot
    rw [lookup_removeUserFromAllChannels, hch, Option.bind_some, FoldMap.remove_of_get_eq_none hget,
      hmembers]
    rfl
  kept key ch hch _ hother := by
    obtain ⟨other, status, hne, hlookup⟩ := hother
    rw [lookup_removeUserFromAllChannels, hch, Option.bind_some, not_isEmpty_remove hne hlookup]
    rfl
  last key ch hch hnobody := by
    have hempty : (ch.members.remove nickKey).isEmpty = true := by
      rw [FoldMap.isEmpty_iff]
      intro other
      rw [FoldMap.lookup_remove]
      split_ifs with hother
      · rfl
      · exact Option.eq_none_iff_forall_ne_some.mpr fun status =>
          hnobody other status (Ne.symm hother)
    rw [lookup_removeUserFromAllChannels, hch, Option.bind_some, if_pos hempty]
  none key hnone := by rw [lookup_removeUserFromAllChannels, hnone, Option.bind_none]

/-- Quits and kills, of any nickname and in any state. -/
theorem quit_effect (m : ClusterStateMachine) (nickname : Str) (reason : Option Str) (text : Str) :
    QuitEffect m (m.apply (.userQuit nickname reason)) (lowercase nickname) ∧
      QuitEffect m (m.apply (.userKilled nickname text)) (lowercase nickname) := by
  have hquit := quitEffect_removeUserFromAllChannels
    { m with users := m.users.remove (lowercase nickname) } (lowercase nickname)
  have heffect : QuitEffect m (m.apply (.userQuit nickname reason)) (lowercase nickname) :=
    ⟨hquit.others, hquit.kept, hquit.last, hquit.none⟩
  exact ⟨heffect, heffect.others, heffect.kept, heffect.last, heffect.none⟩

/-- **A channel closed by somebody else's quit**: it was made by a topic, and nobody has joined it
yet. -/
theorem quit_closes_empty_channel :
    ¬ ∀ (commands : List ClusterCommand) (nickname key : Str) (ch : ReplicatedChannel),
      (commands.foldl apply ({} : ClusterStateMachine)).channels.lookup key = some ch →
      ch.members.contains (lowercase nickname) = false →
      ((commands.foldl apply ({} : ClusterStateMachine)).apply
        (.userQuit nickname none)).channels.lookup key = some ch := by
  intro h
  have hstays := h [.topicSet "#a".toList none] "bob".toList "#a".toList { name := "#a".toList } rfl rfl
  rw [apply, lookup_removeUserFromAllChannels] at hstays
  cases hstays

end ClusterStateMachine

end Pirc.Server
