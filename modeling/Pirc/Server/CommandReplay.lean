import Pirc.Server.CommitConsumer

/-!
# Server: committed commands applied twice

The leader of the cluster has applied a command to its registries when the command comes back
committed, so that the consumer must find nothing left to do. A command that is applied twice in a
row, at any two instants, leaves the registries as it leaves them when it is applied once.

## Main results

* `UserRegistry.removeByConnection_removeByConnection`: a connection that is gone
* `applyCommand_applyCommand`: **a command applied twice is a command applied once**
-/

namespace Pirc.Server

open Protocol

/-! ## Channels -/

namespace ChannelRegistry

variable {r : ChannelRegistry} {name : ChannelName} {nick : Nickname} {k : Str}

theorem modify_modify (r : ChannelRegistry) (name : ChannelName) (f g : Channel → Channel) :
    (r.modify name f).modify name g = r.modify name fun channel => g (f channel) :=
  congrArg ChannelRegistry.mk (FoldMap.modify_modify r.byName name f g)

theorem modify_of_fixed {f : Channel → Channel}
    (h : ∀ channel, r.get name = some channel → f channel = channel) : r.modify name f = r :=
  congrArg ChannelRegistry.mk (FoldMap.modify_of_fixed h)

theorem removeIfEmpty_of_nonempty
    (h : ∀ channel, r.get name = some channel → ¬ channel.members.isEmpty) :
    r.removeIfEmpty name = r := by
  unfold removeIfEmpty
  split
  · next channel hget => exact if_neg (h channel hget)
  · rfl

theorem getOrCreate_of_get {channel : Channel} (h : r.get name = some channel) :
    (r.getOrCreate name).2 = r := by
  unfold getOrCreate
  rw [show r.byName.get name = some channel from h]

/-- **Nothing is left to do for a user who leaves**: it is not on the channel, and somebody else
is. -/
structure LeftBehind (nick : Nickname) (channel : Channel) : Prop where
  gone : channel.members.get nick = none
  kept : ¬ channel.members.isEmpty

theorem LeftBehind.remove {channel : Channel} (h : LeftBehind nick channel) :
    { channel with members := channel.members.remove nick } = channel := by
  rw [FoldMap.remove_of_get_eq_none h.gone]

theorem lookup_foldl_removeIfEmpty (items : List (ChannelName × Channel)) :
    (items.foldl (fun r e => r.removeIfEmpty e.1) r).byName.lookup k =
      if ∃ e ∈ items, e.1.fold = k then
        (r.byName.lookup k).filter fun channel => !channel.members.isEmpty
      else r.byName.lookup k := by
  induction items generalizing r with
  | nil => simp
  | cons e items ih =>
    rw [List.foldl_cons, ih, lookup_removeIfEmpty]
    simp only [List.exists_mem_cons_iff]
    by_cases hk : e.1.fold = k
    · -- the pass removes the channel here, and a later one finds nothing to remove
      simp only [hk, true_or, if_true]
      split_ifs
      · rw [Option.filter_filter]
        congr 1
        funext channel
        exact Bool.and_self _
      · rfl
    · simp only [hk, if_false, false_or]

theorem leftBehind_removeFromAll {channel : Channel}
    (h : (r.removeFromAll nick).byName.lookup k = some channel) : LeftBehind nick channel where
  gone := by
    rw [Option.eq_none_iff_forall_ne_some]
    intro status hstatus
    have hmem : (k, nick.fold) ∈ (r.removeFromAll nick).membership := ⟨channel, h, status, hstatus⟩
    rw [membership_removeFromAll] at hmem
    exact hmem.2 rfl
  kept := by
    unfold removeFromAll at h
    dsimp only at h
    rw [lookup_foldl_removeIfEmpty] at h
    split_ifs at h with hitem
    · simpa using (Option.filter_eq_some_iff.mp h).2
    · -- the second loop goes over every channel
      obtain ⟨name, hname, hmem⟩ := FoldMap.lookup_eq_some.mp h
      exact absurd ⟨_, hmem, hname⟩ hitem

theorem foldl_fixed {items : List (ChannelName × Channel)}
    {step : ChannelRegistry → ChannelName × Channel → ChannelRegistry}
    (h : ∀ e ∈ items, step r e = r) : items.foldl step r = r := by
  induction items with
  | nil => rfl
  | cons e items ih =>
    rw [List.forall_mem_cons] at h
    rw [List.foldl_cons, h.1]
    exact ih h.2

theorem removeFromAll_of_leftBehind
    (h : ∀ k channel, r.byName.lookup k = some channel → LeftBehind nick channel) :
    r.removeFromAll nick = r := by
  have hremove : (r.listAll.foldl (fun channels e => channels.modify e.1 fun channel =>
      { channel with members := channel.members.remove nick }) r) = r := by
    apply foldl_fixed
    intro e _
    apply modify_of_fixed
    intro channel hget
    exact (h _ channel hget).remove
  unfold removeFromAll
  rw [hremove]
  apply foldl_fixed
  intro e _
  apply removeIfEmpty_of_nonempty
  intro channel hget
  exact (h _ channel hget).kept

/-- **The loops over all channels**, run twice. -/
theorem removeFromAll_removeFromAll (r : ChannelRegistry) (nick : Nickname) :
    (r.removeFromAll nick).removeFromAll nick = r.removeFromAll nick :=
  removeFromAll_of_leftBehind fun _ _ h => leftBehind_removeFromAll h

end ChannelRegistry

theorem ServerState.removeMember_removeMember (s : ServerState) (name : ChannelName)
    (nick : Nickname) : (s.removeMember name nick).removeMember name nick = s.removeMember name nick := by
  have hleft : ∀ channel, (s.removeMember name nick).channels.get name = some channel →
      ChannelRegistry.LeftBehind nick channel := by
    intro channel hget
    unfold ServerState.removeMember ChannelRegistry.get FoldMap.get at hget
    dsimp only at hget
    rw [ChannelRegistry.lookup_removeIfEmpty, if_pos rfl] at hget
    obtain ⟨hlookup, hkept⟩ := Option.filter_eq_some_iff.mp hget
    rw [ChannelRegistry.modify, FoldMap.lookup_modify, if_pos rfl] at hlookup
    obtain ⟨before, -, rfl⟩ := Option.map_eq_some_iff.mp hlookup
    refine ⟨?_, by simpa using hkept⟩
    rw [FoldMap.get_remove, if_pos rfl]
  generalize s.removeMember name nick = t at hleft ⊢
  have hmodify : (t.channels.modify name fun channel =>
      { channel with members := channel.members.remove nick }) = t.channels :=
    ChannelRegistry.modify_of_fixed fun channel hget => (hleft channel hget).remove
  unfold ServerState.removeMember
  dsimp only
  rw [hmodify, ChannelRegistry.removeIfEmpty_of_nonempty fun channel hget => (hleft channel hget).kept]

/-! ## Users -/

namespace UserRegistry

variable (r : UserRegistry) (c : ConnId)

theorem removeByConnection_of_get_eq_none {r : UserRegistry} {c : ConnId}
    (h : r.byConnection.get c = none) : (r.removeByConnection c).2 = r := by
  unfold removeByConnection
  rw [h]

theorem byConnection_removeByConnection : (r.removeByConnection c).2.byConnection.get c = none := by
  have hremove : (r.byConnection.remove c).get c = none := by
    rw [FoldMap.get_remove, if_pos rfl]
  unfold removeByConnection
  split
  · next hnone => exact hnone
  · dsimp only
    split
    · exact hremove
    · exact hremove

theorem removeByConnection_removeByConnection :
    ((r.removeByConnection c).2.removeByConnection c).2 = (r.removeByConnection c).2 :=
  removeByConnection_of_get_eq_none (r.byConnection_removeByConnection c)

theorem getByNick_removeByConnection {r : UserRegistry} {c : ConnId} {nick : Nickname}
    {session : UserSession} (h : (r.removeByConnection c).2.getByNick nick = some session) :
    r.getByNick nick = some session := by
  unfold removeByConnection at h
  split at h
  · exact h
  · dsimp only at h
    split at h
    · exact h
    · unfold getByNick at h
      dsimp only at h
      rw [FoldMap.get_remove] at h
      split_ifs at h
      exact h

end UserRegistry

/-! ## Commands -/

section Replay

variable {s : ServerState}

/-- Twice the same with a nickname, if it is one. -/
theorem withNick_withNick {nickname : Str} {f g : Nickname → ServerState}
    (h : ∀ nick, withNick s nickname f = f nick → g nick = f nick) :
    withNick (withNick s nickname f) nickname g = withNick s nickname f := by
  unfold withNick at h ⊢
  cases hnick : Nickname.new nickname with
  | error => rfl
  | ok nick => exact h nick (by rw [hnick])

theorem withChannel_withChannel {channel : Str} {f g : ChannelName → ServerState}
    (h : ∀ name, withChannel s channel f = f name → g name = f name) :
    withChannel (withChannel s channel f) channel g = withChannel s channel f := by
  unfold withChannel at h ⊢
  cases hname : ChannelName.new channel with
  | error => rfl
  | ok name => exact h name (by rw [hname])

theorem writeSession_writeSession (nick : Nickname) {f : UserSession → UserSession}
    (h : ∀ session, f (f session) = f session) :
    (s.writeSession nick f).writeSession nick f = s.writeSession nick f := by
  unfold ServerState.writeSession
  dsimp only
  rw [FoldMap.modify_modify, funext h]

theorem writeChannel_writeChannel (name : ChannelName) {f : Channel → Channel}
    (h : ∀ channel, f (f channel) = f channel) :
    (s.writeChannel name f).writeChannel name f = s.writeChannel name f := by
  unfold ServerState.writeChannel
  dsimp only
  rw [ChannelRegistry.modify_modify, funext h]

theorem union_sdiff_union_sdiff {α : Type*} [DecidableEq α] (modes added removed : Finset α) :
    ((modes ∪ added) \ removed ∪ added) \ removed = (modes ∪ added) \ removed := by
  ext mode
  simp only [Finset.mem_sdiff, Finset.mem_union]
  tauto

def statusChange (change : Str × Str) : Option (Nickname × MemberStatus) :=
  match Nickname.new change.1 with
  | .ok nick => some (nick, parseMemberStatus change.2)
  | .error _ => none

theorem setStatus_eq (channel : Channel) (change : Str × Str) :
    channel.setStatus change =
      { channel with members := channel.members.assign (statusChange change).toList } := by
  unfold Channel.setStatus statusChange
  cases Nickname.new change.1 with
  | ok nick =>
      dsimp only [Option.toList_some, FoldMap.assign, List.foldl_cons, List.foldl_nil]
      unfold FoldMap.modify
      split_ifs with hin
      · obtain ⟨status, hget⟩ := FoldMap.contains_iff.mp hin
        rw [hget]
      · rw [Bool.not_eq_true] at hin
        rw [FoldMap.contains_eq_false.mp hin]
    | error => rfl

theorem foldl_setStatus_eq (changes : List (Str × Str)) (channel : Channel) :
    changes.foldl Channel.setStatus channel =
      { channel with members := channel.members.assign (changes.filterMap statusChange) } := by
  induction changes generalizing channel with
  | nil => rfl
  | cons change changes ih =>
    rw [List.foldl_cons, ih, setStatus_eq]
    cases hchange : statusChange change with
    | some c =>
      rw [List.filterMap_cons_some hchange]
      rfl
    | none =>
      rw [List.filterMap_cons_none hchange]
      rfl

theorem applyUserRegistered_twice (now now' : ℕ) (connectionId : ConnId)
    (nickname username realname hostname : Str) (signonTime : ℕ) :
    applyUserRegistered (applyUserRegistered s now connectionId nickname username realname hostname
        signonTime) now' connectionId nickname username realname hostname signonTime =
      applyUserRegistered s now connectionId nickname username realname hostname signonTime := by
  unfold applyUserRegistered
  refine withNick_withNick fun nick hnick => ?_
  rw [hnick]
  by_cases hin : s.registry.nickInUse nick = true
  · rw [if_pos hin, if_pos hin]
  · -- the nickname is free at first, and then it is the user's
    rw [if_neg hin]
    rw [Bool.not_eq_true] at hin
    let session := remoteSession now connectionId nick username realname hostname signonTime
    have hfree : s.registry.nickInUse session.nickname = false := hin
    rw [UserRegistry.register_of_free hfree]
    exact if_pos (FoldMap.contains_iff.mpr ⟨_, FoldMap.get_insert_self ..⟩)

theorem applyNickChanged_twice (oldNick newNick : Str) :
    applyNickChanged (applyNickChanged s oldNick newNick) oldNick newNick =
      applyNickChanged s oldNick newNick := by
  unfold applyNickChanged
  refine withNick_withNick fun old hnick => ?_
  rw [hnick]
  refine withNick_withNick fun new hnick => ?_
  rw [hnick]
  cases hold : s.registry.getByNick old with
  | none =>
    dsimp only
    rw [hold]
  | some session =>
    dsimp only
    cases hchange : s.registry.changeNick old new with
    | error =>
      dsimp only
      rw [hold]
      dsimp only
      rw [hchange]
    | ok registry =>
      dsimp only
      obtain ⟨hfold, rfl⟩ | ⟨hfold, -, -, -, rfl⟩ := UserRegistry.changeNick_eq_ok hchange
      · -- only the casing changes, to the same casing again
        unfold UserRegistry.changeNick
        rw [if_pos hfold]
        dsimp only
        rw [FoldMap.modify_modify]
        split
        · rfl
        · rfl
      · -- nobody has the old nickname any more
        unfold UserRegistry.getByNick
        dsimp only
        rw [FoldMap.get_insert, if_neg (Ne.symm hfold), FoldMap.get_remove, if_pos rfl]

theorem applyUserQuit_twice (nickname : Str) :
    applyUserQuit (applyUserQuit s nickname) nickname = applyUserQuit s nickname := by
  unfold applyUserQuit
  refine withNick_withNick fun nick hnick => ?_
  rw [hnick]
  cases hget : s.registry.getByNick nick with
  | none =>
    dsimp only
    rw [hget]
  | some session =>
    dsimp only
    cases hagain : (s.registry.removeByConnection session.connectionId).2.getByNick nick with
    | none => rfl
    | some session' =>
      -- the connection led to another user: this one is still there, and its connection is gone
      obtain rfl : session = session' :=
        Option.some_inj.mp (hget.symm.trans (UserRegistry.getByNick_removeByConnection hagain))
      dsimp only
      rw [ChannelRegistry.removeFromAll_removeFromAll,
        UserRegistry.removeByConnection_removeByConnection]

theorem applyUserMigrated_twice (nickname : Str) :
    applyUserMigrated (applyUserMigrated s nickname) nickname = applyUserMigrated s nickname := by
  unfold applyUserMigrated
  refine withNick_withNick fun nick hnick => ?_
  rw [hnick]
  cases hget : s.registry.getByNick nick with
  | none =>
    dsimp only
    rw [hget]
  | some session =>
    dsimp only
    cases hagain : (s.registry.removeByConnection session.connectionId).2.getByNick nick with
    | none => rfl
    | some session' =>
      obtain rfl : session = session' :=
        Option.some_inj.mp (hget.symm.trans (UserRegistry.getByNick_removeByConnection hagain))
      dsimp only
      rw [UserRegistry.removeByConnection_removeByConnection]

theorem applyChannelJoined_twice (nickname channel status : Str) :
    applyChannelJoined (applyChannelJoined s nickname channel status) nickname channel status =
      applyChannelJoined s nickname channel status := by
  unfold applyChannelJoined
  refine withNick_withNick fun nick hnick => ?_
  rw [hnick]
  refine withChannel_withChannel fun name hname => ?_
  rw [hname]
  dsimp only
  -- the channel is there from the first time on
  have hget : ∀ f, ((s.channels.getOrCreate name).2.modify name f).get name =
      some (f (s.channels.getOrCreate name).1) := by
    intro f
    unfold ChannelRegistry.get ChannelRegistry.modify FoldMap.get
    rw [FoldMap.lookup_modify, if_pos rfl, ChannelRegistry.lookup_getOrCreate, if_pos rfl]
    rfl
  rw [ChannelRegistry.getOrCreate_of_get (hget _), ChannelRegistry.modify_modify]
  congr 2
  funext ch
  split_ifs with hin hagain
  · rfl
  · rfl
  · exact absurd (FoldMap.contains_iff.mpr ⟨_, FoldMap.get_insert_self ..⟩) hagain

theorem applyChannelParted_twice (nickname channel : Str) :
    applyChannelParted (applyChannelParted s nickname channel) nickname channel =
      applyChannelParted s nickname channel := by
  unfold applyChannelParted
  refine withNick_withNick fun nick hnick => ?_
  rw [hnick]
  refine withChannel_withChannel fun name hname => ?_
  rw [hname]
  cases hget : s.channels.get name with
  | none =>
    dsimp only
    rw [hget]
  | some ch =>
    dsimp only
    rw [ServerState.removeMember_removeMember]
    split
    · rfl
    · rfl

theorem writeSession_twice (nickname : Str) {f : UserSession → UserSession}
    (h : ∀ session, f (f session) = f session) :
    withNick (withNick s nickname fun nick => s.writeSession nick f) nickname (fun nick =>
        (withNick s nickname fun nick => s.writeSession nick f).writeSession nick f) =
      withNick s nickname fun nick => s.writeSession nick f := by
  refine withNick_withNick fun nick hnick => ?_
  rw [hnick]
  exact writeSession_writeSession nick h

theorem writeChannel_twice (channel : Str) {f : Channel → Channel} (h : ∀ ch, f (f ch) = f ch) :
    withChannel (withChannel s channel fun name => s.writeChannel name f) channel (fun name =>
        (withChannel s channel fun name => s.writeChannel name f).writeChannel name f) =
      withChannel s channel fun name => s.writeChannel name f := by
  refine withChannel_withChannel fun name hname => ?_
  rw [hname]
  exact writeChannel_writeChannel name h

theorem applyChannelModeChanged_twice (channel : Str) (modesAdded modesRemoved : List Str)
    (key : Option Str) (userLimit : Option ℕ) (changes : List (Str × Str)) :
    applyChannelModeChanged
        (applyChannelModeChanged s channel modesAdded modesRemoved key userLimit changes)
        channel modesAdded modesRemoved key userLimit changes =
      applyChannelModeChanged s channel modesAdded modesRemoved key userLimit changes := by
  apply writeChannel_twice
  intro ch
  simp only [foldl_setStatus_eq, FoldMap.assign_assign, union_sdiff_union_sdiff]
  -- a key or limit that the command has is set, to the same value again
  congr 1
  · cases key with
    | some k => rfl
    | none => rfl
  · cases userLimit with
    | some limit => rfl
    | none => rfl

theorem applyBanAdded_twice (channel mask whoSet : Str) (timestamp : ℕ) :
    applyBanAdded (applyBanAdded s channel mask whoSet timestamp) channel mask whoSet timestamp =
      applyBanAdded s channel mask whoSet timestamp := by
  apply writeChannel_twice
  intro ch
  split_ifs with hin hagain
  · rfl
  · rfl
  · simp at hagain

theorem applyInviteAdded_twice (channel nickname : Str) :
    applyInviteAdded (applyInviteAdded s channel nickname) channel nickname =
      applyInviteAdded s channel nickname := by
  unfold applyInviteAdded
  refine withNick_withNick fun nick hnick => ?_
  rw [hnick]
  apply writeChannel_twice
  intro ch
  rw [FoldMap.insert_of_get (FoldMap.get_insert_self ..)]

/-- **A command applied twice is a command applied once**, whatever the registries hold and whenever
it is applied. -/
theorem applyCommand_applyCommand (now now' : ℕ) (s : ServerState) (command : ClusterCommand) :
    applyCommand now' (applyCommand now s command) command = applyCommand now s command := by
  cases command with
  | userRegistered => exact applyUserRegistered_twice ..
  | nickChanged => exact applyNickChanged_twice ..
  | userQuit => exact applyUserQuit_twice _
  | userKilled => exact applyUserQuit_twice _
  | userAway => exact writeSession_twice _ fun _ => rfl
  | userModeChanged =>
    apply writeSession_twice
    intro session
    simp only [union_sdiff_union_sdiff]
  | channelJoined => exact applyChannelJoined_twice ..
  | channelParted => exact applyChannelParted_twice ..
  | userKicked => exact applyChannelParted_twice ..
  | topicSet => exact writeChannel_twice _ fun _ => rfl
  | channelModeChanged => exact applyChannelModeChanged_twice ..
  | banAdded => exact applyBanAdded_twice ..
  | banRemoved =>
    apply writeChannel_twice
    intro ch
    simp only [List.filter_filter, Bool.and_self]
  | inviteAdded => exact applyInviteAdded_twice ..
  | operGranted =>
    apply writeSession_twice
    intro session
    simp only [Finset.insert_eq_of_mem (Finset.mem_insert_self ..)]
  | userMigrated => exact applyUserMigrated_twice _
  | serverAdded => rfl
  | serverRemoved => rfl
  | noop => rfl

end Replay

end Pirc.Server
