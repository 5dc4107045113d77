import Pirc.Server.SecretChannels

/-!
# Server: who may join

`JOIN` takes a list of channels and a list of keys (`handler_channel/join_part.rs`). Each item of
the list is refused or makes the user a member, and what becomes of one item does not spoil the
others.

## Main results

* `joinRefusal_eq_none`: a channel does not refuse whom it admits
* `joinedSoFar_foldl`: the list, by induction on its items
* `handleJoin_admitted`: a whole `JOIN`
-/

namespace Pirc.Server

open Protocol

/-! ## Admission -/

/-- **The channel takes the user in**: no ban, an invitation where one is needed, the key, and
room. -/
structure Admits (channel : Channel) (session : UserSession) (key : Option Str) : Prop where
  unbanned : isBanned channel.banList
    (session.nickname.name ++ '!' :: session.username ++ '@' :: session.hostname) = false
  invited : .inviteOnly ∈ channel.modes → channel.inviteList.contains session.nickname = true
  key : ∀ chanKey ∈ channel.key, key = some chanKey
  room : ∀ limit ∈ channel.userLimit, channel.members.length < limit

theorem joinRefusal_eq_none {channel : Channel} {session : UserSession} {key : Option Str} :
    joinRefusal channel session key = none ↔ Admits channel session key := by
  unfold joinRefusal
  dsimp only
  split_ifs with hban hinvite hkey hlimit
  · refine iff_of_false not_false fun h => ?_
    rw [h.unbanned] at hban
    cases hban
  · exact iff_of_false not_false fun h => hinvite.2 (h.invited hinvite.1)
  · refine iff_of_false not_false fun h => ?_
    obtain ⟨chanKey, hmem, hne⟩ := (Option.any_eq_true ..).mp hkey
    exact of_decide_eq_true hne (h.key chanKey hmem)
  · refine iff_of_false not_false fun h => ?_
    obtain ⟨limit, hmem, hle⟩ := (Option.any_eq_true ..).mp hlimit
    exact absurd (h.room limit hmem) (not_lt.mpr (of_decide_eq_true hle))
  · refine iff_of_true rfl ⟨Bool.not_eq_true _ ▸ hban, fun hmode => ?_, ?_, ?_⟩
    · by_contra hnot
      exact hinvite ⟨hmode, hnot⟩
    · intro chanKey hmem
      by_contra hne
      exact hkey ((Option.any_eq_true ..).mpr ⟨chanKey, hmem, decide_eq_true hne⟩)
    · intro limit hmem
      by_contra hle
      exact hlimit ((Option.any_eq_true ..).mpr ⟨limit, hmem, decide_eq_true (not_lt.mp hle)⟩)

/-- **The user became a member** of a channel, or of a new one: it was none before, and the channel
had no members or took the user in. -/
def Entered (session : UserSession) (key : Option Str) (before : Option Channel) (after : Channel) : Prop :=
  ∃ channel, (before = some channel ∨ before = none ∧ ∃ name, channel = { name := name }) ∧
    channel.members.contains session.nickname = false ∧
    (channel.members.isEmpty = false → Admits channel session key) ∧
    after = channel.join session.nickname

section Entered

variable {session : UserSession} {key : Option Str} {before : Option Channel} {after : Channel}

theorem Entered.contains (h : Entered session key before after) :
    after.members.contains session.nickname = true := by
  obtain ⟨channel, -, -, -, rfl⟩ := h
  exact FoldMap.contains_iff.mpr ⟨_, FoldMap.get_insert_self ..⟩

theorem Entered.not_contains (h : Entered session key before after) {channel : Channel}
    (hbefore : before = some channel) : channel.members.contains session.nickname = false := by
  obtain ⟨channel', hfound, hnot, -⟩ := h
  rcases hfound with hfound | ⟨hnone, -⟩
  · rw [hbefore] at hfound
    cases hfound
    exact hnot
  · rw [hbefore] at hnone
    cases hnone

theorem Entered.admits (h : Entered session key before after) {channel : Channel}
    (hbefore : before = some channel) (hmembers : channel.members.isEmpty = false) :
    Admits channel session key := by
  obtain ⟨channel', hfound, -, hadmits, -⟩ := h
  rcases hfound with hfound | ⟨hnone, -⟩
  · rw [hbefore] at hfound
    cases hfound
    exact hadmits hmembers
  · rw [hbefore] at hnone
    cases hnone

theorem Entered.others (h : Entered session key before after) {other : Str}
    (hother : other ≠ session.nickname.fold) :
    after.members.lookup other = before.bind fun channel => channel.members.lookup other := by
  obtain ⟨channel, hfound, -, -, rfl⟩ := h
  have hinsert : (channel.join session.nickname).members.lookup other = channel.members.lookup other := by
    unfold Channel.join
    rw [FoldMap.lookup_insert, if_neg (Ne.symm hother)]
  rw [hinsert]
  rcases hfound with rfl | ⟨rfl, name, rfl⟩
  · rfl
  · rfl

end Entered

/-! ## One item of the list -/

section Item

variable {session : UserSession}

theorem channelsForNick_of_lookup {r r' : ChannelRegistry} {name : ChannelName} {after : Channel}
    {nick : Nickname}
    (h : ∀ k, r'.byName.lookup k = if name.fold = k then some after else r.byName.lookup k)
    (hafter : after.members.contains nick = true)
    (hbefore : ∀ channel, r.byName.get name = some channel → channel.members.contains nick = false) :
    r'.channelsForNick nick = r.channelsForNick nick + 1 := by
  have hcount : ∀ r : ChannelRegistry, r.channelsForNick nick =
      r.byName.values.countP fun channel => channel.members.contains nick := by
    intro r
    rw [ChannelRegistry.channelsForNick, ChannelRegistry.listAll, FoldMap.values, List.countP_map]
    rfl
  have hvalues : r'.byName.values.Perm (after :: (r.byName.remove name).values) := by
    refine (FoldMap.values_perm_of_lookup_eq fun k => ?_).trans r.byName.values_insert_perm
    rw [h, FoldMap.lookup_insert]
  have hpos := List.countP_cons_of_pos (p := fun channel => channel.members.contains nick)
    (l := (r.byName.remove name).values) hafter
  rw [hcount, hcount, hvalues.countP_eq, hpos]
  congr 1
  cases hget : r.byName.get name with
  | none => rw [FoldMap.remove_of_get_eq_none hget]
  | some channel =>
    have hneg := List.countP_cons_of_neg (p := fun channel => channel.members.contains nick)
      (l := (r.byName.remove name).values) (a := channel) (by simp [hbefore channel hget])
    rw [(FoldMap.values_perm_of_get hget).countP_eq, hneg]

theorem get_or_new (r : ChannelRegistry) (name : ChannelName) :
    r.byName.get name = some (r.getOrCreate name).1 ∨
      r.byName.get name = none ∧ ∃ name', (r.getOrCreate name).1 = { name := name' } := by
  unfold ChannelRegistry.getOrCreate
  cases r.byName.get name with
  | some channel => exact .inl rfl
  | none => exact .inr ⟨rfl, name, rfl⟩

/-- **One item** of the list changes no channel, or the user enters the channel it names and is on
one more. -/
theorem joinChannel_cases (session : UserSession) (c : ConnId) (keys : List Str) (maxChannels : ℕ)
    (s : ServerState) (count : ℕ) (item : Str × ℕ) :
    (joinChannel c session keys maxChannels (s, count) item).1.registry = s.registry ∧
      (((joinChannel c session keys maxChannels (s, count) item).1.channels = s.channels ∧
          (joinChannel c session keys maxChannels (s, count) item).2 = count) ∨
        (joinChannel c session keys maxChannels (s, count) item).2 = count + 1 ∧
          count < maxChannels ∧ ∃ name after, ChannelName.new (trim item.1) = .ok name ∧
            Entered session keys[item.2]? (s.channels.byName.get name) after ∧
            ∀ k, (joinChannel c session keys maxChannels (s, count) item).1.channels.byName.lookup
              k = if name.fold = k then some after else s.channels.byName.lookup k) := by
  unfold joinChannel
  dsimp only
  split_ifs with hempty hcount
  · exact ⟨rfl, .inl ⟨rfl, rfl⟩⟩
  · exact ⟨rfl, .inl ⟨rfl, rfl⟩⟩
  cases hname : ChannelName.new (trim item.1) with
  | error e => exact ⟨rfl, .inl ⟨rfl, rfl⟩⟩
  | ok name =>
    dsimp only
    by_cases hmember : (s.channels.getOrCreate name).1.members.contains session.nickname
    · -- the user is on the channel already
      rw [if_pos hmember, getOrCreate_of_not_isEmpty (not_isEmpty_of_contains hmember)]
      exact ⟨rfl, .inl ⟨rfl, rfl⟩⟩
    rw [if_neg hmember]
    split
    · next hrefusal =>
      -- only a channel with members refuses
      split_ifs at hrefusal with hnew
      rw [getOrCreate_of_not_isEmpty hnew]
      exact ⟨rfl, .inl ⟨rfl, rfl⟩⟩
    · next hrefusal =>
      have hadmits : (s.channels.getOrCreate name).1.members.isEmpty = false →
          Admits (s.channels.getOrCreate name).1 session keys[item.2]? := by
        intro hmembers
        rw [hmembers] at hrefusal
        exact joinRefusal_eq_none.mp hrefusal
      refine ⟨rfl, .inr ⟨rfl, not_le.mp hcount, name, _, rfl,
        ⟨_, get_or_new s.channels name, Bool.not_eq_true _ ▸ hmember, hadmits, rfl⟩, fun k => ?_⟩⟩
      calc ((s.channels.getOrCreate name).2.modify name fun _ =>
              (s.channels.getOrCreate name).1.join session.nickname).byName.lookup k
          _ = _ := by
            rw [ChannelRegistry.modify, FoldMap.lookup_modify, ChannelRegistry.lookup_getOrCreate]
            split_ifs
            · rfl
            · rfl

theorem Entered.elim_contains {before : Option Channel} {key key' : Option Str} {after after' : Channel}
    (h : Entered session key before after) (h' : Entered session key' (some after) after') : False := by
  have hnot := h'.not_contains rfl
  rw [h.contains] at hnot
  cases hnot

end Item

/-! ## The whole list -/

/-- **What the items so far did**: each channel is as it was, or the user entered it for one of the
items. -/
structure JoinedSoFar (session : UserSession) (keys : List Str) (maxChannels : ℕ)
    (items : List (Str × ℕ)) (s : ServerState) (acc : ServerState × ℕ) : Prop where
  registry : acc.1.registry = s.registry
  count : acc.2 = acc.1.channels.channelsForNick session.nickname
  limit : acc.2 ≤ max maxChannels (s.channels.channelsForNick session.nickname)
  channel : ∀ k, acc.1.channels.byName.lookup k = s.channels.byName.lookup k ∨
    ∃ item ∈ items, ∃ name after, ChannelName.new (trim item.1) = .ok name ∧ name.fold = k ∧
      Entered session keys[item.2]? (s.channels.byName.lookup k) after ∧
      acc.1.channels.byName.lookup k = some after

section Run

variable {session : UserSession} {c : ConnId} {keys : List Str} {maxChannels : ℕ} {s : ServerState}
  {items : List (Str × ℕ)} {acc : ServerState × ℕ}

theorem JoinedSoFar.start :
    JoinedSoFar session keys maxChannels items s (s, s.channels.channelsForNick session.nickname) where
  registry := rfl
  count := rfl
  limit := le_max_right ..
  channel _ := .inl rfl

theorem JoinedSoFar.joinChannel {item : Str × ℕ} (hitem : item ∈ items)
    (h : JoinedSoFar session keys maxChannels items s acc) :
    JoinedSoFar session keys maxChannels items s (joinChannel c session keys maxChannels acc item) := by
  obtain ⟨t, count⟩ := acc
  obtain ⟨hregistry, ⟨hchannels, hsame⟩ | ⟨hnext, hroom, name, after, hname, hentered, hlookup⟩⟩ :=
    joinChannel_cases session c keys maxChannels t count item
  · exact {
      registry := hregistry.trans h.registry
      count := by rw [hsame, hchannels]; exact h.count
      limit := by rw [hsame]; exact h.limit
      channel := by rw [hchannels]; exact h.channel }
  · refine ⟨hregistry.trans h.registry, ?_, ?_, fun k => ?_⟩
    · have hmore := channelsForNick_of_lookup hlookup hentered.contains fun _ => hentered.not_contains
      rw [hnext, hmore, ← h.count]
    · rw [hnext]
      exact le_max_of_le_left hroom
    · rw [hlookup]
      split_ifs with hk
      · -- the channel was not joined for an earlier item, since the user was not on it
        subst hk
        rcases h.channel name.fold with hfound | ⟨_, -, _, earlier, -, -, hearlier, hfound⟩
        · rw [FoldMap.get, hfound] at hentered
          exact .inr ⟨item, hitem, name, after, hname, rfl, hentered, rfl⟩
        · rw [FoldMap.get, hfound] at hentered
          exact (hearlier.elim_contains hentered).elim
      · exact h.channel k

theorem joinedSoFar_foldl :
    JoinedSoFar session keys maxChannels items s
      (items.foldl (Server.joinChannel c session keys maxChannels)
        (s, s.channels.channelsForNick session.nickname)) :=
  List.foldlRecOn items _ .start fun _ h _ hitem => h.joinChannel hitem

end Run

/-! ## The command -/

def joinNames (msg : Message) : List Str := (msg.params.head?.map fun names => names.splitOn ',').getD []

def joinKeys (msg : Message) : List Str := (msg.params.tail.head?.map fun keys => keys.splitOn ',').getD []

/-- **What a `JOIN` may change.** -/
structure JoinsAdmitted (s t : ServerState) (session : UserSession) (names keys : List Str)
    (maxChannels : ℕ) : Prop where
  /-- A channel the user is newly on is one of the list. It had no members, or it took the user in
  with the key at the same position. -/
  admitted : ∀ k after, t.channels.byName.lookup k = some after →
    after.members.contains session.nickname = true →
    (∀ before, s.channels.byName.lookup k = some before →
      before.members.contains session.nickname = false) →
    ∃ (i : ℕ) (item : Str) (name : ChannelName),
      names[i]? = some item ∧ ChannelName.new (trim item) = .ok name ∧ name.fold = k ∧
      ∀ before, s.channels.byName.lookup k = some before →
        before.members.isEmpty = true ∨ Admits before session keys[i]?
  limit : t.channels.channelsForNick session.nickname ≤
    max maxChannels (s.channels.channelsForNick session.nickname)
  /-- Nobody else joins or leaves, nor changes rank. -/
  others : ∀ k other, other ≠ session.nickname.fold →
    ((t.channels.byName.lookup k).bind fun channel => channel.members.lookup other) =
      (s.channels.byName.lookup k).bind fun channel => channel.members.lookup other
  /-- The user leaves no channel. -/
  stays : ∀ k before, s.channels.byName.lookup k = some before →
    before.members.contains session.nickname = true → t.channels.byName.lookup k = some before
  /-- No channel is left behind that nobody is on. -/
  noneEmpty : ∀ k after, t.channels.byName.lookup k = some after → after.members.isEmpty = true →
    s.channels.byName.lookup k = some after

section Command

variable {session : UserSession} {keys names : List Str} {maxChannels : ℕ} {s : ServerState}
  {acc : ServerState × ℕ}

theorem JoinedSoFar.joinsAdmitted (h : JoinedSoFar session keys maxChannels names.zipIdx s acc) :
    JoinsAdmitted s acc.1 session names keys maxChannels where
  admitted k after hafter hon hnew := by
    rcases h.channel k with hfound | ⟨⟨item, i⟩, hitem, name, entered, hname, hk, hentered, hfound⟩
    · have hnot := hnew after (hfound ▸ hafter)
      rw [hon] at hnot
      cases hnot
    · refine ⟨i, item, name, List.mem_zipIdx_iff_getElem?.mp hitem, hname, hk, fun before hbefore => ?_⟩
      by_cases hmembers : before.members.isEmpty = true
      · exact .inl hmembers
      · exact .inr (hentered.admits hbefore (Bool.not_eq_true _ ▸ hmembers))
  limit := h.count ▸ h.limit
  others k other hother := by
    rcases h.channel k with hfound | ⟨_, -, _, _, -, -, hentered, hfound⟩
    · rw [hfound]
    · rw [hfound, Option.bind_some, hentered.others hother]
  stays k before hbefore hon := by
    rcases h.channel k with hfound | ⟨_, -, _, _, -, -, hentered, hfound⟩
    · exact hfound.trans hbefore
    · have hnot := hentered.not_contains hbefore
      rw [hon] at hnot
      cases hnot
  noneEmpty k after hafter hmembers := by
    rcases h.channel k with hfound | ⟨_, -, _, _, -, -, hentered, hfound⟩
    · exact hfound ▸ hafter
    · -- whoever entered is a member
      rw [hfound] at hafter
      cases hafter
      exact absurd hmembers (not_isEmpty_of_contains hentered.contains)

theorem handleJoin_of_session {msg : Message} {c : ConnId} {names : Str} {rest : List Str}
    (hsession : s.registry.getByConnection c = some session) (hparams : msg.params = names :: rest) :
    handleJoin s msg c maxChannels =
      ((joinNames msg).zipIdx.foldl (joinChannel c session (joinKeys msg) maxChannels)
        (s, s.channels.channelsForNick session.nickname)).1 := by
  unfold handleJoin joinNames joinKeys
  rw [hsession, hparams]
  rfl

/-- A `JOIN` puts its user on channels that admit them, on no more than there may be, and does
nothing else to any channel's members. -/
theorem handleJoin_admitted {c : ConnId} (hsession : s.registry.getByConnection c = some session)
    (msg : Message) (maxChannels : ℕ) :
    JoinsAdmitted s (handleJoin s msg c maxChannels) session (joinNames msg)
      (joinKeys msg) maxChannels := by
  cases hparams : msg.params with
  | nil =>
    -- without a list there is only the reply
    have hnothing : handleJoin s msg c maxChannels =
        s.send c (needMoreParams session.nickname.name "JOIN") := by
      unfold handleJoin
      rw [hsession, hparams]
    have hstart : JoinedSoFar session (joinKeys msg) maxChannels (joinNames msg).zipIdx s _ := .start
    rw [hnothing]
    exact { hstart.joinsAdmitted with }
  | cons names rest =>
    rw [handleJoin_of_session hsession hparams]
    exact joinedSoFar_foldl.joinsAdmitted

def withKey : ServerState where
  registry := withoutSecret.registry
  channels := { byName := FoldMap.insert ∅ bobsSecret.name { bobsSecret with key := some "k".toList } }

/-- Alice names the channel twice, the second time with its key. -/
theorem handleJoin_admitted_withKey :
    JoinsAdmitted withKey
        (handleJoin withKey { command := .join, params := ["#s,#s".toList, "x,k".toList] } 1 10)
        aliceOnline ["#s".toList, "#s".toList] ["x".toList, "k".toList] 10 ∧
      (handleJoin withKey { command := .join, params := ["#s,#s".toList, "x,k".toList] } 1
        10).channels.channelsForNick alice = 1 := by
  have hsession : withKey.registry.getByConnection 1 = some aliceOnline := rfl
  refine ⟨handleJoin_admitted hsession
    { command := .join, params := ["#s,#s".toList, "x,k".toList] } 10, ?_⟩
  decide

end Command

end Pirc.Server
