import Pirc.Lib.Roster
import Pirc.Server.Connection

/-!
# Server: who is on a channel

A channel keeps its members by nickname, apart from the registry of users. Members are users: the
channels refine the rooms of a roster, whose people are the registered nicknames.
-/

namespace Pirc.Server

open Protocol

/-! ## The roster of a server -/

def Channel.occupants (channel : Channel) : Set Str :=
  {i | ∃ status, channel.members.lookup i = some status}

/-- **The roster of a server**: registered nicknames are present, and channels are rooms. -/
def roster (s : ServerState) : Roster Str Str where
  present := {i | ∃ session, s.registry.byNick.lookup i = some session}
  rooms k := (s.channels.byName.lookup k).map Channel.occupants

section Occupants

variable (channel : Channel) (nick : Nickname)

@[simp] theorem occupants_join :
    (channel.join nick).occupants = insert nick.fold channel.occupants := by
  ext i
  simp only [Channel.occupants, Channel.join, FoldMap.lookup_insert, Set.mem_ofPred_eq,
    Set.mem_insert_iff]
  by_cases hi : nick.fold = i
  · simp [hi]
  · simp [hi, Ne.symm hi]

@[simp] theorem occupants_remove :
    { channel with members := channel.members.remove nick }.occupants =
      channel.occupants \ {nick.fold} := by
  ext i
  simp only [Channel.occupants, FoldMap.lookup_remove, Set.mem_ofPred_eq, Set.mem_sdiff,
    Set.mem_singleton_iff]
  split_ifs with hi
  · simp [hi]
  · simp [Ne.symm hi]

theorem occupants_eq_empty : channel.occupants = ∅ ↔ channel.members.isEmpty := by
  rw [FoldMap.isEmpty_iff, Set.eq_empty_iff_forall_notMem]
  apply forall_congr'
  intro i
  simp [Channel.occupants, Option.eq_none_iff_forall_ne_some]

end Occupants

section Writes

variable {s t : ServerState} {name : ChannelName} {nick : Nickname} {c : ConnId}

theorem roster_congr (hr : t.registry = s.registry) (hc : t.channels = s.channels) :
    roster t = roster s := by
  unfold roster
  rw [hr, hc]

@[simp] theorem roster_reply (s : ServerState) (c : ConnId) (msgs : List Message) :
    roster (s.reply c msgs) = roster s := rfl

@[simp] theorem roster_broadcastToChannel (s : ServerState) (channel : Channel) (msg : Message)
    (exclude : Option Nickname) : roster (s.broadcastToChannel channel msg exclude) = roster s := rfl

theorem roster_join (s : ServerState) (name : ChannelName) (nick : Nickname) :
    roster { s with
      channels := (s.channels.getOrCreate name).2.modify name fun _ =>
        (s.channels.getOrCreate name).1.join nick } =
      (roster s).enter nick.fold name.fold := by
  ext1
  · rfl
  · funext k
    simp only [roster, Roster.enter, ChannelRegistry.modify, FoldMap.lookup_modify,
      ChannelRegistry.lookup_getOrCreate]
    split_ifs with hk
    · simp only [Option.map_some, occupants_join]
      -- a channel that is new has nobody on it
      congr 2
      unfold ChannelRegistry.getOrCreate FoldMap.get
      cases h : s.channels.byName.lookup name.fold with
      | some channel => rfl
      | none => exact (occupants_eq_empty _).mpr rfl
    · rfl

theorem roster_removeMember (s : ServerState) (name : ChannelName) (nick : Nickname) :
    roster (s.removeMember name nick) = (roster s).leave nick.fold name.fold := by
  ext1
  · rfl
  · funext k
    simp only [roster, Roster.leave, ServerState.removeMember, ChannelRegistry.modify,
      ChannelRegistry.lookup_removeIfEmpty, FoldMap.lookup_modify]
    split_ifs with hk
    · rw [hk]
      cases s.channels.byName.lookup k with
      | none => rfl
      | some channel =>
        have hroom := occupants_eq_empty { channel with members := channel.members.remove nick }
        rw [occupants_remove] at hroom
        by_cases hempty : (channel.members.remove nick).isEmpty
        · simp [Option.filter, hempty, Roster.room, hroom.mpr hempty]
        · have hopen : channel.occupants \ {nick.fold} ≠ ∅ := mt hroom.mp hempty
          simp [Option.filter, hempty, Roster.room, hopen]
    · rfl

theorem roster_write {channel channel' : Channel} (h : s.channels.get name = some channel)
    (hr : t.registry = s.registry) (hc : t.channels = s.channels.modify name fun _ => channel')
    (hocc : channel'.occupants = channel.occupants) : roster t = roster s := by
  ext1
  · unfold roster
    rw [hr]
  · funext k
    unfold roster
    rw [hc]
    dsimp only [ChannelRegistry.modify]
    rw [FoldMap.lookup_modify]
    split_ifs with hk
    · rw [← hk]
      rw [ChannelRegistry.get, FoldMap.get] at h
      simp [h, hocc]
    · rfl

theorem roster_modifySession {f : UserSession → UserSession}
    (hr : t.registry = s.registry.modifySession c f) (hc : t.channels = s.channels) :
    roster t = roster s := by
  ext1
  · ext i
    unfold roster
    rw [hr]
    dsimp only [UserRegistry.modifySession, Set.mem_ofPred_eq]
    split
    · rfl
    · next nick _ =>
      rw [FoldMap.lookup_modify]
      split_ifs with hi
      · simp [Option.map_eq_some_iff]
      · rfl
  · unfold roster
    rw [hc]

theorem roster_register {registry : UserRegistry} {session : UserSession}
    (h : s.registry.register session = .ok registry) :
    roster { s with registry := registry } = (roster s).arrive session.nickname.fold := by
  obtain ⟨-, rfl⟩ := UserRegistry.register_eq_ok h
  ext1
  · ext i
    simp only [roster, Roster.arrive, FoldMap.lookup_insert, Set.mem_ofPred_eq, Set.mem_insert_iff]
    split_ifs with hi
    · simp [hi]
    · simp [Ne.symm hi]
  · rfl

theorem roster_changeNick {registry : UserRegistry} {old new : Nickname}
    (h : s.registry.changeNick old new = .ok registry) :
    roster { s with registry := registry } =
      if old.fold = new.fold then roster s else ((roster s).arrive new.fold).depart old.fold := by
  obtain ⟨hfold, rfl⟩ | ⟨hfold, hfree, session, hold, rfl⟩ := UserRegistry.changeNick_eq_ok h
  · rw [if_pos hfold]
    ext1
    · ext i
      simp only [roster, FoldMap.lookup_modify, Set.mem_ofPred_eq]
      split_ifs with hi
      · simp [Option.map_eq_some_iff]
      · rfl
    · rfl
  · rw [if_neg hfold]
    ext1
    · ext i
      simp only [roster, Roster.arrive, Roster.depart, FoldMap.lookup_insert, FoldMap.lookup_remove,
        Set.mem_ofPred_eq, Set.mem_sdiff, Set.mem_insert_iff, Set.mem_singleton_iff]
      split_ifs with hnew hne
      · simp [← hnew, Ne.symm hfold]
      · simp [hne]
      · simp [Ne.symm hnew, Ne.symm hne]
    · rfl

theorem roster_removeByConnection (hs : s.registry.Consistent) (c : ConnId) :
    roster { s with registry := (s.registry.removeByConnection c).2 } =
      match s.registry.getByConnection c with
      | some session => (roster s).depart session.nickname.fold
      | none => roster s := by
  obtain ⟨hnone, heq⟩ | ⟨session, hsession, heq⟩ := hs.removeByConnection_eq (c := c)
  · rw [hnone, heq]
  · rw [hsession, heq]
    ext1
    · ext i
      simp only [roster, Roster.depart, FoldMap.lookup_remove, Set.mem_ofPred_eq, Set.mem_sdiff,
        Set.mem_singleton_iff]
      split_ifs with hi
      · simp [hi]
      · simp [Ne.symm hi]
    · rfl

end Writes

/-! ## What handlers do to the roster -/

/-- The registry stays consistent, and no connection gets a user. -/
structure Keeps (s t : ServerState) : Prop where
  consistent : t.registry.Consistent
  connections (c : ConnId) (h : s.registry.byConnection.lookup c = none) :
    t.registry.byConnection.lookup c = none

/-- **No connection takes a nickname**: whoever has one had it before. -/
def KeepsNicknames (s t : ServerState) : Prop :=
  ∀ c session', t.registry.getByConnection c = some session' →
    ∃ session, s.registry.getByConnection c = some session ∧ session.nickname = session'.nickname

/-- **A handler follows the roster**: it keeps the registry and who has which nickname, and it makes
moves of the roster. -/
structure Follows (s t : ServerState) : Prop extends Keeps s t where
  moves : Roster.Moves (roster s) (roster t)
  nicknames : KeepsNicknames s t

section Rules

variable {s t r : ServerState} {c : ConnId}

theorem KeepsNicknames.trans (h₁ : KeepsNicknames s t) (h₂ : KeepsNicknames t r) :
    KeepsNicknames s r := by
  intro c session' hsession'
  obtain ⟨session, hsession, hnick⟩ := h₂ c session' hsession'
  obtain ⟨session₀, hsession₀, hnick₀⟩ := h₁ c session hsession
  exact ⟨session₀, hsession₀, hnick₀.trans hnick⟩

theorem KeepsNicknames.of_eq (h : t.registry = s.registry) : KeepsNicknames s t := by
  intro c session' hsession'
  rw [h] at hsession'
  exact ⟨session', hsession', rfl⟩

theorem KeepsNicknames.modifySession {f : UserSession → UserSession}
    (h : t.registry = s.registry.modifySession c f)
    (hnick : ∀ session, (f session).nickname = session.nickname) : KeepsNicknames s t := by
  intro c' session' hsession'
  rw [h, UserRegistry.modifySession] at hsession'
  rcases hlookup : s.registry.byConnection.get c with - | nick
  · rw [hlookup] at hsession'
    exact ⟨session', hsession', rfl⟩
  · rw [hlookup] at hsession'
    obtain ⟨nick', hnick', hget⟩ := Option.bind_eq_some_iff.mp hsession'
    rw [FoldMap.get, FoldMap.lookup_modify] at hget
    split_ifs at hget with hsame
    · obtain ⟨session, hsession, rfl⟩ := Option.map_eq_some_iff.mp hget
      exact ⟨session, Option.bind_eq_some_iff.mpr ⟨nick', hnick', hsession⟩, (hnick session).symm⟩
    · exact ⟨session', Option.bind_eq_some_iff.mpr ⟨nick', hnick', hget⟩, rfl⟩

theorem KeepsNicknames.removeByConnection
    (h : t.registry = (s.registry.removeByConnection c).2) : KeepsNicknames s t := by
  intro c' session' hsession'
  rw [h, UserRegistry.removeByConnection] at hsession'
  refine ⟨session', ?_, rfl⟩
  rcases hlookup : s.registry.byConnection.get c with - | nick
  · rw [hlookup] at hsession'
    exact hsession'
  · rw [hlookup] at hsession'
    dsimp only at hsession'
    -- what is found afterwards was there before
    have hconn (nick' : Nickname)
        (hnick' : (s.registry.byConnection.remove c).get c' = some nick') :
        s.registry.byConnection.get c' = some nick' := by
      rw [FoldMap.get, FoldMap.lookup_remove] at hnick'
      split_ifs at hnick'
      exact hnick'
    rcases hgone : s.registry.byNick.get nick with - | gone
    · rw [hgone] at hsession'
      obtain ⟨nick', hnick', hget⟩ := Option.bind_eq_some_iff.mp hsession'
      exact Option.bind_eq_some_iff.mpr ⟨nick', hconn nick' hnick', hget⟩
    · rw [hgone] at hsession'
      obtain ⟨nick', hnick', hget⟩ := Option.bind_eq_some_iff.mp hsession'
      rw [FoldMap.get, FoldMap.lookup_remove] at hget
      split_ifs at hget
      exact Option.bind_eq_some_iff.mpr ⟨nick', hconn nick' hnick', hget⟩

theorem Keeps.trans (h₁ : Keeps s t) (h₂ : Keeps t r) : Keeps s r :=
  ⟨h₂.consistent, fun c hc => h₂.connections c (h₁.connections c hc)⟩

theorem Follows.trans (h₁ : Follows s t) (h₂ : Follows t r) : Follows s r :=
  ⟨h₁.toKeeps.trans h₂.toKeeps, h₁.moves.trans h₂.moves, h₁.nicknames.trans h₂.nicknames⟩

theorem Follows.of_registry_eq (hs : s.registry.Consistent) (hr : t.registry = s.registry)
    (hmoves : Roster.Moves (roster s) (roster t)) : Follows s t := by
  refine ⟨⟨?_, ?_⟩, hmoves, .of_eq hr⟩
  · rw [hr]
    exact hs
  · intro c hc
    rw [hr]
    exact hc

theorem Follows.of_eq (hs : s.registry.Consistent) (hr : t.registry = s.registry)
    (hc : t.channels = s.channels) : Follows s t := by
  apply Follows.of_registry_eq hs hr
  rw [roster_congr hr hc]

theorem Follows.refl (hs : s.registry.Consistent) : Follows s s := .of_eq hs rfl rfl

theorem Follows.modifySession (hs : s.registry.Consistent) {f : UserSession → UserSession}
    (hr : t.registry = s.registry.modifySession c f) (hc : t.channels = s.channels)
    (hnick : ∀ session, (f session).nickname = session.nickname)
    (hconn : ∀ session, (f session).connectionId = session.connectionId) : Follows s t := by
  refine ⟨⟨?_, ?_⟩, ?_, .modifySession hr hnick⟩
  · rw [hr]
    exact hs.modifySession c hnick hconn
  · intro c' hc'
    rw [hr, UserRegistry.modifySession]
    split
    · exact hc'
    · exact hc'
  · rw [roster_modifySession hr hc]

theorem Follows.write (hs : s.registry.Consistent) {name : ChannelName} {channel channel' : Channel}
    (h : s.channels.get name = some channel) (hr : t.registry = s.registry)
    (hc : t.channels = s.channels.modify name fun _ => channel')
    (hocc : channel'.occupants = channel.occupants) : Follows s t := by
  apply Follows.of_registry_eq hs hr
  rw [roster_write h hr hc hocc]

end Rules

/-! ## Handlers that only send -/

def Quiet (s t : ServerState) : Prop := t.registry = s.registry ∧ t.channels = s.channels

theorem Quiet.follows {s t : ServerState} (hs : s.registry.Consistent) (h : Quiet s t) :
    Follows s t := .of_eq hs h.1 h.2

section Sending

variable (s : ServerState) (msg : Message) (c : ConnId)

theorem handleWhois_quiet (clock : Clock) : Quiet s (handleWhois s msg c clock) := by
  unfold handleWhois
  repeat' split
  all_goals exact ⟨rfl, rfl⟩

theorem handleChannelMessage_quiet (session : UserSession) (command : Command)
    (target text : Str) : Quiet s (handleChannelMessage s c session command target text) := by
  unfold handleChannelMessage
  dsimp only
  repeat' split
  all_goals exact ⟨rfl, rfl⟩

theorem handleUserMessage_quiet (session : UserSession) (command : Command) (target text : Str) :
    Quiet s (handleUserMessage s c session command target text) := by
  unfold handleUserMessage
  dsimp only
  repeat' split
  all_goals exact ⟨rfl, rfl⟩

theorem handleMessageCommand_quiet (command : Command) :
    Quiet s (handleMessageCommand s msg c command) := by
  unfold handleMessageCommand
  repeat' split
  · exact ⟨rfl, rfl⟩
  · exact handleChannelMessage_quiet ..
  · exact handleUserMessage_quiet ..
  · exact ⟨rfl, rfl⟩

theorem handleList_quiet : Quiet s (handleList s msg c) := by
  unfold handleList
  repeat' split
  all_goals exact ⟨rfl, rfl⟩

theorem handleNames_quiet : Quiet s (handleNames s msg c) := by
  unfold handleNames
  repeat' split
  all_goals exact ⟨rfl, rfl⟩

theorem handleWallops_quiet : Quiet s (handleWallops s msg c) := by
  unfold handleWallops
  repeat' split
  all_goals exact ⟨rfl, rfl⟩

theorem handlePing_quiet : Quiet s (handlePing s msg c) := by
  unfold handlePing
  repeat' split
  all_goals exact ⟨rfl, rfl⟩

theorem handleShutdown_quiet (notice : Str) : Quiet s (handleShutdown s c notice).1 := by
  unfold handleShutdown
  repeat' split
  all_goals exact ⟨rfl, rfl⟩

theorem handleNick_quiet (state : PreRegistrationState) : Quiet s (handleNick s msg c state).1 := by
  unfold handleNick
  repeat' split
  all_goals exact ⟨rfl, rfl⟩

theorem handleUser_quiet (state : PreRegistrationState) : Quiet s (handleUser s msg c state).1 := by
  unfold handleUser
  repeat' split
  all_goals exact ⟨rfl, rfl⟩

end Sending

/-! ## Handlers that change who is on a channel -/

section Channels

variable {s : ServerState} {msg : Message} {c : ConnId} {session : UserSession}

theorem mem_present (hs : s.registry.Consistent) (h : s.registry.getByConnection c = some session) :
    session.nickname.fold ∈ (roster s).present :=
  ⟨session, (hs.getByConnection_eq_some.mp h).2⟩

theorem joinChannel_moves (keys : List Str) (maxChannels : ℕ) (acc : ServerState × ℕ)
    (item : Str × ℕ) (hpresent : session.nickname.fold ∈ (roster acc.1).present) :
    (joinChannel c session keys maxChannels acc item).1.registry = acc.1.registry ∧
      Roster.Moves (roster acc.1) (roster (joinChannel c session keys maxChannels acc item).1) := by
  obtain ⟨s, count⟩ := acc
  unfold joinChannel
  dsimp only
  split_ifs with hempty hcount
  · exact ⟨rfl, .refl⟩
  · exact ⟨rfl, .refl⟩
  cases ChannelName.new (trim item.1) with
  | error e => exact ⟨rfl, .refl⟩
  | ok name =>
    dsimp only
    by_cases hmember : (s.channels.getOrCreate name).1.members.contains session.nickname
    · -- the user is on the channel already
      rw [if_pos hmember, getOrCreate_of_not_isEmpty (not_isEmpty_of_contains hmember)]
      exact ⟨rfl, .refl⟩
    rw [if_neg hmember]
    split
    · next hrefusal =>
      -- only a channel with members refuses
      split_ifs at hrefusal with hnew
      rw [getOrCreate_of_not_isEmpty hnew]
      exact ⟨rfl, .refl⟩
    · refine ⟨rfl, .single ?_⟩
      rw [roster_reply, roster_broadcastToChannel, roster_join]
      exact .enter _ _ _ hpresent

theorem foldl_joinChannel_moves (keys : List Str) (maxChannels : ℕ) (items : List (Str × ℕ))
    (acc : ServerState × ℕ) (hpresent : session.nickname.fold ∈ (roster acc.1).present) :
    (items.foldl (joinChannel c session keys maxChannels) acc).1.registry = acc.1.registry ∧
      Roster.Moves (roster acc.1)
        (roster (items.foldl (joinChannel c session keys maxChannels) acc).1) := by
  induction items generalizing acc with
  | nil => exact ⟨rfl, .refl⟩
  | cons item items ih =>
    obtain ⟨hreg, hmoves⟩ := joinChannel_moves (c := c) keys maxChannels acc item hpresent
    -- the user is still registered when the next channel is joined
    have hstill : session.nickname.fold ∈
        (roster (joinChannel c session keys maxChannels acc item).1).present := by
      unfold roster at hpresent ⊢
      rw [hreg]
      exact hpresent
    obtain ⟨hreg', hmoves'⟩ := ih _ hstill
    exact ⟨hreg'.trans hreg, hmoves.trans hmoves'⟩

theorem handleJoin_follows (hs : s.registry.Consistent) (maxChannels : ℕ) :
    Follows s (handleJoin s msg c maxChannels) := by
  unfold handleJoin
  split
  · exact .refl hs
  · next session hsession =>
    split
    · exact .of_eq hs rfl rfl
    · have hpresent := mem_present hs hsession
      obtain ⟨hreg, hmoves⟩ := foldl_joinChannel_moves _ maxChannels _ (s, _) hpresent
      exact .of_registry_eq hs hreg hmoves

theorem partChannel_moves (c : ConnId) (session : UserSession) (reason : Option Str)
    (s : ServerState) (item : Str) : (partChannel c session reason s item).registry = s.registry ∧
      Roster.Moves (roster s) (roster (partChannel c session reason s item)) := by
  unfold partChannel
  dsimp only
  split
  · exact ⟨rfl, .refl⟩
  · split
    · exact ⟨rfl, .refl⟩
    · refine ⟨rfl, .single ?_⟩
      rw [roster_removeMember, roster_broadcastToChannel]
      exact .leave _ _ _

theorem foldl_partChannel_moves (reason : Option Str) (items : List Str) (s : ServerState) :
    (items.foldl (partChannel c session reason) s).registry = s.registry ∧
      Roster.Moves (roster s) (roster (items.foldl (partChannel c session reason) s)) := by
  induction items generalizing s with
  | nil => exact ⟨rfl, .refl⟩
  | cons item items ih =>
    obtain ⟨hreg, hmoves⟩ := partChannel_moves c session reason s item
    obtain ⟨hreg', hmoves'⟩ := ih (partChannel c session reason s item)
    exact ⟨hreg'.trans hreg, hmoves.trans hmoves'⟩

theorem handlePart_follows (hs : s.registry.Consistent) : Follows s (handlePart s msg c) := by
  unfold handlePart
  split
  · exact .refl hs
  · split
    · exact .of_eq hs rfl rfl
    · obtain ⟨hreg, hmoves⟩ := foldl_partChannel_moves _ _ s
      exact .of_registry_eq hs hreg hmoves

theorem handleKick_follows (hs : s.registry.Consistent) : Follows s (handleKick s msg c) := by
  unfold handleKick
  split
  · exact .refl hs
  · split
    · split
      · exact .of_eq hs rfl rfl
      · refine .of_registry_eq hs rfl (.single ?_)
        rw [roster_removeMember, roster_broadcastToChannel]
        exact .leave _ _ _
    · exact .of_eq hs rfl rfl

end Channels

/-! ## Handlers that write to a channel or a session -/

section Modes

variable {s : ServerState} {msg : Message} {c : ConnId}

theorem get_of_findChannel {nick chanStr : Str} {name : ChannelName} {channel : Channel}
    (h : findChannel s nick chanStr = .ok (name, channel)) :
    s.channels.get name = some channel := by
  unfold findChannel at h
  split at h
  · cases h
  · split at h
    · cases h
    · next hget =>
      cases h
      exact hget

theorem get_of_joinedChannel {nick : Nickname} {chanStr : Str} {name : ChannelName}
    {channel : Channel} (h : joinedChannel s nick chanStr = .ok (name, channel)) :
    s.channels.get name = some channel := by
  unfold joinedChannel at h
  obtain ⟨⟨name', channel'⟩, hfind, h⟩ := Except.bind_eq_ok.mp h
  dsimp only at h
  split_ifs at h
  all_goals cases h
  exact get_of_findChannel hfind

theorem get_of_inviteCheck {nick target : Nickname} {targetStr chanStr : Str} {name : ChannelName}
    {channel : Channel} {session : UserSession}
    (h : inviteCheck s nick targetStr chanStr = .ok (name, channel, target, session)) :
    s.channels.get name = some channel := by
  unfold inviteCheck at h
  dsimp only at h
  split at h
  · cases h
  · split at h
    · cases h
    · obtain ⟨⟨name', channel'⟩, hfind, h⟩ := Except.bind_eq_ok.mp h
      obtain ⟨status, -, h⟩ := Except.bind_eq_ok.mp h
      split_ifs at h
      all_goals cases h
      exact get_of_findChannel hfind

theorem occupants_insert {channel : Channel} {nick : Nickname} {status : MemberStatus}
    (h : channel.members.contains nick) :
    { channel with members := channel.members.insert nick status }.occupants =
      channel.occupants := by
  ext i
  simp only [Channel.occupants, FoldMap.lookup_insert, Set.mem_ofPred_eq]
  split_ifs with hi
  · rw [← hi]
    have hmember : ∃ old, channel.members.lookup nick.fold = some old := FoldMap.contains_iff.mp h
    simpa using hmember
  · rfl

section Letters

variable (m : ModeState) (param : Option Str)

theorem ModeState.occupants_key : (m.key param).channel.occupants = m.channel.occupants := by
  unfold ModeState.key
  dsimp only
  repeat' split
  all_goals rfl

theorem ModeState.occupants_limit : (m.limit param).channel.occupants = m.channel.occupants := by
  unfold ModeState.limit
  repeat' split
  all_goals rfl

theorem ModeState.occupants_ban (whoSet : Str) (now : ℕ) :
    (m.ban whoSet now param).channel.occupants = m.channel.occupants := by
  unfold ModeState.ban
  repeat' split
  all_goals rfl

theorem ModeState.occupants_status (letter : Char) (nick chanStr : Str) :
    (m.status letter nick chanStr param).channel.occupants = m.channel.occupants := by
  unfold ModeState.status
  split
  · dsimp only
    split
    · rfl
    · split
      · next target _ hmember => exact occupants_insert hmember
      · rfl
  · rfl

/-- **No letter of a mode string changes who is on the channel.** -/
theorem ModeState.occupants_step (nick chanStr : Str) (now : ℕ) (modeParams : List Str) (ch : Char) :
    (m.step nick chanStr now modeParams ch).channel.occupants = m.channel.occupants := by
  unfold ModeState.step
  dsimp only
  split
  case h_8 => exact m.occupants_key _
  case h_9 => exact m.occupants_limit _
  case h_10 => exact m.occupants_ban _ _ _
  case h_11 => exact m.occupants_status _ _ _ _
  case h_12 => exact m.occupants_status _ _ _ _
  all_goals rfl

theorem ModeState.occupants_foldl (nick chanStr : Str) (now : ℕ) (modeParams : List Str)
    (letters : Str) :
    (letters.foldl (ModeState.step nick chanStr now modeParams) m).channel.occupants =
      m.channel.occupants := by
  induction letters generalizing m with
  | nil => rfl
  | cons ch letters ih =>
    rw [List.foldl_cons, ih]
    exact m.occupants_step ..

end Letters

theorem setChannelMode_follows (hs : s.registry.Consistent) {session : UserSession} {now : ℕ}
    {chanStr modestring : Str} {name : ChannelName} {channel : Channel} {modeParams : List Str}
    (hget : s.channels.get name = some channel) :
    Follows s (setChannelMode s c session now chanStr name channel modestring modeParams) := by
  have hocc := ModeState.occupants_foldl { channel := channel } session.nickname.name chanStr now
    modeParams modestring
  unfold setChannelMode
  dsimp only
  split
  · exact .write hs hget rfl rfl hocc
  · exact .write hs hget rfl rfl hocc

theorem handleChannelMode_follows (hs : s.registry.Consistent) (now : ℕ) :
    Follows s (handleChannelMode s msg c now) := by
  unfold handleChannelMode
  split
  · exact .refl hs
  dsimp only
  split
  · exact .refl hs
  split
  · exact .of_eq hs rfl rfl
  · next hfind =>
    split
    · exact .of_eq hs rfl rfl
    split
    · exact .of_eq hs rfl rfl
    split
    · exact .of_eq hs rfl rfl
    · exact setChannelMode_follows hs (get_of_findChannel hfind)

theorem handleTopic_follows (hs : s.registry.Consistent) (now : ℕ) :
    Follows s (handleTopic s msg c now) := by
  unfold handleTopic
  split
  · exact .refl hs
  dsimp only
  split
  · exact .of_eq hs rfl rfl
  split
  · exact .of_eq hs rfl rfl
  · next name channel hfind =>
    split
    · exact .of_eq hs rfl rfl
    split
    · exact .of_eq hs rfl rfl
    · exact .write hs (get_of_joinedChannel hfind) rfl rfl rfl

theorem handleInvite_follows (hs : s.registry.Consistent) : Follows s (handleInvite s msg c) := by
  unfold handleInvite
  split
  · exact .refl hs
  dsimp only
  split
  · split
    · exact .of_eq hs rfl rfl
    · next hcheck => exact .write hs (get_of_inviteCheck hcheck) rfl rfl rfl
  · exact .of_eq hs rfl rfl

theorem handleBan_follows (hs : s.registry.Consistent) (now : ℕ) :
    Follows s (handleBan s msg c now) := by
  unfold handleBan
  split
  · exact .refl hs
  dsimp only
  split
  · exact .of_eq hs rfl rfl
  split
  · exact .of_eq hs rfl rfl
  · next hfind =>
    split
    · exact .of_eq hs rfl rfl
    split
    · exact .of_eq hs rfl rfl
    · exact .write hs (get_of_findChannel hfind) rfl rfl rfl

theorem handleAway_follows (hs : s.registry.Consistent) : Follows s (handleAway s msg c) := by
  unfold handleAway
  split
  · exact .refl hs
  dsimp only
  split
  · exact .modifySession hs rfl rfl (fun _ => rfl) fun _ => rfl
  · exact .modifySession hs rfl rfl (fun _ => rfl) fun _ => rfl

theorem handleUserMode_follows (hs : s.registry.Consistent) :
    Follows s (handleUserMode s msg c) := by
  unfold handleUserMode
  split
  · exact .refl hs
  dsimp only
  split
  · exact .of_eq hs rfl rfl
  split
  · exact .of_eq hs rfl rfl
  split
  · exact .of_eq hs rfl rfl
  split
  · exact .modifySession hs rfl rfl (fun _ => rfl) fun _ => rfl
  · exact .modifySession hs rfl rfl (fun _ => rfl) fun _ => rfl

theorem handleOper_follows (hs : s.registry.Consistent) (config : ServerConfig) :
    Follows s (handleOper config s msg c) := by
  unfold handleOper
  split
  · exact .refl hs
  dsimp only
  split
  · split
    · exact .of_eq hs rfl rfl
    · exact .modifySession hs rfl rfl (fun _ => rfl) fun _ => rfl
  · exact .of_eq hs rfl rfl

theorem touch_follows (hs : s.registry.Consistent) (clock : Clock) : Follows s (s.touch c clock) :=
  .modifySession hs rfl rfl (fun _ => rfl) fun _ => rfl

end Modes

/-! ## Leaving the server -/

section Leaving

variable {s : ServerState} {msg : Message} {c : ConnId} {nick : Nickname}

theorem foldl_removeMember (nick : Nickname) (own : List (ChannelName × Channel))
    (s : ServerState) :
    (own.foldl (fun s e => s.removeMember e.1 nick) s).registry = s.registry ∧
      roster (own.foldl (fun s e => s.removeMember e.1 nick) s) =
        (roster s).leaveAll nick.fold (own.map fun e => e.1.fold) := by
  induction own generalizing s with
  | nil => exact ⟨rfl, rfl⟩
  | cons e own ih =>
    obtain ⟨hreg, hroster⟩ := ih (s.removeMember e.1 nick)
    refine ⟨hreg, ?_⟩
    rw [List.foldl_cons, hroster, roster_removeMember]
    rfl

theorem mem_own {k : Str} {o : Set Str} (h : (roster s).rooms k = some o) (hi : nick.fold ∈ o) :
    k ∈ (s.channels.listAll.filter fun e => e.2.members.contains nick).map fun e => e.1.fold := by
  obtain ⟨channel, hlookup, rfl⟩ := Option.map_eq_some_iff.mp h
  obtain ⟨name, hfold, hmem⟩ := FoldMap.lookup_eq_some.mp hlookup
  apply List.mem_map.mpr
  refine ⟨(name, channel), List.mem_filter.mpr ⟨hmem, ?_⟩, hfold⟩
  exact FoldMap.contains_iff.mpr hi

theorem broadcastQuitAndRemove_spec (s : ServerState) (nick : Nickname) (quitMsg : Message) :
    (s.broadcastQuitAndRemove nick quitMsg).registry = s.registry ∧
      Roster.Moves (roster s) (roster (s.broadcastQuitAndRemove nick quitMsg)) ∧
      (roster (s.broadcastQuitAndRemove nick quitMsg)).Outside nick.fold := by
  unfold ServerState.broadcastQuitAndRemove
  dsimp only
  obtain ⟨hreg, hroster⟩ := foldl_removeMember nick
    (s.channels.listAll.filter fun e => e.2.members.contains nick) (s.deliver _)
  refine ⟨hreg, ?_, ?_⟩
  · rw [hroster]
    exact Roster.moves_leaveAll _
  · rw [hroster]
    apply Roster.outside_leaveAll
    intro k o ho hi
    exact mem_own ho hi

theorem Follows.removeByConnection (hs : s.registry.Consistent)
    (hout : ∀ session, s.registry.getByConnection c = some session →
      (roster s).Outside session.nickname.fold) :
    Follows s { s with registry := (s.registry.removeByConnection c).2 } := by
  refine ⟨⟨hs.removeByConnection c, ?_⟩, ?_, .removeByConnection rfl⟩
  · intro c' hc'
    dsimp only
    rw [hs.lookup_removeByConnection]
    split_ifs
    · rfl
    · exact hc'
  · rw [roster_removeByConnection hs]
    split
    · next session hsession => exact .single (.depart _ _ (hout session hsession))
    · exact .refl

theorem Follows.quit (hs : s.registry.Consistent) (nick : Nickname) (quitMsg : Message)
    (hnick : ∀ session, s.registry.getByConnection c = some session →
      session.nickname.fold = nick.fold) :
    Follows s { s.broadcastQuitAndRemove nick quitMsg with
      registry := ((s.broadcastQuitAndRemove nick quitMsg).registry.removeByConnection c).2 } := by
  obtain ⟨hreg, hmoves, hout⟩ := broadcastQuitAndRemove_spec s nick quitMsg
  have hfirst : Follows s (s.broadcastQuitAndRemove nick quitMsg) := .of_registry_eq hs hreg hmoves
  apply hfirst.trans
  apply Follows.removeByConnection hfirst.consistent
  intro session hsession
  rw [hreg] at hsession
  rw [hnick session hsession]
  exact hout

theorem handleQuit_follows (hs : s.registry.Consistent) (msg : Message) (c : ConnId)
    {state : PreRegistrationState} (hregistered : state.registered) :
      Follows s (handleQuit s msg c state).1 := by
  unfold handleQuit
  dsimp only
  rw [if_pos hregistered]
  cases hsession : s.registry.getByConnection c with
  | none =>
    -- a user that was killed quits: there is nothing to remove
    have hdepart : Follows s { s with registry := (s.registry.removeByConnection c).2 } := by
      apply Follows.removeByConnection hs
      intro session h
      rw [hsession] at h
      cases h
    exact hdepart.trans (.of_eq hdepart.consistent rfl rfl)
  | some session =>
    have hquit := Follows.quit (c := c) hs session.nickname {
      prefix_ := some session.userPrefix
      command := .quit
      params := [msg.params.head?.getD "Client Quit".toList] } (by
        intro other hother
        rw [hsession] at hother
        cases hother
        rfl)
    exact hquit.trans (.of_eq hquit.consistent rfl rfl)

theorem registry_handleQuit {state : PreRegistrationState} (hregistered : state.registered) :
    (handleQuit s msg c state).1.registry = (s.registry.removeByConnection c).2 := by
  unfold handleQuit
  dsimp only
  rw [if_pos hregistered]
  cases s.registry.getByConnection c with
  | none => rfl
  | some session =>
    dsimp only [ServerState.send_registry]
    rw [(broadcastQuitAndRemove_spec ..).1]

theorem get_of_killCheck {session target : UserSession} {params : List Str} {targetStr : Str}
    {targetNick : Nickname} (h : killCheck s session params = .ok (targetStr, targetNick, target)) :
    s.registry.byNick.get targetNick = some target := by
  unfold killCheck at h
  dsimp only at h
  split_ifs at h
  · split at h
    · cases h
    · split at h
      · cases h
      · split at h
        · cases h
        · next hget =>
          cases h
          exact hget
  · cases h

theorem handleKill_follows (hs : s.registry.Consistent) : Follows s (handleKill s msg c) := by
  unfold handleKill
  split
  · exact .refl hs
  split
  · exact .of_eq hs rfl rfl
  · next targetStr targetNick target hcheck =>
    have hget := get_of_killCheck hcheck
    dsimp only
    -- the connection of the target leads back to the target
    apply Follows.trans (t := s.reply target.connectionId _) (.of_eq hs rfl rfl)
    apply Follows.quit (s := s.reply target.connectionId _) hs
    intro session hsession
    obtain ⟨hconn, hsession⟩ := hs.getByConnection_eq_some.mp hsession
    exact hs.connection_inj hsession hget hconn

end Leaving

/-! ## Changes of nickname -/

def ServerState.onChannel (s : ServerState) (nick : Nickname) : Bool :=
  s.channels.listAll.any fun e => e.2.members.contains nick

/-- The `NICK` gives the user of a connection another nickname, one that is free, while the user is
on a channel. -/
def renamesMember (s : ServerState) (msg : Message) (c : ConnId) : Bool :=
  match s.registry.getByConnection c, msg.params with
  | some session, nickStr :: _ =>
    match Nickname.new nickStr with
    | .ok newNick =>
      session.nickname.fold ≠ newNick.fold && !s.registry.nickInUse newNick &&
        s.onChannel session.nickname
    | .error _ => false
  | _, _ => false

section Nicknames

variable {s : ServerState} {msg : Message} {c : ConnId} {nick : Nickname} {clock : Clock}

theorem onChannel_iff : s.onChannel nick = true ↔ ¬ (roster s).Outside nick.fold := by
  unfold ServerState.onChannel
  rw [List.any_eq_true]
  constructor
  · rintro ⟨e, he, hmember⟩ hout
    have hroom : (roster s).rooms e.1.fold = some e.2.occupants :=
      Option.map_eq_some_iff.mpr ⟨e.2, FoldMap.get_of_mem he, rfl⟩
    exact hout _ _ hroom (FoldMap.contains_iff.mp hmember)
  · intro hout
    unfold Roster.Outside at hout
    push Not at hout
    obtain ⟨k, o, ho, hi⟩ := hout
    obtain ⟨e, he, -⟩ := List.mem_map.mp (mem_own ho hi)
    exact ⟨e, List.mem_filter.mp he⟩

theorem handleNickChange_cases (hs : s.registry.Consistent) (msg : Message) (c : ConnId)
    (clock : Clock) :
    (Quiet s (handleNickChange s msg c clock) ∧ renamesMember s msg c = false) ∨
    ∃ session newNick registry, s.registry.getByConnection c = some session ∧
      s.registry.changeNick session.nickname newNick = .ok registry ∧
      (handleNickChange s msg c clock).registry =
        registry.modifySession c (fun session => { session with lastActive := clock.instant }) ∧
      (handleNickChange s msg c clock).channels = s.channels ∧
      (renamesMember s msg c = true ↔
        session.nickname.fold ≠ newNick.fold ∧ s.onChannel session.nickname = true) := by
  cases hparams : msg.params with
  | nil =>
    refine .inl ⟨?_, ?_⟩
    · simp only [handleNickChange, hparams]
      exact ⟨rfl, rfl⟩
    · simp only [renamesMember, hparams]
      split
      · next h => cases h
      · rfl
  | cons nickStr rest =>
    cases hsession : s.registry.getByConnection c with
    | none =>
      refine .inl ⟨?_, ?_⟩
      · simp only [handleNickChange, hparams, hsession]
        split
        · exact ⟨rfl, rfl⟩
        · exact ⟨rfl, rfl⟩
      · simp only [renamesMember, hsession]
    | some session =>
      cases hnew : Nickname.new nickStr with
      | error e =>
        refine .inl ⟨?_, ?_⟩
        · simp only [handleNickChange, hparams, hnew]
          exact ⟨rfl, rfl⟩
        · simp only [renamesMember, hparams, hsession, hnew]
      | ok newNick =>
        cases hchange : s.registry.changeNick session.nickname newNick with
        | error e =>
          refine .inl ⟨?_, ?_⟩
          · simp only [handleNickChange, hparams, hnew, hsession, hchange]
            cases e with
            | nickInUse _ => exact ⟨rfl, rfl⟩
            | notFound _ => exact ⟨rfl, rfl⟩
          · simp only [renamesMember, hparams, hsession, hnew]
            rcases UserRegistry.changeNick_eq_error hchange with hin | hnone
            · simp [hin]
            · rw [(hs.getByConnection_eq_some.mp hsession).2] at hnone
              cases hnone
        | ok registry =>
          refine .inr ⟨session, newNick, registry, rfl, hchange, ?_, ?_, ?_⟩
          · simp only [handleNickChange, hparams, hnew, hsession, hchange]
            rfl
          · simp only [handleNickChange, hparams, hnew, hsession, hchange]
            rfl
          · simp only [renamesMember, hparams, hsession, hnew]
            obtain ⟨hfold, -⟩ | ⟨-, hfree, -⟩ := UserRegistry.changeNick_eq_ok hchange
            · simp [hfold]
            · have hunused : s.registry.nickInUse newNick = false :=
                FoldMap.contains_eq_false.mpr hfree
              simp [hunused]

theorem handleNickChange_keeps (hs : s.registry.Consistent) :
    Keeps s (handleNickChange s msg c clock) := by
  rcases handleNickChange_cases hs msg c clock with
    ⟨hquiet, -⟩ | ⟨session, newNick, registry, -, hchange, hreg, -, -⟩
  · exact (hquiet.follows hs).toKeeps
  · constructor
    · rw [hreg]
      exact (hs.changeNick hchange).modifySession c (fun _ => rfl) fun _ => rfl
    · intro c' hc'
      rw [hreg, UserRegistry.modifySession]
      have hnone := hs.lookup_changeNick hchange hc'
      split
      · exact hnone
      · exact hnone

/-- **A new nickname is a move of the roster exactly if it renames no member.** Otherwise the old
nickname stays behind on the channel. -/
theorem handleNickChange_roster (hs : s.registry.Consistent) (msg : Message) (c : ConnId)
    (clock : Clock) :
    (renamesMember s msg c = false →
      Roster.Moves (roster s) (roster (handleNickChange s msg c clock))) ∧
    (renamesMember s msg c = true → ¬ (roster (handleNickChange s msg c clock)).Sound) := by
  rcases handleNickChange_cases hs msg c clock with
    ⟨hquiet, hrenames⟩ | ⟨session, newNick, registry, hsession, hchange, hreg, hchan, hrenames⟩
  · rw [hrenames]
    refine ⟨fun _ => (hquiet.follows hs).moves, ?_⟩
    intro h
    cases h
  · have hroster := roster_changeNick hchange
    rw [← roster_modifySession (s := { s with registry := registry }) hreg hchan] at hroster
    rw [hroster]
    constructor
    · intro h
      split_ifs with hfold
      · exact .refl
      · have hout : (roster s).Outside session.nickname.fold := by
          by_contra hon
          have htrue := hrenames.mpr ⟨hfold, onChannel_iff.mpr hon⟩
          rw [h] at htrue
          cases htrue
        exact .tail (.single (.arrive _ _)) (.depart _ _ hout)
    · intro h
      obtain ⟨hfold, hon⟩ := hrenames.mp h
      rw [if_neg hfold]
      exact Roster.not_sound_depart (onChannel_iff.mp hon)

end Nicknames

/-! ## The dispatch -/

section Dispatch

variable {config : ServerConfig} {clock : Clock} {s : ServerState} {msg : Message} {c : ConnId}
  {state : PreRegistrationState}

theorem handleCommand_follows (hs : s.registry.Consistent) (hnick : msg.command ≠ .nick) :
    Follows s (handleCommand config clock s msg c) := by
  unfold handleCommand
  split
  case h_1 h => exact absurd h hnick
  case h_2 => exact (handleWhois_quiet ..).follows hs
  case h_3 => exact handleAway_follows hs
  case h_4 =>
    split
    · exact handleChannelMode_follows hs _
    · exact handleUserMode_follows hs
  case h_5 => exact handleJoin_follows hs _
  case h_6 => exact handlePart_follows hs
  case h_7 => exact handleTopic_follows hs _
  case h_8 => exact handleKick_follows hs
  case h_9 => exact handleInvite_follows hs
  case h_10 => exact handleBan_follows hs _
  case h_11 => exact (handleMessageCommand_quiet ..).follows hs
  case h_12 => exact (handleMessageCommand_quiet ..).follows hs
  case h_13 => exact (handleList_quiet ..).follows hs
  case h_14 => exact (handleNames_quiet ..).follows hs
  case h_15 => exact handleOper_follows hs _
  case h_16 => exact handleKill_follows hs
  case h_17 => exact (handleWallops_quiet ..).follows hs
  case h_18 => exact .of_eq hs rfl rfl
  case h_19 => exact (handlePing_quiet ..).follows hs
  case h_20 => exact .refl hs

/-- The message renames a member: a `NICK` of a registered user. -/
def messageRenames (s : ServerState) (msg : Message) (c : ConnId) (state : PreRegistrationState) :
    Bool :=
  state.registered && decide (msg.command = .nick) && renamesMember s msg c

/-- What handling a message leaves of the registry: it is consistent, no other connection gets a
user, and a connection that is not registered has none. -/
structure Handled (c : ConnId) (s t : ServerState) (state : PreRegistrationState) : Prop where
  consistent : t.registry.Consistent
  others (c' : ConnId) (hne : c' ≠ c) (h : s.registry.byConnection.lookup c' = none) :
    t.registry.byConnection.lookup c' = none
  unregistered (h : state.registered = false) : t.registry.byConnection.lookup c = none

theorem Keeps.handled {t : ServerState} (h : Keeps s t) (hregistered : state.registered = true) :
    Handled c s t state := by
  refine ⟨h.consistent, fun c' _ => h.connections c', ?_⟩
  intro hnot
  rw [hregistered] at hnot
  cases hnot

theorem touched_follows (hs : s.registry.Consistent) (msg : Message) (c : ConnId)
    (clock : Clock) :
    Follows s (if msg.command ≠ .ping ∧ msg.command ≠ .pong then s.touch c clock else s) := by
  split
  · exact touch_follows hs clock
  · exact .refl hs

theorem renamesMember_touch : renamesMember (s.touch c clock) msg c = renamesMember s msg c := by
  unfold renamesMember
  have hsession : (s.touch c clock).registry.getByConnection c =
      (s.registry.getByConnection c).map fun session =>
        { session with lastActive := clock.instant } :=
    UserRegistry.getByConnection_modifySession ..
  have hin : ∀ nick, (s.touch c clock).registry.nickInUse nick = s.registry.nickInUse nick :=
    fun nick => UserRegistry.nickInUse_modifySession ..
  rw [hsession]
  cases s.registry.getByConnection c with
  | none => rfl
  | some session =>
    cases msg.params with
    | nil => rfl
    | cons nickStr rest =>
      dsimp only [Option.map_some]
      split
      · rw [hin]
        rfl
      · rfl

theorem handleRegistered_handled (hs : s.registry.Consistent)
    (hregistered : state.registered = true) :
    Handled c s (handleRegistered config clock s msg c state).1
      (handleRegistered config clock s msg c state).2.1 := by
  have htouch := touched_follows hs msg c clock
  unfold handleRegistered
  revert htouch
  generalize (if msg.command ≠ .ping ∧ msg.command ≠ .pong then s.touch c clock else s) = s₀
  intro htouch
  dsimp only
  split
  · -- a connection that quits has no user afterwards
    have hquit := htouch.trans (handleQuit_follows htouch.consistent msg c hregistered)
    refine ⟨hquit.consistent, fun c' _ => hquit.connections c', ?_⟩
    intro _
    rw [registry_handleQuit hregistered, htouch.consistent.lookup_removeByConnection, if_pos rfl]
  · have huser := htouch.trans ((handleUser_quiet s₀ msg c state).follows htouch.consistent)
    have hstate : (handleUser s₀ msg c state).2 = state := by
      unfold handleUser
      rw [if_pos hregistered]
    rw [hstate]
    exact huser.toKeeps.handled hregistered
  · exact (htouch.trans ((handleShutdown_quiet ..).follows htouch.consistent)).toKeeps.handled
      hregistered
  · exact (htouch.trans ((handleShutdown_quiet ..).follows htouch.consistent)).toKeeps.handled
      hregistered
  · by_cases hnick : msg.command = .nick
    · unfold handleCommand
      rw [hnick]
      exact (htouch.toKeeps.trans (handleNickChange_keeps htouch.consistent)).handled hregistered
    · exact (htouch.trans (handleCommand_follows htouch.consistent hnick)).toKeeps.handled
        hregistered

theorem handleRegistered_roster (hs : s.registry.Consistent)
    (hregistered : state.registered = true) :
    (messageRenames s msg c state = false →
      Roster.Moves (roster s) (roster (handleRegistered config clock s msg c state).1)) ∧
    (messageRenames s msg c state = true →
      ¬ (roster (handleRegistered config clock s msg c state).1).Sound) := by
  unfold messageRenames
  rw [hregistered, Bool.true_and]
  by_cases hnick : msg.command = .nick
  · have hout : (handleRegistered config clock s msg c state).1 =
        handleNickChange (s.touch c clock) msg c clock := by
      simp [handleRegistered, handleCommand, hnick]
    have htouch := touch_follows (c := c) hs clock
    obtain ⟨hmoves, hghost⟩ :=
      handleNickChange_roster htouch.consistent msg c clock
    rw [renamesMember_touch] at hmoves hghost
    rw [hout, decide_eq_true hnick, Bool.true_and]
    exact ⟨fun h => htouch.moves.trans (hmoves h), hghost⟩
  · rw [decide_eq_false hnick, Bool.false_and]
    refine ⟨fun _ => ?_, fun h => by cases h⟩
    have htouch := touched_follows hs msg c clock
    unfold handleRegistered
    revert htouch
    generalize (if msg.command ≠ .ping ∧ msg.command ≠ .pong then s.touch c clock else s) = s₀
    intro htouch
    dsimp only
    split
    · exact htouch.moves.trans (handleQuit_follows htouch.consistent msg c hregistered).moves
    · exact htouch.moves.trans ((handleUser_quiet ..).follows htouch.consistent).moves
    · exact htouch.moves.trans ((handleShutdown_quiet ..).follows htouch.consistent).moves
    · exact htouch.moves.trans ((handleShutdown_quiet ..).follows htouch.consistent).moves
    · exact htouch.moves.trans (handleCommand_follows htouch.consistent hnick).moves

theorem tryRegistration_spec (config : ServerConfig) (clock : Clock)
    {acc : ServerState × PreRegistrationState}
    (hs : acc.1.registry.Consistent) (hfresh : acc.1.registry.byConnection.lookup c = none) :
    Handled c acc.1 (tryRegistration config clock c acc).1 (tryRegistration config clock c acc).2 ∧
      Roster.Moves (roster acc.1) (roster (tryRegistration config clock c acc).1) := by
  unfold tryRegistration
  split
  · unfold completeRegistration
    dsimp only
    split
    · exact ⟨⟨hs, fun _ _ h => h, fun _ => hfresh⟩, .refl⟩
    · next registry hregister =>
      refine ⟨⟨hs.register hregister hfresh, ?_, fun h => by cases h⟩, .single ?_⟩
      · intro c' hne hc'
        obtain ⟨-, rfl⟩ := UserRegistry.register_eq_ok hregister
        dsimp only [ServerState.reply_registry]
        rw [FoldMap.lookup_insert, if_neg (Ne.symm hne), hc']
      · rw [roster_reply, roster_register hregister]
        exact .arrive _ _
  · exact ⟨⟨hs, fun _ _ h => h, fun _ => hfresh⟩, .refl⟩

theorem handleUnregistered_spec (hs : s.registry.Consistent)
    (hfresh : s.registry.byConnection.lookup c = none) :
    Handled c s (handleUnregistered config clock s msg c state).1
        (handleUnregistered config clock s msg c state).2.1 ∧
      Roster.Moves (roster s) (roster (handleUnregistered config clock s msg c state).1) := by
  have hquiet : ∀ {t state'}, Quiet s t → Handled c s t state' ∧ Roster.Moves (roster s) (roster t) := by
    intro t state' h
    refine ⟨⟨(h.follows hs).consistent, fun c' _ => (h.follows hs).connections c', ?_⟩,
      (h.follows hs).moves⟩
    intro _
    exact (h.follows hs).connections c hfresh
  -- `NICK` and `USER` leave the registry to the registration that comes after them
  have hregister : ∀ {acc : ServerState × PreRegistrationState}, Quiet s acc.1 →
      Handled c s (tryRegistration config clock c acc).1 (tryRegistration config clock c acc).2 ∧
        Roster.Moves (roster s) (roster (tryRegistration config clock c acc).1) := by
    intro acc h
    have hfirst := h.follows hs
    obtain ⟨hhandled, hmoves⟩ := tryRegistration_spec config clock hfirst.consistent
      (hfirst.connections c hfresh)
    refine ⟨⟨hhandled.consistent, ?_, hhandled.unregistered⟩, hfirst.moves.trans hmoves⟩
    intro c' hne hc'
    exact hhandled.others c' hne (hfirst.connections c' hc')
  unfold handleUnregistered
  split
  · exact hquiet ⟨rfl, rfl⟩
  · exact hregister (handleNick_quiet s msg c state)
  · exact hregister (handleUser_quiet s msg c state)
  · exact hquiet (handlePing_quiet s msg c)
  · exact hquiet ⟨rfl, rfl⟩

theorem handleMessage_handled (config : ServerConfig) (clock : Clock) (msg : Message)
    (hs : s.registry.Consistent)
    (hfresh : state.registered = false → s.registry.byConnection.lookup c = none) :
    Handled c s (handleMessage config clock s msg c state).1
      (handleMessage config clock s msg c state).2.1 := by
  unfold handleMessage
  split
  · next hregistered => exact handleRegistered_handled hs hregistered
  · next hstate =>
    have hstate : state.registered = false := by simpa using hstate
    exact (handleUnregistered_spec hs (hfresh hstate)).1

/-- **A message makes moves of the roster exactly if it renames no member.** -/
theorem handleMessage_roster (hs : s.registry.Consistent)
    (hfresh : state.registered = false → s.registry.byConnection.lookup c = none) :
    (messageRenames s msg c state = false →
      Roster.Moves (roster s) (roster (handleMessage config clock s msg c state).1)) ∧
    (messageRenames s msg c state = true →
      ¬ (roster (handleMessage config clock s msg c state).1).Sound) := by
  unfold handleMessage
  split
  · next hregistered => exact handleRegistered_roster hs hregistered
  · next hstate =>
    have hstate : state.registered = false := by simpa using hstate
    refine ⟨fun _ => (handleUnregistered_spec hs (hfresh hstate)).2, ?_⟩
    intro h
    unfold messageRenames at h
    rw [hstate] at h
    cases h

/-- Losing the connection takes a user away who is on a channel. -/
def losesMember (s : ServerState) (c : ConnId) (state : PreRegistrationState) : Bool :=
  state.registered &&
    (s.registry.getByConnection c).any fun session => s.onChannel session.nickname

/-- **The cleanup is a move of the roster exactly if the user is on no channel.** -/
theorem cleanup_roster (hs : s.registry.Consistent) :
    (losesMember s c state = false → Roster.Moves (roster s) (roster (cleanup s c state))) ∧
    (losesMember s c state = true → ¬ (roster (cleanup s c state)).Sound) := by
  unfold losesMember cleanup
  cases hregistered : state.registered with
  | false => exact ⟨fun _ => .refl, fun h => by cases h⟩
  | true =>
    rw [if_pos rfl, Bool.true_and, roster_removeByConnection hs]
    cases s.registry.getByConnection c with
    | none => exact ⟨fun _ => .refl, fun h => by cases h⟩
    | some session =>
      dsimp only [Option.any_some]
      constructor
      · intro h
        have hout : (roster s).Outside session.nickname.fold := by
          by_contra hon
          rw [onChannel_iff.mpr hon] at h
          cases h
        exact .single (.depart _ _ hout)
      · intro h
        exact Roster.not_sound_depart (onChannel_iff.mp h)

end Dispatch

/-! ## Runs -/

/-- **No ghosts**: every channel has a member, and every member is the nickname of a session. -/
def NoGhosts (s : ServerState) : Prop :=
  ∀ e ∈ s.channels.listAll, e.2.members.isEmpty = false ∧
    ∀ nick ∈ e.2.members.keys, ∃ session ∈ s.registry.sessions, session.nickname.fold = nick.fold

instance : DecidablePred NoGhosts := fun s =>
  inferInstanceAs (Decidable (∀ e ∈ s.channels.listAll, _ ∧ ∀ nick ∈ e.2.members.keys, _))

theorem noGhosts_iff_sound {s : ServerState} (hs : s.registry.Consistent) :
    NoGhosts s ↔ (roster s).Sound := by
  -- a nickname is present when a session has it
  have hpresent : ∀ i, i ∈ (roster s).present ↔
      ∃ session ∈ s.registry.sessions, session.nickname.fold = i := by
    intro i
    unfold UserRegistry.sessions
    rw [FoldMap.exists_mem_values]
    constructor
    · rintro ⟨session, hsession⟩
      exact ⟨i, session, hsession, hs.named hsession⟩
    · rintro ⟨j, session, hsession, rfl⟩
      rw [hs.named hsession]
      exact ⟨session, hsession⟩
  constructor
  · intro h k o ho
    obtain ⟨channel, hlookup, rfl⟩ := Option.map_eq_some_iff.mp ho
    obtain ⟨name, -, hmem⟩ := FoldMap.lookup_eq_some.mp hlookup
    obtain ⟨hne, hmembers⟩ := h (name, channel) hmem
    constructor
    · obtain ⟨i, status, hi⟩ := FoldMap.exists_lookup_of_not_isEmpty (m := channel.members) (by
        simpa using hne)
      exact ⟨i, status, hi⟩
    · intro i hi
      obtain ⟨nick, hnick, rfl⟩ := FoldMap.exists_mem_keys.mpr hi
      exact (hpresent _).mpr (hmembers nick hnick)
  · rintro h ⟨name, channel⟩ hmem
    have hroom : (roster s).rooms name.fold = some channel.occupants :=
      Option.map_eq_some_iff.mpr ⟨channel, FoldMap.get_of_mem hmem, rfl⟩
    obtain ⟨hne, hsub⟩ := h _ _ hroom
    constructor
    · rw [Set.nonempty_iff_ne_empty, Ne, occupants_eq_empty] at hne
      simpa using hne
    · intro nick hnick
      exact (hpresent _).mp (hsub (FoldMap.exists_mem_keys.mp ⟨nick, hnick, rfl⟩))

namespace World

/-- **The condition on a step**: it renames no member, and it loses no member's connection. -/
def keepsMembers (w : World) : Event → Bool
  | .received c msg _ => (w.connections c).all fun conn => !messageRenames w.server msg c conn.state
  | .lost c => (w.connections c).all fun conn => !losesMember w.server c conn.state
  | .accepted _ | .flushed _ => true

/-- What every run keeps: the registry is consistent, and users belong to connections that were
accepted and, if they are still there, registered. -/
structure Inv (w : World) : Prop where
  consistent : w.server.registry.Consistent
  accepted {c : ConnId} (h : w.server.registry.byConnection.lookup c ≠ none) : c < w.nextId
  served {c : ConnId} {conn : Connection} (hconn : w.connections c = some conn) : c < w.nextId
  registered {c : ConnId} {conn : Connection} (hconn : w.connections c = some conn)
    (h : conn.state.registered = false) : w.server.registry.byConnection.lookup c = none

theorem Inv.init : Inv {} where
  consistent := .empty
  accepted h := absurd rfl h
  served hconn := by cases hconn
  registered hconn := by cases hconn

section Steps

variable {config : ServerConfig} {w : World} {c : ConnId}

theorem accept_inv (hw : w.Inv) (hostname : Str) : (w.accept config hostname).Inv := by
  unfold accept
  split
  · constructor
    · exact hw.consistent
    · intro c h
      exact Nat.lt_succ_of_lt (hw.accepted h)
    · intro c conn h
      exact Nat.lt_succ_of_lt (hw.served h)
    · exact hw.registered
  · constructor
    · exact hw.consistent
    · intro c h
      exact Nat.lt_succ_of_lt (hw.accepted h)
    · intro c conn h
      dsimp only [setConnection] at h ⊢
      by_cases hc : c = w.nextId
      · rw [hc]
        exact Nat.lt_succ_self _
      · rw [Function.update_of_ne hc] at h
        exact Nat.lt_succ_of_lt (hw.served h)
    · intro c conn h hstate
      dsimp only [setConnection] at h ⊢
      by_cases hc : c = w.nextId
      · -- the id is new, so nobody is registered with it
        by_contra hne
        exact absurd (hw.accepted hne) (by rw [hc]; exact lt_irrefl _)
      · rw [Function.update_of_ne hc] at h
        exact hw.registered h hstate

/-- A step on one connection keeps the invariant, if it keeps the registry and leaves this
connection without a user when it is not registered. -/
theorem inv_setConnection {t : ServerState} {conn : Option Connection} (hw : w.Inv)
    (hserved : c < w.nextId) (hs : t.registry.Consistent)
    (hothers : ∀ c' ≠ c, w.server.registry.byConnection.lookup c' = none →
      t.registry.byConnection.lookup c' = none)
    (hself : ∀ conn' ∈ conn, conn'.state.registered = false →
      t.registry.byConnection.lookup c = none) :
    ({ w with server := t }.setConnection c conn).Inv := by
  constructor
  · exact hs
  · intro c' h
    by_cases hc : c' = c
    · rw [hc]
      exact hserved
    · exact hw.accepted fun hnone => h (hothers c' hc hnone)
  · intro c' conn' h
    by_cases hc : c' = c
    · rw [hc]
      exact hserved
    · dsimp only [setConnection] at h
      rw [Function.update_of_ne hc] at h
      exact hw.served h
  · intro c' conn' h hstate
    dsimp only [setConnection] at h ⊢
    by_cases hc : c' = c
    · subst hc
      rw [Function.update_self] at h
      exact hself conn' h hstate
    · rw [Function.update_of_ne hc] at h
      exact hothers c' hc (hw.registered h hstate)

theorem receive_inv (config : ServerConfig) (hw : w.Inv) (c : ConnId) (msg : Message)
    (clock : Clock) :
    (w.receive config c msg clock).Inv := by
  unfold receive
  split
  · next conn hconn =>
    have hhandled := handleMessage_handled config clock msg hw.consistent (hw.registered hconn)
    apply inv_setConnection hw (hw.served hconn) hhandled.consistent hhandled.others
    rintro conn' ⟨⟩
    exact hhandled.unregistered
  · exact hw

theorem flush_inv (hw : w.Inv) : (w.flush c).Inv := by
  have hset : ∀ {conn conn'}, w.connections c = some conn →
      (∀ conn'' ∈ conn', conn''.state = conn.state) → (w.setConnection c conn').Inv := by
    intro conn conn' hconn hstate
    apply inv_setConnection hw (hw.served hconn) hw.consistent fun _ _ h => h
    intro conn'' hmem hnot
    rw [hstate conn'' hmem] at hnot
    exact hw.registered hconn hnot
  unfold flush
  split
  · next hconn =>
    apply hset hconn
    rintro conn'' ⟨⟩
    rfl
  · next hconn =>
    apply hset hconn
    rintro conn'' ⟨⟩
  · exact hw

theorem lose_inv (hw : w.Inv) : (w.lose c).Inv := by
  unfold lose
  split
  · next conn hconn =>
    apply inv_setConnection hw (hw.served hconn)
    · unfold cleanup
      split
      · exact hw.consistent.removeByConnection c
      · exact hw.consistent
    · intro c' _ hc'
      unfold cleanup
      split
      · dsimp only
        rw [hw.consistent.lookup_removeByConnection]
        split_ifs
        · rfl
        · exact hc'
      · exact hc'
    · rintro conn' ⟨⟩
  · exact hw

theorem step_inv (hw : w.Inv) (e : Event) : (w.step config e).Inv := by
  cases e with
  | accepted hostname => exact accept_inv hw hostname
  | received c msg clock => exact receive_inv config hw c msg clock
  | flushed c => exact flush_inv hw
  | lost c => exact lose_inv hw

theorem noGhosts_iff_of_roster {s t : ServerState} {bad : Bool} (hs : s.registry.Consistent)
    (ht : t.registry.Consistent) (hsound : NoGhosts s)
    (h : (bad = false → Roster.Moves (roster s) (roster t)) ∧ (bad = true → ¬ (roster t).Sound)) :
    NoGhosts t ↔ (!bad) = true := by
  rw [noGhosts_iff_sound ht]
  rw [noGhosts_iff_sound hs] at hsound
  cases bad with
  | false => exact iff_of_true (Roster.sound_of_moves (h.1 rfl) hsound) rfl
  | true => exact iff_of_false (h.2 rfl) (by simp)

/-- **One step leaves no ghosts exactly if it keeps members.** -/
theorem step_noGhosts (config : ServerConfig) (hw : w.Inv) (hsound : NoGhosts w.server)
    (e : Event) : NoGhosts (w.step config e).server ↔ w.keepsMembers e = true := by
  cases e with
  | accepted hostname =>
    have hserver : (w.step config (.accepted hostname)).server = w.server := by
      unfold step accept
      dsimp only
      split
      · rfl
      · rfl
    rw [hserver]
    exact iff_of_true hsound rfl
  | received c msg clock =>
    have ht := receive_inv config hw c msg clock
    dsimp only [step, keepsMembers]
    unfold receive at ht ⊢
    cases hconn : w.connections c with
    | none => exact iff_of_true hsound rfl
    | some conn =>
      rw [hconn] at ht
      exact noGhosts_iff_of_roster hw.consistent ht.consistent hsound
        (handleMessage_roster hw.consistent (hw.registered hconn))
  | flushed c =>
    have hserver : (w.step config (.flushed c)).server = w.server := by
      unfold step flush
      dsimp only
      split
      · rfl
      · rfl
      · rfl
    rw [hserver]
    exact iff_of_true hsound rfl
  | lost c =>
    have ht := lose_inv (c := c) hw
    dsimp only [step, keepsMembers]
    unfold lose at ht ⊢
    cases hconn : w.connections c with
    | none => exact iff_of_true hsound rfl
    | some conn =>
      rw [hconn] at ht
      exact noGhosts_iff_of_roster hw.consistent ht.consistent hsound
        (cleanup_roster hw.consistent)

end Steps

end World

/-- **Ghost members.** A run of client events from empty registries has no ghost member and no empty
channel in any of its states exactly when none of its steps renames a member or loses the connection
of one. -/
theorem noGhosts_iff (config : ServerConfig) {es : List Event}
    (h : (connectionSystem config).Legal System.Free {} es) :
    (∀ n, NoGhosts ((connectionSystem config).exec {} (es.take n)).server) ↔
      (connectionSystem config).Legal (fun w e => w.keepsMembers e = true) {} es :=
  System.forall_take_iff_of_step (I := World.Inv) (P := fun w => NoGhosts w.server)
    (fun _ e _ hw => World.step_inv hw e)
    (fun _ e _ hw hsound => World.step_noGhosts config hw hsound e) h World.Inv.init (by decide)

section Runs

def clientMessage (command : Command) (params : List String) : Message :=
  { command := command, params := params.map String.toList }

def aliceJoins : List Event :=
  [.accepted "127.0.0.1".toList,
    .received 1 (clientMessage .nick ["alice"]) ⟨0, 0⟩, .flushed 1,
    .received 1 (clientMessage .user ["al", "0", "*", "Alice"]) ⟨0, 0⟩, .flushed 1,
    .received 1 (clientMessage .join ["#a"]) ⟨0, 0⟩, .flushed 1]

/-- A client joins a channel, changes the casing of its nickname, leaves the channel, takes another
nickname, joins again and quits. -/
def alicePartsFirst : List Event :=
  aliceJoins ++
    [.received 1 (clientMessage .nick ["ALICE"]) ⟨0, 0⟩, .flushed 1,
      .received 1 (clientMessage .part ["#A"]) ⟨0, 0⟩, .flushed 1,
      .received 1 (clientMessage .nick ["bob"]) ⟨0, 0⟩, .flushed 1,
      .received 1 (clientMessage .join ["#b"]) ⟨0, 0⟩, .flushed 1,
      .received 1 (clientMessage .quit []) ⟨0, 0⟩, .flushed 1]

set_option maxRecDepth 20000 in
/-- The run of a client that leaves its channels in time. -/
theorem noGhosts_iff_alicePartsFirst :
    (connectionSystem {}).Legal System.Free {} alicePartsFirst ∧
      ∀ n, NoGhosts ((connectionSystem {}).exec {} (alicePartsFirst.take n)).server := by
  have hlegal : (connectionSystem {}).Legal System.Free {} alicePartsFirst := by decide +kernel
  exact ⟨hlegal, (noGhosts_iff {} hlegal).mpr (by decide +kernel)⟩

set_option maxRecDepth 20000 in
/-- **A ghost member**: a client joins a channel and changes its nickname, or its connection is
lost. Either way its old nickname is still on the channel and nobody's. -/
theorem ghost_member :
    (connectionSystem {}).Legal System.Free {}
      (aliceJoins ++ [.received 1 (clientMessage .nick ["bob"]) ⟨0, 0⟩]) ∧
    ¬ NoGhosts ((connectionSystem {}).exec {}
      (aliceJoins ++ [.received 1 (clientMessage .nick ["bob"]) ⟨0, 0⟩])).server ∧
    (connectionSystem {}).Legal System.Free {} (aliceJoins ++ [.lost 1]) ∧
    ¬ NoGhosts ((connectionSystem {}).exec {} (aliceJoins ++ [.lost 1])).server := by
  decide +kernel

end Runs

end Pirc.Server
