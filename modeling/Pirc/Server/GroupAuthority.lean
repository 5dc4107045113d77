import Pirc.Server.Nicknames
import Pirc.Server.PircConnection

/-!
# Server: authority in groups

Who may send messages in a group is looked up by nickname, and nicknames move between connections. A
user who quits, or whose connection is lost, is taken out of its groups first; a user who takes
another nickname, or is killed, is not. The old nickname then stays a member, and whoever takes it
next is one.
-/

namespace Pirc.Server

open Protocol

/-! ## What messages do to groups -/

namespace PircServer

variable {s : PircServer} {msg : Message} {c : ConnId} {state : PreRegistrationState}
  {config : ServerConfig} {clock : Clock} {group : GroupId} {nick : Str}

theorem handleMemberLeave_groups {session : UserSession} :
    (s.handleMemberLeave group session).groups =
      (s.groups.removeMember group session.nickname.name).2 := by
  unfold handleMemberLeave
  rcases hresult : s.groups.removeMember group session.nickname.name with ⟨- | result, groups⟩
  · exact (GroupRegistry.removeMember_of_none hresult).symm
  · dsimp only
    split_ifs
    · rfl
    · rfl

theorem isMember_of_removeUserFromAllGroups {session : UserSession}
    (h : (s.removeUserFromAllGroups session).groups.isMember group nick = true) :
    s.groups.isMember group nick = true := by
  unfold removeUserFromAllGroups at h
  generalize s.groups.groupsForMember session.nickname.name = groups at h
  induction groups generalizing s with
  | nil => exact h
  | cons other groups ih =>
    have hleft := ih h
    rw [handleMemberLeave_groups, GroupRegistry.isMember_removeMember, Bool.and_eq_true] at hleft
    exact hleft.1

/-- The group that a message of a registered user makes its connection enter (`true`) or leave. -/
def groupChange (s : PircServer) (msg : Message) (c : ConnId) (state : PreRegistrationState) :
    Option (GroupId × Bool) :=
  match state.registered, s.session c, msg.command, msg.params with
  | true, some _, .pirc .groupCreate, _ :: _ => some (s.groups.nextId, true)
  | true, some session, .pirc .groupJoin, text :: _ =>
    (GroupId.parse text).bind fun group =>
      if s.groups.exists_ group ∧ s.groups.isMember group session.nickname.name = false then
        some (group, true)
      else none
  | true, some _, .pirc .groupLeave, text :: _ => (GroupId.parse text).map fun group => (group, false)
  | _, _, _, _ => none

/-- A nickname is a member once the message is handled only if it was one before and its connection
does not leave the group, or if its connection enters it. -/
def MemberAfter (s : PircServer) (change : Option (GroupId × Bool)) (c : ConnId) (group : GroupId)
    (nick : Str) : Prop :=
  (s.groups.isMember group nick = true ∧ ¬ (change = some (group, false) ∧
    ∃ session, s.session c = some session ∧ session.nickname.name = nick)) ∨
  (change = some (group, true) ∧ ∃ session, s.session c = some session ∧ session.nickname.name = nick)

theorem session_touch : (s.touch c clock).session c =
    (s.session c).map fun session => { session with lastActive := clock.instant } :=
  UserRegistry.getByConnection_modifySession ..

theorem groupChange_eq_none (h : state.registered = true → msg.command ≠ .pirc .groupCreate ∧
    msg.command ≠ .pirc .groupJoin ∧ msg.command ≠ .pirc .groupLeave) :
    s.groupChange msg c state = none := by
  unfold groupChange
  split
  · next hregistered _ hcommand _ => exact absurd hcommand (h hregistered).1
  · next hregistered _ hcommand _ => exact absurd hcommand (h hregistered).2.1
  · next hregistered _ hcommand _ => exact absurd hcommand (h hregistered).2.2
  · rfl

theorem MemberAfter.of_isMember (h : s.groups.isMember group nick = true) :
    MemberAfter s none c group nick := by
  refine .inl ⟨h, ?_⟩
  rintro ⟨⟨⟩, -⟩

theorem isMember_handleGroupCreate {now : ℕ} (hregistered : state.registered = true)
    (hcommand : msg.command = .pirc .groupCreate)
    (h : ((s.touch c clock).handleGroupCreate msg c now).groups.isMember group nick = true) :
    MemberAfter s (s.groupChange msg c state) c group nick := by
  revert h
  unfold handleGroupCreate groupChange
  rw [session_touch, hregistered, hcommand]
  rcases hsession : s.session c with - | session
  · exact fun h => .of_isMember h
  rcases msg.params with - | ⟨name, rest⟩
  · exact fun h => .of_isMember h
  · intro h
    have hmember := h.symm.trans (GroupRegistry.isMember_createGroup (r := s.groups))
    dsimp only
    by_cases hnew : group = s.groups.nextId
    · rw [if_pos hnew] at hmember
      obtain rfl := of_decide_eq_true hmember.symm
      rw [hnew]
      exact .inr ⟨rfl, session, hsession, rfl⟩
    · rw [if_neg hnew] at hmember
      refine .inl ⟨hmember.symm, ?_⟩
      rintro ⟨⟨⟩, -⟩

theorem isMember_handleGroupJoin {now : ℕ} (hregistered : state.registered = true)
    (hcommand : msg.command = .pirc .groupJoin)
    (h : ((s.touch c clock).handleGroupJoin msg c now).groups.isMember group nick = true) :
    MemberAfter s (s.groupChange msg c state) c group nick := by
  revert h
  unfold handleGroupJoin groupChange
  rw [session_touch, hregistered, hcommand]
  rcases hsession : s.session c with - | session
  · exact fun h => .of_isMember h
  rcases msg.params with - | ⟨text, rest⟩
  · exact fun h => .of_isMember h
  dsimp only [Option.map_some]
  rcases GroupId.parse text with - | joined
  · exact fun h => .of_isMember h
  dsimp only [Option.bind_some]
  have hadded := @GroupRegistry.isMember_addMember s.groups joined group session.nickname.name nick now
  -- who is not listed yet enters the group, if there is one
  have hmember (h : (s.groups.addMember joined session.nickname.name now).2.isMember group nick =
      true) (hexists : s.groups.exists_ joined = true) :
      MemberAfter s (if s.groups.exists_ joined = true ∧
        s.groups.isMember joined session.nickname.name = false then some (joined, true) else none) c
        group nick := by
    rw [hadded, hexists, Bool.and_true, Bool.or_eq_true, decide_eq_true_iff] at h
    rcases h with h | ⟨rfl, rfl⟩
    · refine .inl ⟨h, ?_⟩
      split_ifs
      · rintro ⟨⟨⟩, -⟩
      · rintro ⟨⟨⟩, -⟩
    · by_cases hlisted : s.groups.isMember group session.nickname.name = true
      · rw [if_neg (by simp [hlisted])]
        exact .of_isMember hlisted
      · rw [if_pos ⟨hexists, by simpa using hlisted⟩]
        exact .inr ⟨rfl, session, hsession, rfl⟩
  have hgroups : (s.touch c clock).groups = s.groups := rfl
  rw [hgroups]
  by_cases hexists : s.groups.exists_ joined = true
  · rw [if_neg (not_not.mpr hexists)]
    rcases hresult : s.groups.addMember joined session.nickname.name now with ⟨- | -, groups⟩
    · intro h
      have hbefore : s.groups.isMember group nick = true := h
      exact hmember (by rw [hadded, hbefore, Bool.true_or]) hexists
    · rw [hresult] at hmember
      intro h
      exact hmember h hexists
  · rw [if_pos hexists, if_neg fun h => hexists h.1]
    exact fun h => .of_isMember h

theorem isMember_handleGroupLeave (hregistered : state.registered = true)
    (hcommand : msg.command = .pirc .groupLeave)
    (h : ((s.touch c clock).handleGroupLeave msg c).groups.isMember group nick = true) :
    MemberAfter s (s.groupChange msg c state) c group nick := by
  revert h
  unfold handleGroupLeave groupChange
  rw [session_touch, hregistered, hcommand]
  rcases hsession : s.session c with - | session
  · exact fun h => .of_isMember h
  rcases msg.params with - | ⟨text, rest⟩
  · exact fun h => .of_isMember h
  dsimp only [Option.map_some]
  rcases GroupId.parse text with - | left
  · exact fun h => .of_isMember h
  · intro h
    dsimp only [Option.map_some] at h ⊢
    rw [handleMemberLeave_groups, GroupRegistry.isMember_removeMember, Bool.and_eq_true] at h
    refine .inl ⟨h.1, ?_⟩
    rintro ⟨hleft, session', hsession', rfl⟩
    cases hleft
    rw [hsession] at hsession'
    cases hsession'
    simp at h

/-- **Members after a message**: nobody becomes a member but the user who enters a group, and who
leaves one is no member of it. -/
theorem isMember_handleMessage
    (h : (s.handleMessage config clock msg c state).1.groups.isMember group nick = true) :
    MemberAfter s (s.groupChange msg c state) c group nick := by
  revert h
  unfold handleMessage
  split
  · next hregistered hcommand =>
    rw [groupChange_eq_none fun _ => by rw [hcommand]; exact ⟨nofun, nofun, nofun⟩]
    intro h
    apply MemberAfter.of_isMember
    revert h
    unfold handleQuit
    dsimp only
    rw [if_pos hregistered]
    rcases (s.touch c clock).session c with - | session
    · exact id
    · exact isMember_of_removeUserFromAllGroups (s := { s.touch c clock with server := _ })
  · next sub hregistered hcommand =>
    rcases eq_or_ne sub .groupCreate with rfl | hcreate
    · exact isMember_handleGroupCreate hregistered hcommand
    rcases eq_or_ne sub .groupJoin with rfl | hjoin
    · exact isMember_handleGroupJoin hregistered hcommand
    rcases eq_or_ne sub .groupLeave with rfl | hleave
    · exact isMember_handleGroupLeave hregistered hcommand
    · -- the message is relayed or answered
      intro h
      have hrelays := (@handlePirc_relays (s.touch c clock) msg c) clock hcreate hjoin
        hleave
      rw [groupChange_eq_none fun _ => by simp [hcommand, hcreate, hjoin, hleave]]
      dsimp only at h
      rw [hrelays.groups] at h
      exact .of_isMember h
  · next hquit hpirc =>
    have hother : s.groupChange msg c state = none := by
      apply groupChange_eq_none
      intro hregistered
      exact ⟨fun h => hpirc _ hregistered h, fun h => hpirc _ hregistered h, fun h => hpirc _ hregistered h⟩
    rw [hother]
    intro h
    apply MemberAfter.of_isMember
    revert h
    dsimp only
    split
    · exact id
    · exact id

end PircServer

/-! ## What is forwarded -/

def groupRelays : List PircSubcommand :=
  [.groupInvite, .groupMessage, .groupKeyExchange, .groupP2pOffer, .groupP2pAnswer, .groupP2pIce]

/-- The group that a message is forwarded for. -/
def forwardedGroup (s : PircServer) (msg : Message) (c : ConnId) (state : PreRegistrationState) :
    Option GroupId :=
  match state.registered, s.session c, msg.command with
  | true, some session, .pirc sub =>
    if sub ∈ groupRelays then
      (groupRelay s.groups session sub msg.params).toOption.map fun relay => relay.1
    else none
  | _, _, _ => none

namespace PircServer

variable {s : PircServer} {msg : Message} {c : ConnId} {state : PreRegistrationState}
  {config : ServerConfig} {clock : Clock} {group : GroupId} {session : UserSession}
  {sub : PircSubcommand}

theorem isMember_of_groupCheck {name : Str} {needed : ℕ} {params : List Str} {target : Nickname}
    (h : groupCheck s.groups session name needed params = .ok (group, target)) :
    s.groups.isMember group session.nickname.name = true := by
  unfold groupCheck at h
  split at h
  · split_ifs at h
    split at h
    · cases h
    · split_ifs at h with hmember
      split at h
      · cases h
      · cases h
        exact hmember
  · cases h

theorem isMember_of_groupRelay {params : List Str} {relay : GroupId × Nickname × Message}
    (h : groupRelay s.groups session sub params = .ok relay) :
    s.groups.isMember relay.1 session.nickname.name = true := by
  unfold groupRelay at h
  split at h
  all_goals
    obtain ⟨⟨group, target⟩, hcheck, hrelay⟩ := Except.bind_eq_ok.mp h
    cases hrelay
    exact isMember_of_groupCheck hcheck

theorem isMember_of_forwardedGroup (h : forwardedGroup s msg c state = some group) :
    ∃ session, s.session c = some session ∧
      s.groups.isMember group session.nickname.name = true := by
  unfold forwardedGroup at h
  split at h
  · next session sub hregistered hsession hcommand =>
    split_ifs at h
    rcases hrelay : groupRelay s.groups session sub msg.params with refusal | relay
    · rw [hrelay] at h
      cases h
    · rw [hrelay] at h
      cases h
      exact ⟨session, hsession, isMember_of_groupRelay hrelay⟩
  · cases h

end PircServer

/-! ## Runs -/

/-- The server, and the groups that every connection created or joined, and has not left since. -/
structure GroupWorld where
  pirc : PircWorld := {}
  inGroup : ConnId → GroupId → Bool := fun _ _ => false

namespace GroupWorld

/-- Take down the group that a connection enters or leaves. -/
def record (inGroup : ConnId → GroupId → Bool) (c : ConnId) :
    Option (GroupId × Bool) → ConnId → GroupId → Bool
  | some (group, entered) => Function.update inGroup c (Function.update (inGroup c) group entered)
  | none => inGroup

def step (config : ServerConfig) (w : GroupWorld) (e : Event) : GroupWorld where
  pirc := w.pirc.step config e
  inGroup :=
    match e with
    | .received c msg _ =>
      record w.inGroup c
        ((w.pirc.world.connections c).bind fun conn => w.pirc.server.groupChange msg c conn.state)
    | _ => w.inGroup

/-- **Authority**: a message is forwarded only for a group that its connection is in. -/
def Authorized (w : GroupWorld) : Event → Prop
  | .received c msg _ => ∀ conn ∈ w.pirc.world.connections c,
      ∀ group ∈ forwardedGroup w.pirc.server msg c conn.state, w.inGroup c group = true
  | _ => True

def ListedGroups (w : GroupWorld) : Prop :=
  ∀ c session group, w.pirc.server.session c = some session →
    w.pirc.groups.isMember group session.nickname.name = true → w.inGroup c group = true

/-- **The condition on a step**: if a connection takes a nickname, all groups that list it are
groups the connection is in. -/
def TakesOwnGroups (w : GroupWorld) : Event → Prop
  | .received c msg _ => ∀ conn ∈ w.pirc.world.connections c,
      ∀ nick ∈ nickTaken w.pirc.world.server msg c conn.state,
        ∀ group ∈ w.pirc.groups.groupsForMember nick.name, w.inGroup c group = true
  | _ => True

-- the groups in question are looked at one by one, not all of the type's
instance (w : GroupWorld) : ∀ e, Decidable (w.Authorized e)
  | .received _ _ _ => @Option.decidableForallMem _ _
      (fun _ => @Option.decidableForallMem _ _ (fun _ => inferInstance) _) _
  | .accepted _ | .flushed _ | .lost _ => .isTrue trivial

instance (w : GroupWorld) : ∀ e, Decidable (w.TakesOwnGroups e)
  | .received _ _ _ => @Option.decidableForallMem _ _
      (fun _ => @Option.decidableForallMem _ _ (fun _ => List.decidableBAll _ _) _) _
  | .accepted _ | .flushed _ | .lost _ => .isTrue trivial

end GroupWorld

/-- **The server and the groups of its connections as a system.** -/
def groupSystem (config : ServerConfig) : System GroupWorld Event where
  enabled w e := w.pirc.world.enabled e
  step := GroupWorld.step config

instance (config : ServerConfig) (w : GroupWorld) (e : Event) :
    Decidable ((groupSystem config).enabled w e) :=
  inferInstanceAs (Decidable (w.pirc.world.enabled e = true))

/-! ## Steps -/

section Steps

variable {s t : PircServer} {inGroup : ConnId → GroupId → Bool} {c : ConnId}
  {change : Option (GroupId × Bool)} {taken : Option Nickname}

theorem record_of_ne {c' : ConnId} {group : GroupId}
    (h : c' = c → ∀ entered, change ≠ some (group, entered)) :
    GroupWorld.record inGroup c change c' group = inGroup c' group := by
  unfold GroupWorld.record
  split
  · next changed entered =>
    by_cases hc : c' = c
    · subst hc
      rw [Function.update_self, Function.update_of_ne]
      rintro rfl
      exact h rfl entered rfl
    · rw [Function.update_of_ne hc]
  · rfl

theorem record_self {group : GroupId} {entered : Bool} :
    GroupWorld.record inGroup c (some (group, entered)) c group = entered := by
  rw [GroupWorld.record, Function.update_self, Function.update_self]

theorem connection_eq_of_name {c' : ConnId} {session session' : UserSession}
    (hs : s.server.registry.Consistent) (hsession : s.session c = some session)
    (hsession' : s.session c' = some session')
    (hname : session.nickname.name = session'.nickname.name) : c' = c := by
  obtain ⟨rfl, hget⟩ := hs.getByConnection_eq_some.mp hsession
  obtain ⟨rfl, hget'⟩ := hs.getByConnection_eq_some.mp hsession'
  have hfold : session.nickname.fold = session'.nickname.fold := congrArg lowercase hname
  rw [FoldMap.get, hfold] at hget
  rw [FoldMap.get, hget] at hget'
  cases hget'
  rfl

theorem listed_of_kept {c' : ConnId} {session : UserSession} {group : GroupId}
    (hs : s.server.registry.Consistent)
    (hlisted : ∀ session group, s.session c' = some session →
      s.groups.isMember group session.nickname.name = true → inGroup c' group = true)
    (hsession : s.session c' = some session)
    (hmember : s.MemberAfter change c group session.nickname.name) :
    GroupWorld.record inGroup c change c' group = true := by
  rcases hmember with ⟨hbefore, hstays⟩ | ⟨hentered, session', hsession', hname⟩
  · have hin := hlisted session group hsession hbefore
    by_cases hchange : c' = c ∧ ∃ entered, change = some (group, entered)
    · obtain ⟨rfl, entered, rfl⟩ := hchange
      rw [record_self]
      rcases entered with - | -
      · exact absurd ⟨rfl, session, hsession, rfl⟩ hstays
      · rfl
    · rw [record_of_ne]
      · exact hin
      · intro hc entered hentered
        exact hchange ⟨hc, entered, hentered⟩
  · -- who has just entered is the only user of this nickname
    obtain rfl := connection_eq_of_name hs hsession' hsession hname
    rw [hentered, record_self]

/-- **A message leaves all users in the groups that list them** exactly if the nickname that it
gives to its connection, if any, is listed only in groups the connection is in. -/
theorem listed_iff (hs : s.server.registry.Consistent)
    (hrenamed : Renamed c taken s.server t.server)
    (hmember : ∀ group nick, t.groups.isMember group nick = true → s.MemberAfter change c group nick)
    (htaken : taken ≠ none → change = none ∧ t.groups = s.groups)
    (hlisted : ∀ c session group, s.session c = some session →
      s.groups.isMember group session.nickname.name = true → inGroup c group = true) :
    (∀ c' session group, t.session c' = some session →
      t.groups.isMember group session.nickname.name = true →
        GroupWorld.record inGroup c change c' group = true) ↔
      ∀ nick group, taken = some nick → s.groups.isMember group nick.name = true →
        inGroup c group = true := by
  rcases taken with - | nick
  · refine iff_of_true ?_ (fun nick group h => by cases h)
    intro c' session' group hsession' hlists
    obtain ⟨session, hsession, hsame⟩ := hrenamed c' session' hsession'
    rw [← hsame] at hlists
    exact listed_of_kept hs (hlisted c') hsession (hmember group _ hlists)
  · obtain ⟨rfl, hgroups⟩ := htaken nofun
    constructor
    · intro h nick' group hnick' hlists
      cases hnick'
      obtain ⟨session, hsession, rfl⟩ := hrenamed.taken
      rw [← hgroups] at hlists
      exact h c session group hsession hlists
    · intro h c' session' group hsession' hlists
      by_cases hc : c' = c
      · subst hc
        obtain ⟨session, hsession, rfl⟩ := hrenamed.taken
        have hsame : session' = session := Option.some_inj.mp (hsession'.symm.trans hsession)
        rw [hgroups, hsame] at hlists
        exact h _ group rfl hlists
      · obtain ⟨session, hsession, hsame⟩ := hrenamed.others c' session' hc hsession'
        rw [← hsame] at hlists
        exact listed_of_kept hs (hlisted c') hsession (hmember group _ hlists)

theorem groups_of_nickTaken {config : ServerConfig} {clock : Clock} {msg : Message}
    {state : PreRegistrationState} (h : nickTaken s.server msg c state ≠ none) :
    s.groupChange msg c state = none ∧
      (s.handleMessage config clock msg c state).1.groups = s.groups := by
  have hcommand : msg.command = .nick ∨ msg.command = .user := by
    unfold nickTaken at h
    split_ifs at h with hregistered hnick
    · exact .inl hnick
    · exact absurd rfl h
    · split at h
      · next hnick => exact .inl hnick
      · next huser => exact .inr huser
      · exact absurd rfl h
  constructor
  · apply PircServer.groupChange_eq_none
    intro _
    rcases hcommand with hcommand | hcommand
    · rw [hcommand]
      exact ⟨nofun, nofun, nofun⟩
    · rw [hcommand]
      exact ⟨nofun, nofun, nofun⟩
  · unfold PircServer.handleMessage
    split
    · next hquit =>
      rw [hquit] at hcommand
      rcases hcommand with hother | hother
      all_goals cases hother
    · next hpirc =>
      rw [hpirc] at hcommand
      rcases hcommand with hother | hother
      all_goals cases hother
    · dsimp only
      split
      · rfl
      · rfl

/-- Nobody takes a nickname, and nobody becomes a member, when a connection is lost. -/
theorem cleanup_keepsNicknames {state : PreRegistrationState} :
    KeepsNicknames s.server (s.cleanup c state).server := by
  have hbase : KeepsNicknames s.server (cleanup s.server c state) := by
    unfold cleanup
    split
    · exact .removeByConnection rfl
    · exact .of_eq rfl
  exact hbase.trans (.of_eq PircServer.cleanup_registry)

theorem isMember_of_cleanup {state : PreRegistrationState} {group : GroupId} {nick : Str}
    (h : (s.cleanup c state).groups.isMember group nick = true) :
    s.groups.isMember group nick = true := by
  revert h
  unfold PircServer.cleanup
  split_ifs
  · rcases s.session c with - | session
    · exact id
    · exact PircServer.isMember_of_removeUserFromAllGroups
  · exact id

end Steps

namespace GroupWorld

variable {config : ServerConfig} {w : GroupWorld}

/-- **One step** leaves all users in the groups that list them exactly if it meets the condition. -/
theorem step_listedGroups (hw : w.pirc.world.Inv) (hlisted : w.ListedGroups) (e : Event) :
    (w.step config e).ListedGroups ↔ w.TakesOwnGroups e := by
  cases e with
  | accepted hostname =>
    refine iff_of_true ?_ trivial
    have hserver : (w.step config (.accepted hostname)).pirc.server = w.pirc.server := by
      unfold step PircWorld.step PircWorld.server World.accept
      dsimp only
      split_ifs
      · rfl
      · rfl
    intro c session group hsession
    rw [hserver] at hsession
    exact hlisted c session group hsession
  | flushed c =>
    refine iff_of_true ?_ trivial
    have hserver : (w.step config (.flushed c)).pirc.server = w.pirc.server := by
      unfold step PircWorld.step PircWorld.server World.flush
      dsimp only
      split
      · rfl
      · rfl
      · rfl
    intro c session group hsession
    rw [hserver] at hsession
    exact hlisted c session group hsession
  | received c msg clock =>
    rcases hconn : w.pirc.world.connections c with - | conn
    · have hstep : w.step config (.received c msg clock) = w := by
        simp [step, record, PircWorld.step, PircWorld.receive, hconn]
      rw [hstep]
      refine iff_of_true hlisted ?_
      intro conn hconn'
      rw [hconn] at hconn'
      cases hconn'
    · obtain ⟨hreg, -⟩ := (@PircServer.handleMessage_registry w.pirc.server msg c)
        config clock conn.state
      have hrenamed := ((@handleMessage_renamed w.pirc.server.server msg c _ config clock)
        hw.consistent (hw.registered hconn)).of_registry hreg
      have hiff := listed_iff (s := w.pirc.server) hw.consistent hrenamed
        (fun group nick => PircServer.isMember_handleMessage)
        (fun htaken => groups_of_nickTaken htaken) hlisted
      have hserver : (w.step config (.received c msg clock)).pirc.server =
          (w.pirc.server.handleMessage config clock msg c conn.state).1 := by
        simp only [step, PircWorld.step, PircWorld.receive, hconn]
        rfl
      have hrecord : (w.step config (.received c msg clock)).inGroup =
          record w.inGroup c (w.pirc.server.groupChange msg c conn.state) := by
        simp only [step, hconn, Option.bind_some]
      rw [← hserver, ← hrecord] at hiff
      refine hiff.trans ?_
      constructor
      · intro h conn' hconn' nick hnick group hgroup
        rw [hconn] at hconn'
        cases hconn'
        exact h nick group hnick (GroupRegistry.mem_groupsForMember.mp hgroup)
      · intro h nick group hnick hmember
        exact h conn hconn nick hnick group (GroupRegistry.mem_groupsForMember.mpr hmember)
  | lost c =>
    refine iff_of_true ?_ trivial
    rcases hconn : w.pirc.world.connections c with - | conn
    · have hstep : w.step config (.lost c) = w := by
        simp [step, PircWorld.step, PircWorld.lose, hconn]
      rw [hstep]
      exact hlisted
    · have hserver : (w.step config (.lost c)).pirc.server = w.pirc.server.cleanup c conn.state := by
        simp only [step, PircWorld.step, PircWorld.lose, hconn]
        rfl
      have hgroups : (w.step config (.lost c)).pirc.groups =
          (w.pirc.server.cleanup c conn.state).groups := congrArg PircServer.groups hserver
      intro c' session' group hsession' hlists
      rw [hserver] at hsession'
      rw [hgroups] at hlists
      obtain ⟨session, hsession, hsame⟩ := cleanup_keepsNicknames c' session' hsession'
      rw [← hsame] at hlists
      exact hlisted c' session group hsession (isMember_of_cleanup hlists)

/-- **Users in the groups that list them** send messages with authority. -/
theorem ListedGroups.authorized (hlisted : w.ListedGroups) (e : Event) : w.Authorized e := by
  cases e with
  | received c msg clock =>
    intro conn hconn group hforwarded
    obtain ⟨session, hsession, hmember⟩ := PircServer.isMember_of_forwardedGroup hforwarded
    exact hlisted c session group hsession hmember
  | accepted hostname => trivial
  | flushed c => trivial
  | lost c => trivial

theorem ListedGroups.init : ListedGroups {} := by
  intro c session group hsession
  cases hsession

end GroupWorld

/-- **Group authority.** In a run of client events in which no connection takes a nickname that is
listed in a group the connection is not in, every message that is forwarded for a group comes from a
connection that created or joined the group and has not left it since. -/
theorem authorized_of_takesOwnGroups (config : ServerConfig) {es : List Event}
    (h : (groupSystem config).Legal GroupWorld.TakesOwnGroups {} es) :
    (groupSystem config).Legal GroupWorld.Authorized {} es := by
  have hinv := h.invariant (I := fun w => w.pirc.world.Inv ∧ w.ListedGroups) (by
    rintro w e - htakes ⟨hw, hlisted⟩
    exact ⟨PircWorld.step_inv hw e, (GroupWorld.step_listedGroups hw hlisted e).mpr htakes⟩)
    ⟨World.Inv.init, .init⟩
  exact hinv.mono fun w e hboth => hboth.1.2.authorized e

/-! ## A run -/

section Runs

def clientRegisters (c : ConnId) (nick : String) : List Event :=
  [.accepted "127.0.0.1",
    .received c (clientMessage .nick [nick]) ⟨0, 0⟩, .flushed c,
    .received c (clientMessage .user ["user", "0", "*", "User"]) ⟨0, 0⟩, .flushed c]

/-- `alice` creates a group, `bob` joins it and sends `alice` a message; `alice` leaves it, and so
does `bob`, who takes another nickname then. -/
def friendlyGroup : List Event :=
  clientRegisters 1 "alice" ++ clientRegisters 2 "bob" ++
    [.received 1 (clientMessage (.pirc .groupCreate) ["friends"]) ⟨0, 0⟩, .flushed 1,
      .received 2 (clientMessage (.pirc .groupJoin) ["1"]) ⟨0, 0⟩, .flushed 2,
      .received 2 (clientMessage (.pirc .groupMessage) ["1", "alice", "aGk="]) ⟨0, 0⟩, .flushed 2,
      .received 1 (clientMessage (.pirc .groupLeave) ["1"]) ⟨0, 0⟩, .flushed 1,
      .received 2 (clientMessage (.pirc .groupLeave) ["1"]) ⟨0, 0⟩, .flushed 2,
      .received 2 (clientMessage .nick ["bobby"]) ⟨0, 0⟩, .flushed 2]

set_option maxRecDepth 20000 in
theorem friendlyGroup_authorized :
    (groupSystem {}).Legal GroupWorld.Authorized {} friendlyGroup :=
  authorized_of_takesOwnGroups {} (by decide +kernel)

/-- `alice` creates a group and takes another nickname; a client who was in no group takes the
nickname `alice`, and sends a message for the group. -/
def nicknameTaken : List Event :=
  clientRegisters 1 "alice" ++
    [.received 1 (clientMessage (.pirc .groupCreate) ["friends"]) ⟨0, 0⟩, .flushed 1,
      .received 1 (clientMessage .nick ["alice2"]) ⟨0, 0⟩, .flushed 1] ++
    clientRegisters 2 "alice"

set_option maxRecDepth 20000 in
/-- **A stranger** sends a message in a group: the connection has joined no group, and the message
reaches a user all the same. -/
theorem forwarded_for_stranger :
    let intrusion := clientMessage (.pirc .groupMessage) ["1", "alice2", "aGk="]
    let run := nicknameTaken ++ [.received 2 intrusion ⟨0, 0⟩]
    (groupSystem {}).Legal System.Free {} run ∧
      ¬ (groupSystem {}).Legal GroupWorld.Authorized {} run ∧
      ((groupSystem {}).exec {} nicknameTaken).inGroup 2 1 = false ∧
      ((((groupSystem {}).exec {} run).pirc.world.server.mail.getLast?.map
        fun mail => (mail.1, mail.2.params)) =
          some (1, ["1".toList, "alice2".toList, "aGk=".toList])) := by
  decide +kernel

end Runs

end Pirc.Server
