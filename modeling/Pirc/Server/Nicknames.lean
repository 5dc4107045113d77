import Pirc.Server.Membership

/-!
# Server: who has which nickname

A connection has the nickname of its session. It takes one by registering and by `NICK`, and every
other command leaves nicknames as they are, or takes users away.
-/

namespace Pirc.Server

open Protocol

/-- The nickname that a `NICK` of a registered user gives to its connection: another casing of the
one it has, or one that is free. -/
def nickChanged (s : ServerState) (msg : Message) (c : ConnId) : Option Nickname :=
  match msg.params, s.registry.getByConnection c with
  | nickStr :: _, some session =>
    match Nickname.new nickStr with
    | .ok nick =>
      if session.nickname.fold = nick.fold ∨ s.registry.nickInUse nick = false then some nick else none
    | .error _ => none
  | _, _ => none

def nickRegistered (acc : ServerState × PreRegistrationState) : Option Nickname :=
  match acc.2.nick, acc.2.username with
  | some nick, some _ => if acc.1.registry.nickInUse nick then none else some nick
  | _, _ => none

/-- The nickname that a message gives to its connection: that of a `NICK` which is not refused, or
the one it registers with. -/
def nickTaken (s : ServerState) (msg : Message) (c : ConnId) (state : PreRegistrationState) :
    Option Nickname :=
  if state.registered then
    if msg.command = .nick then nickChanged s msg c else none
  else
    match msg.command with
    | .nick => nickRegistered (handleNick s msg c state)
    | .user => nickRegistered (handleUser s msg c state)
    | _ => none

/-- A connection takes a nickname; all others keep theirs. -/
structure Takes (c : ConnId) (nick : Nickname) (s t : ServerState) : Prop where
  taken : ∃ session, t.registry.getByConnection c = some session ∧ session.nickname = nick
  others (c' : ConnId) (session' : UserSession) (hne : c' ≠ c)
    (h : t.registry.getByConnection c' = some session') :
    ∃ session, s.registry.getByConnection c' = some session ∧ session.nickname = session'.nickname

/-- **After a message that gives its connection `taken`**: the connection has that nickname, and
nobody else takes one. -/
def Renamed (c : ConnId) (taken : Option Nickname) (s t : ServerState) : Prop :=
  match taken with
  | some nick => Takes c nick s t
  | none => KeepsNicknames s t

section Taking

variable {s t r : ServerState} {msg : Message} {c : ConnId} {state : PreRegistrationState}
  {config : ServerConfig} {clock : Clock} {nick : Nickname} {taken : Option Nickname}

theorem KeepsNicknames.takes (h₁ : KeepsNicknames s t) (h₂ : Takes c nick t r) : Takes c nick s r := by
  refine ⟨h₂.taken, ?_⟩
  intro c' session' hne hsession'
  obtain ⟨session, hsession, hnick⟩ := h₂.others c' session' hne hsession'
  obtain ⟨session₀, hsession₀, hnick₀⟩ := h₁ c' session hsession
  exact ⟨session₀, hsession₀, hnick₀.trans hnick⟩

theorem KeepsNicknames.renamed (h₁ : KeepsNicknames s t) (h₂ : Renamed c taken t r) :
    Renamed c taken s r := by
  rcases taken with - | nick
  · exact h₁.trans h₂
  · exact h₁.takes h₂

theorem Renamed.of_registry (h : Renamed c taken s t) (heq : r.registry = t.registry) :
    Renamed c taken s r := by
  rcases taken with - | nick
  · exact KeepsNicknames.trans h (.of_eq heq)
  · constructor
    · rw [heq]
      exact h.taken
    · rw [heq]
      exact h.others

theorem Takes.modifySession {f : UserSession → UserSession} (h : Takes c nick s t)
    (hreg : r.registry = t.registry.modifySession c f)
    (hnick : ∀ session, (f session).nickname = session.nickname) : Takes c nick s r := by
  constructor
  · obtain ⟨session, hsession, rfl⟩ := h.taken
    refine ⟨f session, ?_, hnick session⟩
    rw [hreg, UserRegistry.getByConnection_modifySession, hsession, Option.map_some]
  · intro c' session' hne hsession'
    obtain ⟨session, hsession, hsame⟩ := KeepsNicknames.modifySession hreg hnick c' session' hsession'
    obtain ⟨session₀, hsession₀, hsame₀⟩ := h.others c' session hne hsession
    exact ⟨session₀, hsession₀, hsame₀.trans hsame⟩

/-- **A change of nickname** in the registry. -/
theorem takes_changeNick {registry : UserRegistry} {session : UserSession}
    (hs : s.registry.Consistent) (hsession : s.registry.getByConnection c = some session)
    (hchange : s.registry.changeNick session.nickname nick = .ok registry)
    (ht : t.registry = registry) : Takes c nick s t := by
  obtain ⟨hconn, hget⟩ := hs.getByConnection_eq_some.mp hsession
  have hconsistent := hs.changeNick hchange
  -- the session that is renamed, and the sessions of other connections
  have htaken (session' : UserSession) (hconn' : session'.connectionId = c)
      (hget' : registry.byNick.get nick = some session') (hnick' : session'.nickname = nick) :
      ∃ session, t.registry.getByConnection c = some session ∧ session.nickname = nick := by
    refine ⟨session', ?_, hnick'⟩
    rw [ht, hconsistent.getByConnection_eq_some, hnick']
    exact ⟨hconn', hget'⟩
  have hother (session' : UserSession) (hne : session'.connectionId ≠ c)
      (hlookup : s.registry.byNick.get session'.nickname = some session') :
      ∃ session, s.registry.getByConnection session'.connectionId = some session ∧
        session.nickname = session'.nickname := by
    exact ⟨session', hs.getByConnection_eq_some.mpr ⟨rfl, hlookup⟩, rfl⟩
  obtain ⟨hfold, rfl⟩ | ⟨hfold, hfree, moved, hmoved, rfl⟩ := UserRegistry.changeNick_eq_ok hchange
  · constructor
    · apply htaken { session with nickname := nick } hconn
      · rw [FoldMap.get, FoldMap.lookup_modify, if_pos hfold, ← hfold, ← FoldMap.get, hget]
        rfl
      · rfl
    · intro c' session' hne hsession'
      rw [ht] at hsession'
      obtain ⟨rfl, hget'⟩ := hconsistent.getByConnection_eq_some.mp hsession'
      apply hother session' hne
      dsimp only at hget'
      rw [FoldMap.get, FoldMap.lookup_modify] at hget'
      split_ifs at hget' with hsame
      · -- only the session of the connection itself stands there
        rw [← hsame, ← FoldMap.get, hget] at hget'
        cases hget'
        exact absurd hconn hne
      · exact hget'
  · rw [hget] at hmoved
    cases hmoved
    constructor
    · apply htaken { session with nickname := nick } hconn
      · exact FoldMap.get_insert_self ..
      · rfl
    · intro c' session' hne hsession'
      rw [ht] at hsession'
      obtain ⟨rfl, hget'⟩ := hconsistent.getByConnection_eq_some.mp hsession'
      apply hother session' hne
      dsimp only at hget'
      rw [FoldMap.get, FoldMap.lookup_insert, FoldMap.lookup_remove] at hget'
      split_ifs at hget' with hnew hold
      · cases hget'
        exact absurd hconn hne
      · exact hget'

theorem isOk_changeNick {registry : UserRegistry} {session : UserSession}
    (hs : registry.Consistent) (hsession : registry.getByConnection c = some session) :
    (∃ registry', registry.changeNick session.nickname nick = .ok registry') ↔
      session.nickname.fold = nick.fold ∨ registry.nickInUse nick = false := by
  obtain ⟨-, hget⟩ := hs.getByConnection_eq_some.mp hsession
  unfold UserRegistry.changeNick UserRegistry.nickInUse
  rw [hget]
  split_ifs with hfold hin
  · simp [hfold]
  · simp [hfold, hin]
  · simp [hfold, hin]

/-- **`NICK` of a registered user.** -/
theorem handleNickChange_renamed (hs : s.registry.Consistent) :
    Renamed c (nickChanged s msg c) s (handleNickChange s msg c clock) := by
  unfold handleNickChange nickChanged
  rcases msg.params with - | ⟨nickStr, rest⟩
  · exact .of_eq rfl
  · rcases hsession : s.registry.getByConnection c with - | session
    · dsimp only
      rcases Nickname.new nickStr with e | nick
      · exact .of_eq rfl
      · exact .of_eq rfl
    · dsimp only
      rcases Nickname.new nickStr with e | nick
      · exact .of_eq rfl
      · have hok := (@isOk_changeNick _ nick) hs hsession
        dsimp only
        rcases hchange : s.registry.changeNick session.nickname nick with e | registry
        · -- the nickname is somebody else's
          rw [if_neg fun hfree => ?_]
          · rcases e with taken | gone
            · exact .of_eq rfl
            · exact .of_eq rfl
          · obtain ⟨registry, hregistry⟩ := hok.mpr hfree
            rw [hchange] at hregistry
            cases hregistry
        · rw [if_pos (hok.mp ⟨registry, hchange⟩)]
          have htakes : Takes c nick s { s with registry := registry } :=
            takes_changeNick hs hsession hchange rfl
          exact htakes.modifySession rfl fun _ => rfl

/-- **Registration.** -/
theorem tryRegistration_renamed {acc : ServerState × PreRegistrationState}
    (hs : acc.1.registry.Consistent) (hfresh : acc.1.registry.byConnection.lookup c = none) :
    Renamed c (nickRegistered acc) acc.1 (tryRegistration config clock c acc).1 := by
  unfold nickRegistered tryRegistration
  rcases acc.2.nick with - | nick
  · exact .of_eq rfl
  rcases acc.2.username with - | username
  · exact .of_eq rfl
  dsimp only
  unfold completeRegistration
  dsimp only
  rcases hregister : acc.1.registry.register _ with e | registry
  · rw [if_pos]
    · exact .of_eq rfl
    · by_contra hfree
      rw [UserRegistry.register_of_free (by simpa using hfree)] at hregister
      cases hregister
  · have hconsistent := hs.register hregister hfresh
    obtain ⟨hfree, rfl⟩ := UserRegistry.register_eq_ok hregister
    have hin : acc.1.registry.nickInUse nick = false := FoldMap.contains_eq_false.mpr hfree
    rw [hin, if_neg Bool.false_ne_true]
    constructor
    · exact ⟨_, hconsistent.getByConnection_eq_some.mpr ⟨rfl, FoldMap.get_insert_self ..⟩, rfl⟩
    · intro c' session' hne hsession'
      obtain ⟨rfl, hget'⟩ := hconsistent.getByConnection_eq_some.mp hsession'
      refine ⟨session', hs.getByConnection_eq_some.mpr ⟨rfl, ?_⟩, rfl⟩
      dsimp only at hget'
      rw [FoldMap.get, FoldMap.lookup_insert] at hget'
      split_ifs at hget' with hsame
      · cases hget'
        exact absurd rfl hne
      · exact hget'

theorem nickChanged_touched (s : ServerState) (msg : Message) (c : ConnId) (clock : Clock) :
    nickChanged (if msg.command ≠ .ping ∧ msg.command ≠ .pong then s.touch c clock else s) msg c =
      nickChanged s msg c := by
  split_ifs
  · unfold nickChanged ServerState.touch
    rw [UserRegistry.getByConnection_modifySession]
    rcases msg.params with - | ⟨nickStr, rest⟩
    · rfl
    · rcases s.registry.getByConnection c with - | session
      · rfl
      · simp only [Option.map_some, UserRegistry.nickInUse_modifySession]
  · rfl

theorem handleRegistered_renamed (hs : s.registry.Consistent) (hregistered : state.registered = true) :
    Renamed c (if msg.command = .nick then nickChanged s msg c else none) s
      (handleRegistered config clock s msg c state).1 := by
  have htouch := touched_follows hs msg c clock
  have hchanged := nickChanged_touched s msg c clock
  unfold handleRegistered
  revert htouch hchanged
  generalize (if msg.command ≠ .ping ∧ msg.command ≠ .pong then s.touch c clock else s) = s₀
  intro htouch hchanged
  by_cases hnick : msg.command = .nick
  · simp only [hnick, if_true, handleCommand]
    rw [← hchanged]
    exact htouch.nicknames.renamed (handleNickChange_renamed htouch.consistent)
  · rw [if_neg hnick]
    dsimp only
    split
    · exact (htouch.trans (handleQuit_follows htouch.consistent msg c hregistered)).nicknames
    · exact htouch.nicknames.trans (.of_eq (handleUser_quiet s₀ msg c state).1)
    · exact htouch.nicknames.trans (.of_eq (handleShutdown_quiet ..).1)
    · exact htouch.nicknames.trans (.of_eq (handleShutdown_quiet ..).1)
    · exact (htouch.trans (handleCommand_follows htouch.consistent hnick)).nicknames

theorem handleUnregistered_renamed (hs : s.registry.Consistent)
    (hfresh : s.registry.byConnection.lookup c = none) :
    Renamed c
      (match msg.command with
        | .nick => nickRegistered (handleNick s msg c state)
        | .user => nickRegistered (handleUser s msg c state)
        | _ => none)
      s (handleUnregistered config clock s msg c state).1 := by
  -- `NICK` and `USER` leave the registry to the registration that comes after them
  have hregister (acc : ServerState × PreRegistrationState) (hquiet : Quiet s acc.1) :
      Renamed c (nickRegistered acc) s (tryRegistration config clock c acc).1 := by
    refine KeepsNicknames.renamed (.of_eq hquiet.1) (tryRegistration_renamed ?_ ?_)
    · rw [hquiet.1]
      exact hs
    · rw [hquiet.1]
      exact hfresh
  unfold handleUnregistered
  rcases hcommand : msg.command
  case nick => exact hregister _ (handleNick_quiet s msg c state)
  case user => exact hregister _ (handleUser_quiet s msg c state)
  case ping => exact KeepsNicknames.of_eq (handlePing_quiet s msg c).1
  all_goals exact KeepsNicknames.of_eq rfl

/-- **Nicknames after a message**: its connection has the one it takes, and otherwise nobody takes
any. -/
theorem handleMessage_renamed (hs : s.registry.Consistent)
    (hfresh : state.registered = false → s.registry.byConnection.lookup c = none) :
    Renamed c (nickTaken s msg c state) s (handleMessage config clock s msg c state).1 := by
  unfold handleMessage nickTaken
  split_ifs with hregistered hnick
  · have hrenamed := (@handleRegistered_renamed _ msg c _ config clock) hs hregistered
    rw [if_pos hnick] at hrenamed
    exact hrenamed
  · have hrenamed := (@handleRegistered_renamed _ msg c _ config clock) hs hregistered
    rw [if_neg hnick] at hrenamed
    exact hrenamed
  · exact handleUnregistered_renamed hs (hfresh (by simpa using hregistered))

end Taking

end Pirc.Server
