import Pirc.Server.CommitConsumer

/-!
# Server: one registry, two numberings

The registry of users has two writers. Connection handlers register the connections of this process,
whose ids are counted up; the commit consumer registers users of other nodes, under the ids that
their connections have there. The two maps of the registry are inverse to each other as long as no
session is registered under an id that is taken.
-/

namespace Pirc.Server

open Protocol

namespace UserRegistry

/-- **The maps are inverse**, and the count is the number of sessions. -/
structure Inverse (r : UserRegistry) : Prop where
  inverse (c : ConnId) (nick : Nickname) :
    (∃ nick', r.byConnection.get c = some nick' ∧ nick'.fold = nick.fold) ↔
      ∃ session, r.byNick.get nick = some session ∧ session.connectionId = c
  count : r.connectionCount = r.sessions.length

/-- Sessions stand under their own nicknames. -/
def Named (r : UserRegistry) : Prop :=
  ∀ (i : Str) (session : UserSession), r.byNick.lookup i = some session →
    session.nickname.fold = i

section Inverse

variable {r r' : UserRegistry} {c : ConnId} {session : UserSession}

theorem Inverse.consistent (h : r.Inverse) (hnamed : r.Named) : r.Consistent where
  named h := hnamed _ _ h
  linked := by
    intro i session hi
    obtain ⟨nick, rfl, hmem⟩ := FoldMap.lookup_eq_some.mp hi
    exact (h.inverse session.connectionId nick).mpr ⟨session, hi, rfl⟩
  backed := by
    intro c nick hc
    exact (h.inverse c nick).mp ⟨nick, hc, rfl⟩

theorem Consistent.inverse (h : r.Consistent) (hcount : r.connectionCount = r.sessions.length) :
    r.Inverse where
  inverse := by
    intro c nick
    constructor
    · rintro ⟨nick', hc, hfold⟩
      obtain ⟨session, hsession, hconn⟩ := h.backed hc
      refine ⟨session, ?_, hconn⟩
      rw [FoldMap.get, ← hfold]
      exact hsession
    · rintro ⟨session, hsession, rfl⟩
      exact h.linked hsession
  count := hcount

theorem length_sessions (r : UserRegistry) : r.sessions.length = r.byNick.length := List.length_map _

/-! Every operation keeps sessions under their own nicknames. -/

theorem Named.register (h : r.Named) (hok : r.register session = .ok r') : r'.Named := by
  obtain ⟨-, rfl⟩ := register_eq_ok hok
  intro i other hi
  rw [FoldMap.lookup_insert] at hi
  split_ifs at hi with hfold
  · cases hi
    exact hfold
  · exact h i other hi

theorem Named.modify (h : r.Named) (nick : Nickname) {f : UserSession → UserSession}
    (hf : ∀ session, r.byNick.get nick = some session →
      (f session).nickname.fold = session.nickname.fold) :
    Named { r with byNick := r.byNick.modify nick f } := by
  intro i other hi
  rw [FoldMap.lookup_modify] at hi
  split_ifs at hi with hfold
  · obtain ⟨old, hold, rfl⟩ := Option.map_eq_some_iff.mp hi
    rw [← hfold] at hold ⊢
    rw [hf old hold]
    exact h _ old hold
  · exact h i other hi

theorem Named.changeNick (h : r.Named) {old new : Nickname} (hok : r.changeNick old new = .ok r') :
    r'.Named := by
  obtain ⟨hfold, rfl⟩ | ⟨-, -, session, -, rfl⟩ := changeNick_eq_ok hok
  · apply h.modify
    intro session hsession
    rw [h _ session hsession]
    exact hfold.symm
  · intro i other hi
    rw [FoldMap.lookup_insert, FoldMap.lookup_remove] at hi
    split_ifs at hi with hnew
    · cases hi
      exact hnew
    · exact h i other hi

theorem Named.removeByConnection (h : r.Named) (c : ConnId) : (r.removeByConnection c).2.Named := by
  unfold UserRegistry.removeByConnection
  split
  · exact h
  · dsimp only
    split
    · exact h
    · intro i other hi
      rw [FoldMap.lookup_remove] at hi
      split_ifs at hi
      exact h i other hi

/-! Every operation but registration keeps the maps inverse. -/

theorem Inverse.modify (h : r.Inverse) (hnamed : r.Named) (nick : Nickname)
    {f : UserSession → UserSession}
    (hf : ∀ session, r.byNick.get nick = some session →
      (f session).nickname.fold = session.nickname.fold)
    (hconn : ∀ session, (f session).connectionId = session.connectionId) :
    Inverse { r with byNick := r.byNick.modify nick f } := by
  apply ((h.consistent hnamed).modify nick hf hconn).inverse
  rw [length_sessions, FoldMap.length_modify, ← length_sessions]
  exact h.count

theorem Inverse.changeNick (h : r.Inverse) (hnamed : r.Named) {old new : Nickname}
    (hok : r.changeNick old new = .ok r') : r'.Inverse := by
  apply ((h.consistent hnamed).changeNick hok).inverse
  have hcount := h.count
  rw [length_sessions] at hcount ⊢
  obtain ⟨-, rfl⟩ | ⟨hfold, hfree, session, hold, rfl⟩ := changeNick_eq_ok hok
  · rw [FoldMap.length_modify]
    exact hcount
  · -- one session goes and one comes
    have hfree' : (r.byNick.remove old).get new = none := by
      rw [FoldMap.get, FoldMap.lookup_remove, if_neg hfold]
      exact hfree
    rw [FoldMap.length_insert_of_get_eq_none hfree', FoldMap.length_remove_of_get_eq_some hold]
    exact hcount

theorem Inverse.removeByConnection (h : r.Inverse) (hnamed : r.Named) (c : ConnId) :
    (r.removeByConnection c).2.Inverse := by
  have hr := h.consistent hnamed
  apply (hr.removeByConnection c).inverse
  have hcount := h.count
  rw [length_sessions] at hcount ⊢
  obtain ⟨-, heq⟩ | ⟨session, hsession, heq⟩ := hr.removeByConnection_eq (c := c)
  · rw [heq]
    exact hcount
  · obtain ⟨-, hget⟩ := hr.getByConnection_eq_some.mp hsession
    rw [heq]
    dsimp only
    rw [hcount, ← FoldMap.length_remove_of_get_eq_some hget, Nat.add_sub_cancel]

/-- **A registration keeps the maps inverse exactly if the id is free.** -/
theorem Inverse.register_iff (h : r.Inverse) (hnamed : r.Named)
    (hok : r.register session = .ok r') :
    r'.Inverse ↔ r.byConnection.get session.connectionId = none := by
  have hr := h.consistent hnamed
  obtain ⟨hfree, hr'⟩ := register_eq_ok hok
  constructor
  · intro hinv
    by_contra hne
    obtain ⟨nick, hnick⟩ := Option.ne_none_iff_exists'.mp hne
    -- the old user of the id is still there, and the id leads to the new one
    obtain ⟨other, hother, hconn⟩ := hr.backed hnick
    have hdiff : session.nickname.fold ≠ nick.fold := by
      intro heq
      rw [FoldMap.get, heq, ← FoldMap.get, hother] at hfree
      cases hfree
    have hstays : r'.byNick.get nick = some other := by
      rw [hr', FoldMap.get, FoldMap.lookup_insert, if_neg hdiff]
      exact hother
    obtain ⟨nick', hnick', hfold⟩ := (hinv.inverse _ nick).mpr ⟨other, hstays, hconn⟩
    rw [hr', FoldMap.get, FoldMap.lookup_insert, if_pos rfl] at hnick'
    cases hnick'
    exact hdiff hfold
  · intro hfresh
    apply (hr.register hok hfresh).inverse
    rw [length_sessions, hr', FoldMap.length_insert_of_get_eq_none hfree, h.count, length_sessions]

end Inverse

/-- **What is done to the registry** besides registering sessions. -/
inductive Move (r : UserRegistry) : UserRegistry → Prop
  | same : Move r r
  | changeNick {r' : UserRegistry} (old new : Nickname) (h : r.changeNick old new = .ok r') :
      Move r r'
  | removeByConnection (c : ConnId) : Move r (r.removeByConnection c).2
  | write (nick : Nickname) (f : UserSession → UserSession)
      (hnick : ∀ session, (f session).nickname = session.nickname)
      (hconn : ∀ session, (f session).connectionId = session.connectionId) :
      Move r { r with byNick := r.byNick.modify nick f }

theorem Move.named {r r' : UserRegistry} (h : Move r r') (hnamed : r.Named) : r'.Named := by
  cases h with
  | same => exact hnamed
  | changeNick old new hok => exact hnamed.changeNick hok
  | removeByConnection c => exact hnamed.removeByConnection c
  | write nick f hnick hconn =>
    apply hnamed.modify
    intro session _
    rw [hnick]

theorem Move.inverse {r r' : UserRegistry} (h : Move r r') (hnamed : r.Named) (hinv : r.Inverse) :
    r'.Inverse := by
  cases h with
  | same => exact hinv
  | changeNick old new hok => exact hinv.changeNick hnamed hok
  | removeByConnection c => exact hinv.removeByConnection hnamed c
  | write nick f hnick hconn =>
    apply hinv.modify hnamed nick _ hconn
    intro session _
    rw [hnick]

end UserRegistry

/-! ## Commands -/

section Commands

open UserRegistry (Move)

variable {s : ServerState}

theorem move_withNick {nickname : Str} {f : Nickname → ServerState}
    (hf : ∀ nick, Move s.registry (f nick).registry) :
    Move s.registry (withNick s nickname f).registry :=
  withNick_induction (P := fun t => Move s.registry t.registry) .same hf

theorem registry_withChannel {channel : Str} {f : ChannelName → ServerState}
    (hf : ∀ name, (f name).registry = s.registry) :
    (withChannel s channel f).registry = s.registry :=
  withChannel_induction (P := fun t => t.registry = s.registry) rfl hf

theorem registry_applyChannelJoined (nickname channel status : Str) :
    (applyChannelJoined s nickname channel status).registry = s.registry := by
  apply withNick_induction (P := fun t => t.registry = s.registry) rfl
  intro nick
  exact registry_withChannel fun _ => rfl

theorem registry_applyChannelParted (nickname channel : Str) :
    (applyChannelParted s nickname channel).registry = s.registry := by
  apply withNick_induction (P := fun t => t.registry = s.registry) rfl
  intro nick
  apply registry_withChannel
  intro name
  split
  · rfl
  · rfl

theorem move_of_eq {t : ServerState} (h : t.registry = s.registry) :
    Move s.registry t.registry := by
  rw [h]
  exact .same

theorem applyNickChanged_move (oldNick newNick : Str) :
    Move s.registry (applyNickChanged s oldNick newNick).registry := by
  apply move_withNick
  intro old
  apply move_withNick
  intro new
  split
  · exact .same
  · split
    · next registry hok => exact .changeNick old new hok
    · exact .same

theorem applyUserQuit_move (nickname : Str) :
    Move s.registry (applyUserQuit s nickname).registry := by
  apply move_withNick
  intro nick
  split
  · exact .same
  · exact .removeByConnection _

theorem applyUserMigrated_move (nickname : Str) :
    Move s.registry (applyUserMigrated s nickname).registry := by
  apply move_withNick
  intro nick
  split
  · exact .same
  · exact .removeByConnection _

theorem applyUserRegistered_cases (now : ℕ) (connectionId : ConnId)
    (nickname username realname hostname : Str) (signonTime : ℕ) :
    ((applyUserRegistered s now connectionId nickname username realname hostname
        signonTime).registry = s.registry ∧
      ∀ nick, Nickname.new nickname = .ok nick → s.registry.nickInUse nick = true) ∨
    ∃ nick, Nickname.new nickname = .ok nick ∧ s.registry.nickInUse nick = false ∧
      s.registry.register
        (remoteSession now connectionId nick username realname hostname signonTime) =
        .ok (applyUserRegistered s now connectionId nickname username realname hostname
          signonTime).registry := by
  unfold applyUserRegistered withNick
  cases hnick : Nickname.new nickname with
  | error e =>
    refine .inl ⟨rfl, ?_⟩
    rintro nick ⟨⟩
  | ok nick =>
    dsimp only
    cases hin : s.registry.nickInUse nick with
    | true =>
      refine .inl ⟨rfl, ?_⟩
      rintro _ ⟨⟩
      exact hin
    | false =>
      refine .inr ⟨nick, rfl, hin, ?_⟩
      rw [if_neg Bool.false_ne_true, UserRegistry.register_of_free hin]

theorem applyCommand_move (now : ℕ) {command : ClusterCommand}
    (h : ∀ c nick user real host time home,
      command ≠ .userRegistered c nick user real host time home) :
    Move s.registry (applyCommand now s command).registry := by
  cases command with
  | userRegistered => exact absurd rfl (h _ _ _ _ _ _ _)
  | nickChanged oldNick newNick => exact applyNickChanged_move oldNick newNick
  | userQuit nickname => exact applyUserQuit_move nickname
  | userKilled nickname => exact applyUserQuit_move nickname
  | userAway =>
    exact move_withNick fun nick => .write nick _ (fun _ => rfl) fun _ => rfl
  | userModeChanged =>
    exact move_withNick fun nick => .write nick _ (fun _ => rfl) fun _ => rfl
  | operGranted =>
    exact move_withNick fun nick => .write nick _ (fun _ => rfl) fun _ => rfl
  | channelJoined => exact move_of_eq (registry_applyChannelJoined ..)
  | channelParted => exact move_of_eq (registry_applyChannelParted ..)
  | userKicked => exact move_of_eq (registry_applyChannelParted ..)
  | userMigrated nickname => exact applyUserMigrated_move nickname
  | topicSet => exact move_of_eq (registry_withChannel fun _ => rfl)
  | channelModeChanged => exact move_of_eq (registry_withChannel fun _ => rfl)
  | banAdded => exact move_of_eq (registry_withChannel fun _ => rfl)
  | banRemoved => exact move_of_eq (registry_withChannel fun _ => rfl)
  | inviteAdded =>
    apply move_withNick
    intro nick
    exact move_of_eq (registry_withChannel fun _ => rfl)
  | serverAdded => exact .same
  | serverRemoved => exact .same
  | noop => exact .same

end Commands

/-! ## Runs -/

/-- **The calls of the two writers**: the handlers register the session of a connection, change a
nickname or remove a connection, and the commit consumer applies a command. -/
inductive RegistryCall
  | register (session : UserSession)
  | changeNick (old new : Nickname)
  | removeByConnection (c : ConnId)
  | committed (e : Commit)

/-- The registries of a node, with the ids that its handlers have registered. -/
structure SharedRegistry where
  server : ServerState := {}
  localIds : List ConnId := []

namespace SharedRegistry

def step (r : SharedRegistry) : RegistryCall → SharedRegistry
  | .register session =>
    match r.server.registry.register session with
    | .ok registry =>
      { server := { r.server with registry := registry }
        localIds := session.connectionId :: r.localIds }
    | .error _ => r
  | .changeNick old new =>
    match r.server.registry.changeNick old new with
    | .ok registry => { r with server := { r.server with registry := registry } }
    | .error _ => r
  | .removeByConnection c =>
    { r with server := { r.server with registry := (r.server.registry.removeByConnection c).2 } }
  | .committed e => { r with server := applyCommand e.now r.server e.command }

def enabled (r : SharedRegistry) : RegistryCall → Prop
  | .register session => session.connectionId ∉ r.localIds
  | _ => True

/-- The call registers no session under an id that is taken. -/
def freshId (r : SharedRegistry) : RegistryCall → Bool
  | .register session =>
    r.server.registry.nickInUse session.nickname ||
      !r.server.registry.byConnection.contains session.connectionId
  | .committed ⟨.userRegistered connectionId nickname _ _ _ _ _, _⟩ =>
    match Nickname.new nickname with
    | .ok nick =>
      r.server.registry.nickInUse nick || !r.server.registry.byConnection.contains connectionId
    | .error _ => true
  | _ => true

end SharedRegistry

def sharedSystem : System SharedRegistry RegistryCall where
  enabled := SharedRegistry.enabled
  step := SharedRegistry.step

instance (r : SharedRegistry) (e : RegistryCall) : Decidable (sharedSystem.enabled r e) := by
  unfold sharedSystem SharedRegistry.enabled
  dsimp only
  split <;> infer_instance

section Steps

open UserRegistry

variable {r : SharedRegistry}

theorem step_cases (r : SharedRegistry) (e : RegistryCall) :
    (Move r.server.registry (r.step e).server.registry ∧ r.freshId e = true) ∨
    ∃ session, r.server.registry.register session = .ok (r.step e).server.registry ∧
      (r.freshId e = true ↔ r.server.registry.byConnection.get session.connectionId = none) := by
  -- the id is all that counts once the nickname is free
  have hfresh : ∀ {nick : Nickname} (c : ConnId), r.server.registry.nickInUse nick = false →
      ((r.server.registry.nickInUse nick || !r.server.registry.byConnection.contains c) = true ↔
        r.server.registry.byConnection.get c = none) := by
    intro nick c hfree
    rw [hfree, Bool.false_or, Bool.not_eq_true', FoldMap.contains_eq_false]
  cases e with
  | register session =>
    dsimp only [SharedRegistry.step, SharedRegistry.freshId]
    cases hin : r.server.registry.nickInUse session.nickname with
    | true =>
      rw [register_of_taken hin]
      exact .inl ⟨.same, rfl⟩
    | false =>
      rw [← hin, register_of_free hin]
      exact .inr ⟨session, register_of_free hin, hfresh _ hin⟩
  | changeNick old new =>
    refine .inl ⟨?_, rfl⟩
    dsimp only [SharedRegistry.step]
    split
    · next registry hok => exact .changeNick old new hok
    · exact .same
  | removeByConnection c => exact .inl ⟨.removeByConnection c, rfl⟩
  | committed e =>
    obtain ⟨command, now⟩ := e
    cases command with
    | userRegistered connectionId nickname username realname hostname signonTime homeNode =>
      obtain ⟨heq, htaken⟩ | ⟨nick, hnick, hin, hok⟩ := applyUserRegistered_cases (s := r.server)
        now connectionId nickname username realname hostname signonTime
      · refine .inl ⟨move_of_eq heq, ?_⟩
        dsimp only [SharedRegistry.freshId]
        cases hnick : Nickname.new nickname with
        | ok nick => simp [htaken nick hnick]
        | error e => rfl
      · refine .inr ⟨_, hok, ?_⟩
        dsimp only [SharedRegistry.freshId]
        rw [hnick]
        exact hfresh connectionId hin
    | _ => exact .inl ⟨applyCommand_move now (by simp), rfl⟩

theorem step_named (h : r.server.registry.Named) (e : RegistryCall) :
    (r.step e).server.registry.Named := by
  obtain ⟨hmove, -⟩ | ⟨session, hok, -⟩ := step_cases r e
  · exact hmove.named h
  · exact Named.register h hok

/-- **A call keeps the maps inverse exactly if it registers nobody under an id that is taken.** -/
theorem step_inverse_iff (hnamed : r.server.registry.Named) (hinv : r.server.registry.Inverse)
    (e : RegistryCall) : (r.step e).server.registry.Inverse ↔ r.freshId e = true := by
  obtain ⟨hmove, hfresh⟩ | ⟨session, hok, hfresh⟩ := step_cases r e
  · exact iff_of_true (hmove.inverse hnamed hinv) hfresh
  · rw [hfresh]
    exact hinv.register_iff hnamed hok

end Steps

/-- **Inverse maps.** In a run of the calls of handlers and commit consumer from an empty registry,
the two maps are inverse in every state exactly when every registration is under an id that is
free. -/
theorem inverse_iff {es : List RegistryCall} (h : sharedSystem.Legal System.Free {} es) :
    (∀ n, (sharedSystem.exec {} (es.take n)).server.registry.Inverse) ↔
      sharedSystem.Legal (fun r e => r.freshId e = true) {} es := by
  apply System.forall_take_iff_of_step (I := fun r => r.server.registry.Named)
    (P := fun r => r.server.registry.Inverse)
    (fun _ e _ hnamed => step_named hnamed e)
    (fun _ e _ hnamed hinv => step_inverse_iff hnamed hinv e) h
  · intro i session hi
    cases hi
  · exact UserRegistry.Consistent.empty.inverse rfl

section Runs

def localSession (c : ConnId) (nick : Nickname) : UserSession where
  connectionId := c
  nickname := nick
  username := nick.name
  realname := nick.name
  hostname := "localhost".toList
  signonTime := 0
  lastActive := 0

/-- A local user and one of another node register under different ids, change their nicknames and
leave. -/
def distinctIds : List RegistryCall :=
  [.register (localSession 1 alice), .committed (registered 2 "bob"), .changeNick alice carol,
    .committed ⟨.userQuit "bob" none, 0⟩, .removeByConnection 1]

/-- A user of another node has the id that the next local connection gets. -/
def collidingIds : List RegistryCall :=
  [.committed (registered 1 "bob"), .register (localSession 1 alice)]

/-- The run of two users with different ids. -/
theorem inverse_iff_distinctIds :
    sharedSystem.Legal System.Free {} distinctIds ∧
      ∀ n, (sharedSystem.exec {} (distinctIds.take n)).server.registry.Inverse := by
  have hlegal : sharedSystem.Legal System.Free {} distinctIds := by decide +kernel
  exact ⟨hlegal, (inverse_iff hlegal).mpr (by decide +kernel)⟩

/-- **One id, two users**: the session of `bob` has the id 1, which leads to `alice`. -/
theorem colliding_ids_not_inverse :
    sharedSystem.Legal System.Free {} collidingIds ∧
      ¬ (sharedSystem.exec {} collidingIds).server.registry.Inverse := by
  have hlegal : sharedSystem.Legal System.Free {} collidingIds := by decide +kernel
  refine ⟨hlegal, ?_⟩
  intro hinv
  have hbob : ((sharedSystem.exec {} collidingIds).server.registry.byNick.get bob).map
      UserSession.connectionId = some 1 := by decide +kernel
  obtain ⟨nick, hnick, hfold⟩ := (hinv.inverse 1 bob).mpr (Option.map_eq_some_iff.mp hbob)
  have halice : ((sharedSystem.exec {} collidingIds).server.registry.byConnection.get 1).map
      Nickname.fold = some alice.fold := by decide +kernel
  rw [hnick, Option.map_some, hfold] at halice
  exact absurd halice (by decide)

end Runs

end Pirc.Server
