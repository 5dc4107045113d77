import Pirc.Lib.Run
import Pirc.Lib.Threads
import Pirc.Server.Registry

/-!
# Server: concurrent calls on the user registry

The operations of `registry.rs`, one map access at a time. Each connection has a handler of its own,
which issues one call after another; the accesses of different handlers interleave. A session is
shared behind a pointer, which is the id of its connection here.

`register` finds a nickname free and takes it in one access. `change_nick` looks whether the new
nickname is free in one access and takes it in a later one, without looking again.
-/

namespace Pirc.Server

open Protocol

/-! ## Accesses -/

/-- **What the handlers share**: the two maps, the nickname in each session and the count. -/
structure RegistryMaps where
  byNick : FoldMap Nickname.fold ConnId := ∅
  byConnection : FoldMap (fun c : ConnId => c) Nickname := ∅
  sessions : ConnId → Option Nickname := fun _ => none
  connectionCount : ℕ := 0

inductive CallResult
  | registered
  | registerFailed (e : UserError)
  | renamed
  | renameFailed (e : UserError)
  | removed (found : Bool)
  deriving DecidableEq

/-- The access that a call makes next. A handler between calls knows what the last one returned. -/
inductive CallPhase
  | idle (last : Option CallResult)
  -- `register`
  | entering (nick : Nickname)
  | linking (nick : Nickname)
  | counting
  -- `remove_by_connection`
  | unlinking
  | leaving (nick : Nickname)
  | uncounting
  -- `change_nick` to another casing
  | finding (old new : Nickname)
  | recasing (session : ConnId) (new : Nickname)
  -- `change_nick` to another nickname
  | checking (old new : Nickname)
  | taking (old new : Nickname)
  | rewriting (session : ConnId) (new : Nickname)
  | relinking (session : ConnId) (new : Nickname)
  | placing (session : ConnId) (new : Nickname)
  deriving DecidableEq

namespace RegistryMaps

def rename (s : RegistryMaps) (session : ConnId) (nick : Nickname) : RegistryMaps :=
  { s with sessions := Function.update s.sessions session (some nick) }

/-- **The next access** of the call of a connection. -/
def access (s : RegistryMaps) (c : ConnId) : CallPhase → RegistryMaps × CallPhase
  | .idle last => (s, .idle last)
  | .entering nick =>
    -- the entry of the map is locked from the look to the insertion
    if s.byNick.contains nick then (s, .idle (some (.registerFailed (.nickInUse nick.name))))
    else ({ s.rename c nick with byNick := s.byNick.insert nick c }, .linking nick)
  | .linking nick => ({ s with byConnection := s.byConnection.insert c nick }, .counting)
  | .counting => ({ s with connectionCount := s.connectionCount + 1 }, .idle (some .registered))
  | .unlinking =>
    match s.byConnection.get c with
    | none => (s, .idle (some (.removed false)))
    | some nick => ({ s with byConnection := s.byConnection.remove c }, .leaving nick)
  | .leaving nick =>
    match s.byNick.get nick with
    | none => (s, .idle (some (.removed false)))
    | some _ => ({ s with byNick := s.byNick.remove nick }, .uncounting)
  | .uncounting =>
    ({ s with connectionCount := s.connectionCount - 1 }, .idle (some (.removed true)))
  | .finding old new =>
    match s.byNick.get old with
    | none => (s, .idle (some .renamed))
    | some session => (s, .recasing session new)
  | .recasing session new => (s.rename session new, .idle (some .renamed))
  | .checking old new =>
    if s.byNick.contains new then (s, .idle (some (.renameFailed (.nickInUse new.name))))
    else (s, .taking old new)
  | .taking old new =>
    match s.byNick.get old with
    | none => (s, .idle (some (.renameFailed (.notFound old.name))))
    | some session => ({ s with byNick := s.byNick.remove old }, .rewriting session new)
  | .rewriting session new => (s.rename session new, .relinking session new)
  | .relinking session new =>
    ({ s with byConnection := s.byConnection.insert session new }, .placing session new)
  | .placing session new =>
    ({ s with byNick := s.byNick.insert new session }, .idle (some .renamed))

end RegistryMaps

/-! ## Runs -/

inductive HandlerCall
  | register (nick : Nickname)
  | changeNick (new : Nickname)
  | removeByConnection
  deriving DecidableEq

inductive RaceEvent
  | start (c : ConnId) (call : HandlerCall)
  | access (c : ConnId)
  deriving DecidableEq

def CallResult.isRegistered : Option CallResult → Bool
  | some .registered | some .renamed | some (.renameFailed _) => true
  | some (.registerFailed _) | some (.removed _) | none => false

abbrev Race := Threads ConnId RegistryMaps CallPhase

namespace Race

def firstPhase (s : RegistryMaps) (c : ConnId) : HandlerCall → CallPhase
  | .register nick => .entering nick
  | .removeByConnection => .unlinking
  | .changeNick new =>
    match s.sessions c with
    | some old => if old.fold = new.fold then .finding old new else .checking old new
    | none => .idle none

def step (w : Race) : RaceEvent → Race
  | .start c call => w.advance c w.shared (firstPhase w.shared c call)
  | .access c =>
    let (s, p) := w.shared.access c (w.phase c)
    w.advance c s p

def enabled (w : Race) : RaceEvent → Bool
  | .start c call =>
    match w.phase c, call with
    | .idle last, .register _ => !CallResult.isRegistered last
    | .idle last, .changeNick _ => CallResult.isRegistered last
    | .idle _, .removeByConnection => true
    | _, _ => false
  | .access c =>
    match w.phase c with
    | .idle _ => false
    | _ => true

/-- **`change_nick` takes a nickname that is free** when it takes it. -/
def takesFree (w : Race) : RaceEvent → Bool
  | .start _ _ => true
  | .access c =>
    match w.phase c with
    | .placing _ new => !w.shared.byNick.contains new
    | _ => true

end Race

def racingSystem : System Race RaceEvent where
  enabled w e := w.enabled e = true
  step := Race.step

instance (w : Race) (e : RaceEvent) : Decidable (racingSystem.enabled w e) :=
  inferInstanceAs (Decidable (w.enabled e = true))

def quiet : Race := ⟨{}, fun _ => .idle none⟩

/-- **Sessions whose last call succeeded are found under their nicknames.** -/
def Reachable (w : Race) : Prop :=
  ∀ c, w.phase c = .idle (some .registered) ∨ w.phase c = .idle (some .renamed) →
    ∃ nick, w.shared.sessions c = some nick ∧ w.shared.byNick.get nick = some c

/-! ## Interference -/

/-- The session of a connection stands at these places: under the nickname in one map, and with that
nickname in the other. -/
structure Held (s : RegistryMaps) (c : ConnId) (place link : Option Str) : Prop where
  place (i : Str) : s.byNick.lookup i = some c ↔ place = some i
  link : (s.byConnection.lookup c).map Nickname.fold = link

/-- **What a connection relies on**, in each phase of its call. -/
def Well (s : RegistryMaps) (c : ConnId) : CallPhase → Prop
  | .idle last =>
    if CallResult.isRegistered last then
      ∃ nick, s.sessions c = some nick ∧ Held s c (some nick.fold) (some nick.fold)
    else Held s c none none
  | .entering _ => Held s c none none
  | .linking nick => s.sessions c = some nick ∧ Held s c (some nick.fold) none
  | .counting => ∃ nick, s.sessions c = some nick ∧ Held s c (some nick.fold) (some nick.fold)
  | .unlinking => ∃ i, Held s c i i
  | .leaving nick => Held s c (some nick.fold) none
  | .uncounting => Held s c none none
  | .finding old new =>
    old.fold = new.fold ∧ s.sessions c = some old ∧ Held s c (some old.fold) (some old.fold)
  | .recasing session new => session = c ∧ Held s c (some new.fold) (some new.fold)
  | .checking old _ | .taking old _ =>
    s.sessions c = some old ∧ Held s c (some old.fold) (some old.fold)
  | .rewriting session _ => session = c ∧ ∃ link, Held s c none link
  | .relinking session new =>
    session = c ∧ s.sessions c = some new ∧ ∃ link, Held s c none link
  | .placing session new =>
    session = c ∧ s.sessions c = some new ∧ Held s c none (some new.fold)

section Interference

variable {s s' : RegistryMaps} {c d : ConnId} {place link : Option Str}

theorem Held.congr (h : Held s c place link)
    (hnick : ∀ i, s'.byNick.lookup i = some c ↔ s.byNick.lookup i = some c)
    (hlink : s'.byConnection.lookup c = s.byConnection.lookup c) : Held s' c place link where
  place i := (hnick i).trans (h.place i)
  link := by
    rw [hlink]
    exact h.link

/-- **A connection that is left alone stays well.** -/
theorem Well.congr {p : CallPhase} (h : Well s c p)
    (hnick : ∀ i, s'.byNick.lookup i = some c ↔ s.byNick.lookup i = some c)
    (hlink : s'.byConnection.lookup c = s.byConnection.lookup c)
    (hsession : s'.sessions c = s.sessions c) : Well s' c p := by
  have hheld : ∀ {place link}, Held s c place link → Held s' c place link := by
    intro place link hh
    exact hh.congr hnick hlink
  cases p with
  | idle last =>
    dsimp only [Well] at h ⊢
    rw [hsession]
    split_ifs at h ⊢ with hreg
    · obtain ⟨nick, hs, hh⟩ := h
      exact ⟨nick, hs, hheld hh⟩
    · exact hheld h
  | entering => exact hheld h
  | linking => exact ⟨hsession.trans h.1, hheld h.2⟩
  | counting =>
    obtain ⟨nick, hs, hh⟩ := h
    exact ⟨nick, hsession.trans hs, hheld hh⟩
  | unlinking =>
    obtain ⟨i, hh⟩ := h
    exact ⟨i, hheld hh⟩
  | leaving => exact hheld h
  | uncounting => exact hheld h
  | finding => exact ⟨h.1, hsession.trans h.2.1, hheld h.2.2⟩
  | recasing => exact ⟨h.1, hheld h.2⟩
  | checking => exact ⟨hsession.trans h.1, hheld h.2⟩
  | taking => exact ⟨hsession.trans h.1, hheld h.2⟩
  | rewriting =>
    obtain ⟨hc, link, hh⟩ := h
    exact ⟨hc, link, hheld hh⟩
  | relinking =>
    obtain ⟨hc, hs, link, hh⟩ := h
    exact ⟨hc, hsession.trans hs, link, hheld hh⟩
  | placing => exact ⟨h.1, hsession.trans h.2.1, hheld h.2.2⟩

theorem Held.insert (h : Held s c none link) (nick : Nickname) :
    Held { s with byNick := s.byNick.insert nick c } c (some nick.fold) link where
  place i := by
    rw [FoldMap.lookup_insert]
    split_ifs with hi
    · simp [hi]
    · simp [hi, h.place i]
  link := h.link

theorem Held.remove {nick : Nickname} (h : Held s c (some nick.fold) link) :
    Held { s with byNick := s.byNick.remove nick } c none link where
  place i := by
    rw [FoldMap.lookup_remove]
    split_ifs with hi
    · simp
    · rw [h.place i]
      simp [hi]
  link := h.link

theorem Held.relink (h : Held s c place link) (nick : Nickname) :
    Held { s with byConnection := s.byConnection.insert c nick } c place (some nick.fold) where
  place := h.place
  link := by
    rw [FoldMap.lookup_insert, if_pos rfl]
    rfl

theorem Held.unlink (h : Held s c place link) :
    Held { s with byConnection := s.byConnection.remove c } c place none where
  place := h.place
  link := by
    rw [FoldMap.lookup_remove, if_pos rfl]
    rfl

theorem Held.get_eq {nick : Nickname} (h : Held s c (some nick.fold) link) :
    s.byNick.get nick = some c :=
  (h.place nick.fold).mpr rfl

theorem lookup_insert_eq_some_iff {nick : Nickname} (hfree : s.byNick.get nick = none) (hne : d ≠ c)
    (i : Str) : (s.byNick.insert nick c).lookup i = some d ↔ s.byNick.lookup i = some d := by
  rw [FoldMap.lookup_insert]
  split_ifs with hi
  · rw [← hi, ← FoldMap.get, hfree]
    simp [Ne.symm hne]
  · rfl

theorem lookup_remove_eq_some_iff {nick : Nickname} (hown : s.byNick.get nick = some c)
    (hne : d ≠ c) (i : Str) :
    (s.byNick.remove nick).lookup i = some d ↔ s.byNick.lookup i = some d := by
  rw [FoldMap.lookup_remove]
  split_ifs with hi
  · rw [← hi, ← FoldMap.get, hown]
    simp [Ne.symm hne]
  · rfl

@[simp] theorem sessions_rename_self (nick : Nickname) : (s.rename c nick).sessions c = some nick :=
  Function.update_self ..

theorem sessions_rename_of_ne (hne : d ≠ c) (nick : Nickname) :
    (s.rename c nick).sessions d = s.sessions d :=
  Function.update_of_ne hne ..

/-- **An access keeps its own connection well**, and touches nothing of another one unless it
overwrites a session. -/
theorem access_well {p : CallPhase} (h : Well s c p)
    (hfree : ∀ session new, p = .placing session new → s.byNick.get new = none) :
    Well (s.access c p).1 c (s.access c p).2 ∧
      ∀ d q, d ≠ c → Well s d q → Well (s.access c p).1 d q := by
  cases p with
  | idle last => exact ⟨h, fun d q _ hq => hq⟩
  | entering nick =>
    dsimp only [RegistryMaps.access]
    split_ifs with hin
    · exact ⟨h, fun d q _ hq => hq⟩
    · have hvacant : s.byNick.get nick = none := FoldMap.contains_eq_false.mp (by simpa using hin)
      refine ⟨⟨sessions_rename_self nick, Held.insert (s := s.rename c nick) ⟨h.place, h.link⟩ nick⟩, ?_⟩
      intro d q hne hq
      exact hq.congr (lookup_insert_eq_some_iff hvacant hne) rfl (sessions_rename_of_ne hne nick)
  | linking nick =>
    refine ⟨⟨nick, h.1, h.2.relink nick⟩, ?_⟩
    intro d q hne hq
    refine hq.congr (fun _ => Iff.rfl) ?_ rfl
    dsimp only [RegistryMaps.access]
    rw [FoldMap.lookup_insert, if_neg (Ne.symm hne)]
  | counting =>
    obtain ⟨nick, hs, hh⟩ := h
    exact ⟨⟨nick, hs, ⟨hh.place, hh.link⟩⟩,
      fun d q _ hq => hq.congr (fun _ => Iff.rfl) rfl rfl⟩
  | unlinking =>
    obtain ⟨i, hh⟩ := h
    dsimp only [RegistryMaps.access]
    have hlink := hh.link
    cases hget : s.byConnection.get c with
    | none =>
      rw [FoldMap.get] at hget
      rw [hget] at hlink
      subst hlink
      exact ⟨hh, fun d q _ hq => hq⟩
    | some nick =>
      rw [FoldMap.get] at hget
      rw [hget] at hlink
      subst hlink
      refine ⟨hh.unlink, ?_⟩
      intro d q hne hq
      refine hq.congr (fun _ => Iff.rfl) ?_ rfl
      dsimp only
      rw [FoldMap.lookup_remove, if_neg (Ne.symm hne)]
  | leaving nick =>
    dsimp only [RegistryMaps.access]
    rw [Held.get_eq h]
    exact ⟨h.remove, fun d q hne hq =>
      hq.congr (lookup_remove_eq_some_iff (Held.get_eq h) hne) rfl rfl⟩
  | uncounting =>
    exact ⟨⟨h.place, h.link⟩, fun d q _ hq => hq.congr (fun _ => Iff.rfl) rfl rfl⟩
  | finding old new =>
    obtain ⟨hfold, hs, hh⟩ := h
    dsimp only [RegistryMaps.access]
    rw [hh.get_eq]
    rw [hfold] at hh
    exact ⟨⟨rfl, hh⟩, fun d q _ hq => hq⟩
  | recasing session new =>
    obtain ⟨rfl, hh⟩ := h
    exact ⟨⟨new, sessions_rename_self new, ⟨hh.place, hh.link⟩⟩, fun d q hne hq =>
      hq.congr (fun _ => Iff.rfl) rfl (sessions_rename_of_ne hne new)⟩
  | checking old new =>
    obtain ⟨hs, hh⟩ := h
    dsimp only [RegistryMaps.access]
    split_ifs with hin
    · exact ⟨⟨old, hs, hh⟩, fun d q _ hq => hq⟩
    · exact ⟨⟨hs, hh⟩, fun d q _ hq => hq⟩
  | taking old new =>
    obtain ⟨hs, hh⟩ := h
    dsimp only [RegistryMaps.access]
    rw [hh.get_eq]
    exact ⟨⟨rfl, _, hh.remove⟩, fun d q hne hq =>
      hq.congr (lookup_remove_eq_some_iff hh.get_eq hne) rfl rfl⟩
  | rewriting session new =>
    obtain ⟨rfl, link, hh⟩ := h
    exact ⟨⟨rfl, sessions_rename_self new, link, ⟨hh.place, hh.link⟩⟩, fun d q hne hq =>
      hq.congr (fun _ => Iff.rfl) rfl (sessions_rename_of_ne hne new)⟩
  | relinking session new =>
    obtain ⟨rfl, hs, link, hh⟩ := h
    refine ⟨⟨rfl, hs, hh.relink new⟩, ?_⟩
    intro d q hne hq
    refine hq.congr (fun _ => Iff.rfl) ?_ rfl
    dsimp only [RegistryMaps.access]
    rw [FoldMap.lookup_insert, if_neg (Ne.symm hne)]
  | placing session new =>
    obtain ⟨rfl, hs, hh⟩ := h
    have hvacant := hfree session new rfl
    exact ⟨⟨new, hs, hh.insert new⟩, fun d q hne hq =>
      hq.congr (lookup_insert_eq_some_iff hvacant hne) rfl rfl⟩

end Interference

/-! ## No session is lost -/

def Race.AllWell (w : Race) : Prop := ∀ c, Well w.shared c (w.phase c)

theorem Race.allWell_quiet : quiet.AllWell := by
  intro c
  constructor
  · intro i
    simp [quiet]
  · rfl

theorem Race.well_firstPhase {w : Race} {c : ConnId} {call : HandlerCall}
    (h : Well w.shared c (w.phase c)) (henabled : w.enabled (.start c call) = true) :
    Well w.shared c (firstPhase w.shared c call) := by
  dsimp only [Race.enabled] at henabled
  cases hphase : w.phase c with
  | idle last =>
    rw [hphase] at h henabled
    cases call with
    | register nick =>
      have hout : CallResult.isRegistered last = false := by simpa using henabled
      dsimp only [Well] at h
      rw [if_neg (by simp [hout])] at h
      exact h
    | changeNick new =>
      dsimp only [Well] at h
      rw [if_pos henabled] at h
      obtain ⟨old, hs, hh⟩ := h
      dsimp only [firstPhase]
      rw [hs]
      dsimp only
      split_ifs with hfold
      · exact ⟨hfold, hs, hh⟩
      · exact ⟨hs, hh⟩
    | removeByConnection =>
      dsimp only [Well] at h
      split_ifs at h
      · obtain ⟨nick, -, hh⟩ := h
        exact ⟨_, hh⟩
      · exact ⟨_, h⟩
  | _ =>
    rw [hphase] at henabled
    cases henabled

/-- **A step that overwrites no session keeps every connection well.** -/
theorem Race.step_allWell {w : Race} {e : RaceEvent} (h : w.AllWell) (henabled : w.enabled e = true)
    (hfree : w.takesFree e = true) : (w.step e).AllWell := by
  cases e with
  | start c call =>
    exact Threads.forall_advance (W := Well) (well_firstPhase (h c) henabled) fun d _ => h d
  | access c =>
    have hplacing : ∀ session new, w.phase c = .placing session new →
        w.shared.byNick.get new = none := by
      intro session new hphase
      dsimp only [takesFree] at hfree
      rw [hphase] at hfree
      exact FoldMap.contains_eq_false.mp (by simpa using hfree)
    obtain ⟨hown, hothers⟩ := access_well (h c) hplacing
    exact Threads.forall_advance (W := Well) hown fun d hne => hothers d _ hne (h d)

theorem Race.AllWell.reachable {w : Race} (h : w.AllWell) : Reachable w := by
  intro c hphase
  have hc := h c
  rcases hphase with hphase | hphase
  all_goals
    rw [hphase] at hc
    obtain ⟨nick, hs, hh⟩ := hc
    exact ⟨nick, hs, hh.get_eq⟩

/-- **No session is lost** in a run where every nickname that `change_nick` takes is free when it
takes it, whatever the order of the accesses. -/
theorem reachable_of_free {es : List RaceEvent}
    (h : racingSystem.Legal (fun w e => w.takesFree e = true) quiet es) (n : ℕ) :
    Reachable (racingSystem.exec quiet (es.take n)) := by
  have hrun := (h.steps_take (Nat.zero_le n)).2
  have hwell : (racingSystem.exec quiet (es.take n)).AllWell :=
    hrun.invariant (I := Race.AllWell) (fun w e henabled hfree hw =>
      Race.step_allWell hw henabled hfree) Race.allWell_quiet
  exact hwell.reachable

section Runs

/-- The accesses of one connection, some number of them in a row. -/
def accesses (c : ConnId) (n : ℕ) : List RaceEvent := List.replicate n (.access c)

/-- `alice` is refused the nickname of a user who is still registering, and while she changes to
`carol` another user takes the nickname that she has left. -/
def registersAfter : List RaceEvent :=
  .start 1 (.register alice) :: accesses 1 3 ++ .start 2 (.register bob) :: accesses 2 1 ++
    .start 1 (.changeNick bob) :: accesses 1 1 ++ accesses 2 2 ++
    .start 1 (.changeNick carol) :: accesses 1 2 ++ .start 3 (.register alice) :: accesses 3 3 ++
    accesses 1 3

/-- `alice` has looked whether `bob` is free, and before she takes the nickname another user
registers it. -/
def registersBetween : List RaceEvent :=
  .start 1 (.register alice) :: accesses 1 3 ++ .start 1 (.changeNick bob) :: accesses 1 1 ++
    .start 2 (.register bob) :: accesses 2 3 ++ accesses 1 4

/-- A run with calls between the accesses of others, where no nickname is taken twice. -/
theorem reachable_of_free_registersAfter :
    racingSystem.Legal (fun w e => w.takesFree e = true) quiet registersAfter ∧
      Reachable (racingSystem.exec quiet (registersAfter.take 21)) := by
  have hlegal : racingSystem.Legal (fun w e => w.takesFree e = true) quiet registersAfter := by
    decide +kernel
  exact ⟨hlegal, reachable_of_free hlegal 21⟩

/-- **An overwritten session**: both calls succeed and finish, and the session of connection 2 is
found under no nickname. -/
theorem registered_session_overwritten :
    racingSystem.Legal System.Free quiet registersBetween ∧
      (racingSystem.exec quiet registersBetween).phase 1 = .idle (some .renamed) ∧
      (racingSystem.exec quiet registersBetween).phase 2 = .idle (some .registered) ∧
      ¬ Reachable (racingSystem.exec quiet registersBetween) := by
  have hphase : (racingSystem.exec quiet registersBetween).phase 2 = .idle (some .registered) := by
    decide +kernel
  refine ⟨by decide +kernel, by decide +kernel, hphase, ?_⟩
  intro hreach
  obtain ⟨nick, hsession, hget⟩ := hreach 2 (.inl hphase)
  have hbob : (racingSystem.exec quiet registersBetween).shared.sessions 2 = some bob := by
    decide +kernel
  rw [hbob] at hsession
  obtain rfl := Option.some_inj.mp hsession
  have hother : (racingSystem.exec quiet registersBetween).shared.byNick.get bob = some 1 := by
    decide +kernel
  rw [hother] at hget
  exact absurd hget (by decide)

end Runs

end Pirc.Server
