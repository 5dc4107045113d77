import Mathlib.Data.Finset.Insert
import Mathlib.Data.Fintype.Basic
import Pirc.Lib.FoldMap
import Pirc.Protocol.Message

/-!
# Server: the user registry

`registry.rs` and `user.rs`: the sessions of the registered users, by nickname and by connection.
Nicknames are compared without regard to the case of ASCII letters.

## Main results

* `UserRegistry.Consistent.register`, `.changeNick`, `.removeByConnection`: the operations keep the
  registry consistent
-/

namespace Pirc.Protocol

def lowercase (s : Str) : Str := s.map Char.toLower

def Nickname.fold (nick : Nickname) : Str := lowercase nick.name

end Pirc.Protocol

namespace Pirc.Server

open Protocol

/-- A connection of this process. The ids are counted up and never used twice. -/
abbrev ConnId := ℕ

/-- What the clocks show: seconds since the epoch, and nanoseconds of the monotonic clock. -/
structure Clock where
  unix : ℕ
  instant : ℕ

inductive UserMode
  | normal | voiced | operator | admin
  deriving DecidableEq

def UserMode.modeChar : UserMode → Option Char
  | voiced => some 'v'
  | operator => some 'o'
  | normal | admin => none

/-- A registered user's session. Its sender queues messages to the connection `connectionId`. -/
structure UserSession where
  connectionId : ConnId
  nickname : Nickname
  username : Str
  realname : Str
  hostname : Str
  modes : Finset UserMode := ∅
  awayMessage : Option Str := none
  signonTime : ℕ
  lastActive : ℕ

inductive UserError
  | nickInUse (nick : Str)
  | notFound (nick : Str)
  deriving DecidableEq

/-- Sessions by nickname, nicknames by connection, and their number. -/
structure UserRegistry where
  byNick : FoldMap Nickname.fold UserSession := ∅
  byConnection : FoldMap (fun c : ConnId => c) Nickname := ∅
  connectionCount : ℕ := 0

namespace UserRegistry

/-- A new session, if its nickname is free. -/
def register (r : UserRegistry) (session : UserSession) : Except UserError UserRegistry :=
  if r.byNick.contains session.nickname then .error (.nickInUse session.nickname.name)
  else
    .ok {
      byNick := r.byNick.insert session.nickname session
      byConnection := r.byConnection.insert session.connectionId session.nickname
      connectionCount := r.connectionCount + 1 }

/-- The session of a connection goes. -/
def removeByConnection (r : UserRegistry) (c : ConnId) : Option UserSession × UserRegistry :=
  match r.byConnection.get c with
  | none => (none, r)
  | some nick =>
    let r := { r with byConnection := r.byConnection.remove c }
    match r.byNick.get nick with
    | none => (none, r)
    | some session =>
      (some session,
        { r with byNick := r.byNick.remove nick, connectionCount := r.connectionCount - 1 })

def getByNick (r : UserRegistry) (nick : Nickname) : Option UserSession := r.byNick.get nick

def getByConnection (r : UserRegistry) (c : ConnId) : Option UserSession :=
  (r.byConnection.get c).bind r.byNick.get

def nickInUse (r : UserRegistry) (nick : Nickname) : Bool := r.byNick.contains nick

/-- Another nickname for a session, if it is free. -/
def changeNick (r : UserRegistry) (old new : Nickname) : Except UserError UserRegistry :=
  if old.fold = new.fold then
    .ok { r with byNick := r.byNick.modify old fun session => { session with nickname := new } }
  else if r.byNick.contains new then .error (.nickInUse new.name)
  else
    match r.byNick.get old with
    | none => .error (.notFound old.name)
    | some session =>
      .ok { r with
        byConnection := r.byConnection.insert session.connectionId new
        byNick := (r.byNick.remove old).insert new { session with nickname := new } }

def sessions (r : UserRegistry) : List UserSession := r.byNick.values

def modifySession (r : UserRegistry) (c : ConnId) (f : UserSession → UserSession) : UserRegistry :=
  match r.byConnection.get c with
  | none => r
  | some nick => { r with byNick := r.byNick.modify nick f }

/-! ## Consistency -/

/-- **The two maps say the same.** -/
structure Consistent (r : UserRegistry) : Prop where
  /-- A session stands under its own nickname. -/
  named {i : Str} {session : UserSession} (h : r.byNick.lookup i = some session) :
    session.nickname.fold = i
  /-- The connection of a session leads back to its nickname. -/
  linked {i : Str} {session : UserSession} (h : r.byNick.lookup i = some session) :
    ∃ nick, r.byConnection.lookup session.connectionId = some nick ∧ nick.fold = i
  /-- The nickname of a connection has a session, which is of this connection. -/
  backed {c : ConnId} {nick : Nickname} (h : r.byConnection.lookup c = some nick) :
    ∃ session, r.byNick.get nick = some session ∧ session.connectionId = c

theorem Consistent.empty : Consistent {} := by
  constructor
  · intro i session h
    cases h
  · intro i session h
    cases h
  · intro c nick h
    cases h

section Consistency

variable {r r' : UserRegistry} {c : ConnId} {session : UserSession}

theorem Consistent.getByConnection_eq_some (hr : r.Consistent) :
    r.getByConnection c = some session ↔
      session.connectionId = c ∧ r.byNick.get session.nickname = some session := by
  constructor
  · intro h
    obtain ⟨nick, hnick, hget⟩ := Option.bind_eq_some_iff.mp h
    obtain ⟨session', hget', hconn⟩ := hr.backed hnick
    obtain rfl : session = session' := Option.some_inj.mp (hget.symm.trans hget')
    have hfold : session.nickname.fold = nick.fold := hr.named hget
    refine ⟨hconn, ?_⟩
    rw [FoldMap.get, hfold]
    exact hget
  · rintro ⟨rfl, h⟩
    obtain ⟨nick, hnick, hfold⟩ := hr.linked h
    apply Option.bind_eq_some_iff.mpr
    refine ⟨nick, hnick, ?_⟩
    rw [FoldMap.get, hfold]
    exact h

theorem Consistent.lookup_eq_none (hr : r.Consistent) (h : r.getByConnection c = none) :
    r.byConnection.lookup c = none := by
  by_contra hne
  obtain ⟨nick, hnick⟩ := Option.ne_none_iff_exists'.mp hne
  obtain ⟨session, hsession, -⟩ := hr.backed hnick
  rw [getByConnection, FoldMap.get, hnick] at h
  rw [Option.bind_some, hsession] at h
  cases h

theorem Consistent.connection_inj (hr : r.Consistent) {i j : Str} {session' : UserSession}
    (hi : r.byNick.lookup i = some session) (hj : r.byNick.lookup j = some session')
    (hconn : session.connectionId = session'.connectionId) : i = j := by
  obtain ⟨nick, hnick, rfl⟩ := hr.linked hi
  obtain ⟨nick', hnick', rfl⟩ := hr.linked hj
  rw [hconn, hnick'] at hnick
  obtain rfl := Option.some_inj.mp hnick
  rfl

theorem register_eq_ok (h : r.register session = .ok r') :
    r.byNick.get session.nickname = none ∧
      r' = {
        byNick := r.byNick.insert session.nickname session
        byConnection := r.byConnection.insert session.connectionId session.nickname
        connectionCount := r.connectionCount + 1 } := by
  unfold register at h
  split_ifs at h with hin
  cases h
  exact ⟨FoldMap.contains_eq_false.mp (by simpa using hin), rfl⟩

theorem register_of_free (h : r.nickInUse session.nickname = false) :
    r.register session = .ok {
      byNick := r.byNick.insert session.nickname session
      byConnection := r.byConnection.insert session.connectionId session.nickname
      connectionCount := r.connectionCount + 1 } :=
  if_neg (by rw [← nickInUse, h]; exact Bool.false_ne_true)

theorem register_of_taken (h : r.nickInUse session.nickname = true) :
    r.register session = .error (.nickInUse session.nickname.name) :=
  if_pos h

theorem changeNick_eq_ok {old new : Nickname} (h : r.changeNick old new = .ok r') :
    (old.fold = new.fold ∧
      r' = { r with byNick := r.byNick.modify old fun session => { session with nickname := new } }) ∨
    (old.fold ≠ new.fold ∧ r.byNick.get new = none ∧ ∃ session, r.byNick.get old = some session ∧
      r' = { r with
        byConnection := r.byConnection.insert session.connectionId new
        byNick := (r.byNick.remove old).insert new { session with nickname := new } }) := by
  unfold changeNick at h
  split_ifs at h with hfold hin
  · cases h
    exact .inl ⟨hfold, rfl⟩
  · have hfree : r.byNick.get new = none := FoldMap.contains_eq_false.mp (by simpa using hin)
    split at h
    · cases h
    · next session hold =>
      cases h
      exact .inr ⟨hfold, hfree, session, hold, rfl⟩

theorem changeNick_eq_error {old new : Nickname} {e : UserError}
    (h : r.changeNick old new = .error e) :
    r.nickInUse new = true ∨ r.byNick.get old = none := by
  unfold changeNick at h
  split_ifs at h with hfold hin
  · exact .inl hin
  · split at h
    · next hnone => exact .inr hnone
    · cases h

theorem Consistent.register (hr : r.Consistent) (h : r.register session = .ok r')
    (hfresh : r.byConnection.lookup session.connectionId = none) : r'.Consistent := by
  obtain ⟨hfree, rfl⟩ := register_eq_ok h
  constructor
  · intro i other hi
    rw [FoldMap.lookup_insert] at hi
    split_ifs at hi with hfold
    · cases hi
      exact hfold
    · exact hr.named hi
  · intro i other hi
    rw [FoldMap.lookup_insert] at hi
    split_ifs at hi with hfold
    · cases hi
      exact ⟨session.nickname, FoldMap.get_insert_self .., hfold⟩
    · obtain ⟨nick, hnick, rfl⟩ := hr.linked hi
      refine ⟨nick, ?_, rfl⟩
      rw [FoldMap.lookup_insert, if_neg, hnick]
      intro heq
      rw [← heq, hfresh] at hnick
      cases hnick
  · intro c nick hc
    rw [FoldMap.lookup_insert] at hc
    split_ifs at hc with heq
    · cases hc
      exact ⟨session, FoldMap.get_insert_self .., heq⟩
    · obtain ⟨other, hother, hconn⟩ := hr.backed hc
      refine ⟨other, ?_, hconn⟩
      rw [FoldMap.get, FoldMap.lookup_insert, if_neg]
      · exact hother
      · intro hfold
        rw [FoldMap.get, ← hfold, ← FoldMap.get, hfree] at hother
        cases hother

theorem Consistent.modify (hr : r.Consistent) (nick : Nickname) {f : UserSession → UserSession}
    (hnick : ∀ session, r.byNick.get nick = some session →
      (f session).nickname.fold = session.nickname.fold)
    (hconn : ∀ session, (f session).connectionId = session.connectionId) :
    Consistent { r with byNick := r.byNick.modify nick f } := by
  -- a session of the new map comes from one of the old map, at the same nickname and connection
  have hpast : ∀ {i : Str} {session : UserSession},
      (r.byNick.modify nick f).lookup i = some session →
        ∃ old, r.byNick.lookup i = some old ∧ session.nickname.fold = old.nickname.fold ∧
          session.connectionId = old.connectionId := by
    intro i session h
    rw [FoldMap.lookup_modify] at h
    split_ifs at h with hi
    · obtain ⟨old, hold, rfl⟩ := Option.map_eq_some_iff.mp h
      rw [← hi] at hold
      exact ⟨old, hi ▸ hold, hnick old hold, hconn old⟩
    · exact ⟨session, h, rfl, rfl⟩
  constructor
  · intro i session h
    obtain ⟨old, hold, hfold, -⟩ := hpast h
    rw [hfold]
    exact hr.named hold
  · intro i session h
    obtain ⟨old, hold, -, heq⟩ := hpast h
    rw [heq]
    exact hr.linked hold
  · intro c other h
    obtain ⟨session, hsession, rfl⟩ := hr.backed h
    rw [FoldMap.get] at hsession
    by_cases hi : nick.fold = other.fold
    · refine ⟨f session, ?_, hconn session⟩
      rw [FoldMap.get, FoldMap.lookup_modify, if_pos hi, hsession]
      rfl
    · refine ⟨session, ?_, rfl⟩
      rw [FoldMap.get, FoldMap.lookup_modify, if_neg hi, hsession]

theorem Consistent.modifySession (hr : r.Consistent) (c : ConnId) {f : UserSession → UserSession}
    (hnick : ∀ session, (f session).nickname = session.nickname)
    (hconn : ∀ session, (f session).connectionId = session.connectionId) :
    (r.modifySession c f).Consistent := by
  unfold UserRegistry.modifySession
  split
  · exact hr
  · exact hr.modify _ (fun session _ => by rw [hnick]) hconn

theorem getByConnection_modifySession (r : UserRegistry) (c : ConnId)
    (f : UserSession → UserSession) :
    (r.modifySession c f).getByConnection c = (r.getByConnection c).map f := by
  unfold UserRegistry.modifySession UserRegistry.getByConnection
  cases hnick : r.byConnection.get c with
  | none => simp [hnick]
  | some nick =>
    dsimp only
    rw [hnick, Option.bind_some, Option.bind_some, FoldMap.get, FoldMap.lookup_modify, if_pos rfl]
    rfl

theorem nickInUse_modifySession (r : UserRegistry) (c : ConnId) (f : UserSession → UserSession)
    (nick : Nickname) : (r.modifySession c f).nickInUse nick = r.nickInUse nick := by
  unfold UserRegistry.modifySession UserRegistry.nickInUse FoldMap.contains FoldMap.get
  split
  · rfl
  · rw [FoldMap.lookup_modify]
    split_ifs
    · rw [Option.isSome_map]
    · rfl

theorem Consistent.changeNick (hr : r.Consistent) {old new : Nickname}
    (h : r.changeNick old new = .ok r') : r'.Consistent := by
  obtain ⟨hfold, rfl⟩ | ⟨hfold, hfree, session, hold, rfl⟩ := changeNick_eq_ok h
  · apply hr.modify old
    · intro session hsession
      rw [← hfold]
      exact (hr.named hsession).symm
    · intro session
      rfl
  · have hlookup : ∀ i, ((r.byNick.remove old).insert new { session with nickname := new }).lookup i
        = if new.fold = i then some { session with nickname := new }
          else if old.fold = i then none else r.byNick.lookup i := by
      intro i
      rw [FoldMap.lookup_insert, FoldMap.lookup_remove]
    constructor
    · intro i other hi
      rw [hlookup] at hi
      split_ifs at hi with hnew hne
      · cases hi
        exact hnew
      · exact hr.named hi
    · intro i other hi
      rw [hlookup] at hi
      split_ifs at hi with hnew hne
      · cases hi
        exact ⟨new, FoldMap.get_insert_self .., hnew⟩
      · obtain ⟨nick, hnick, rfl⟩ := hr.linked hi
        refine ⟨nick, ?_, rfl⟩
        rw [FoldMap.lookup_insert, if_neg, hnick]
        -- the session that moved is the only one of its connection
        intro heq
        exact hne (hr.connection_inj hold hi heq)
    · intro c nick hc
      rw [FoldMap.lookup_insert] at hc
      split_ifs at hc with heq
      · cases hc
        exact ⟨_, FoldMap.get_insert_self .., heq⟩
      · obtain ⟨other, hother, rfl⟩ := hr.backed hc
        refine ⟨other, ?_, rfl⟩
        rw [FoldMap.get, hlookup, if_neg, if_neg]
        · exact hother
        · intro hsame
          rw [FoldMap.get, ← hsame, ← FoldMap.get, hold] at hother
          exact heq (congrArg _ (Option.some_inj.mp hother))
        · intro hsame
          rw [FoldMap.get, ← hsame, ← FoldMap.get, hfree] at hother
          cases hother

theorem Consistent.lookup_changeNick (hr : r.Consistent) {old new : Nickname}
    (h : r.changeNick old new = .ok r') (hc : r.byConnection.lookup c = none) :
    r'.byConnection.lookup c = none := by
  obtain ⟨-, rfl⟩ | ⟨-, -, session, hold, rfl⟩ := changeNick_eq_ok h
  · exact hc
  · obtain ⟨nick, hnick, -⟩ := hr.linked hold
    dsimp only
    rw [FoldMap.lookup_insert, if_neg, hc]
    rintro rfl
    rw [hc] at hnick
    cases hnick

theorem Consistent.removeByConnection_eq (hr : r.Consistent) :
    (r.getByConnection c = none ∧ r.removeByConnection c = (none, r)) ∨
    ∃ session, r.getByConnection c = some session ∧
      r.removeByConnection c = (some session, {
        byNick := r.byNick.remove session.nickname
        byConnection := r.byConnection.remove c
        connectionCount := r.connectionCount - 1 }) := by
  unfold UserRegistry.removeByConnection
  cases hnick : r.byConnection.get c with
  | none =>
    refine .inl ⟨?_, rfl⟩
    rw [getByConnection, hnick]
    rfl
  | some nick =>
    obtain ⟨session, hsession, -⟩ := hr.backed hnick
    refine .inr ⟨session, ?_, ?_⟩
    · rw [getByConnection, hnick]
      exact hsession
    · dsimp only
      rw [hsession]
      -- the map is asked for the nickname of the connection, which the session has in some casing
      have hfold : session.nickname.fold = nick.fold := hr.named hsession
      rw [FoldMap.remove_congr hfold]

theorem Consistent.removeByConnection (hr : r.Consistent) (c : ConnId) :
    (r.removeByConnection c).2.Consistent := by
  obtain ⟨-, heq⟩ | ⟨session, hsession, heq⟩ := hr.removeByConnection_eq (c := c)
  · rw [heq]
    exact hr
  · rw [heq]
    obtain ⟨rfl, hget⟩ := hr.getByConnection_eq_some.mp hsession
    constructor
    · intro i other hi
      rw [FoldMap.lookup_remove] at hi
      split_ifs at hi
      exact hr.named hi
    · intro i other hi
      rw [FoldMap.lookup_remove] at hi
      split_ifs at hi with hne
      obtain ⟨nick, hnick, rfl⟩ := hr.linked hi
      refine ⟨nick, ?_, rfl⟩
      rw [FoldMap.lookup_remove, if_neg, hnick]
      intro hconn
      exact hne (hr.connection_inj hget hi hconn)
    · intro c nick hc
      rw [FoldMap.lookup_remove] at hc
      split_ifs at hc with hne
      obtain ⟨other, hother, rfl⟩ := hr.backed hc
      refine ⟨other, ?_, rfl⟩
      rw [FoldMap.get, FoldMap.lookup_remove, if_neg]
      · exact hother
      · intro hsame
        rw [FoldMap.get, ← hsame, ← FoldMap.get, hget] at hother
        exact hne (congrArg _ (Option.some_inj.mp hother))

theorem Consistent.lookup_removeByConnection (hr : r.Consistent) (c c' : ConnId) :
    (r.removeByConnection c).2.byConnection.lookup c' =
      if c = c' then none else r.byConnection.lookup c' := by
  obtain ⟨hnone, heq⟩ | ⟨session, -, heq⟩ := hr.removeByConnection_eq (c := c)
  · rw [heq]
    split_ifs with hc
    · rw [← hc]
      exact hr.lookup_eq_none hnone
    · rfl
  · rw [heq]
    exact FoldMap.lookup_remove ..

end Consistency

end UserRegistry

/-! Nicknames for examples. -/

def alice : Nickname := ⟨"alice".toList, by decide⟩

def bob : Nickname := ⟨"bob".toList, by decide⟩

def carol : Nickname := ⟨"carol".toList, by decide⟩

end Pirc.Server
