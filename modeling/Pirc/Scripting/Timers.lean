import Mathlib.Data.List.TakeWhile
import Pirc.Lib.Outcome
import Pirc.Lib.Run
import Pirc.Scripting.Termination

/-!
# Scripts: timers

`interpreter/timer.rs`: timers by their names, of which a tick fires those that are due. What a tick
gives is told by the history of the calls: the timers in the manager are those of the registrations
that were neither removed nor replaced and have repetitions left.
-/

namespace Pirc.Scripting

open Protocol (Str)

variable {F : Type} [Platform F]

/-! ## The manager -/

/-- Why a call panics: the counter of a timer is zero already, or a time is too late to be told. -/
inductive TimerPanic
  | counterUnderflow
  | instantOverflow
  deriving DecidableEq

structure FiredTimer (F : Type) where
  name : Str
  body : List (Statement F)

namespace TimerManager

variable (lastInstant : ℕ)

def later (time duration : ℕ) : Except TimerPanic ℕ :=
  if time + duration ≤ lastInstant then .ok (time + duration) else .error .instantOverflow

/-- Register a timer. -/
def register (timers : TimerManager F) (name : Str) (interval repetitions : ℕ)
    (body : List (Statement F)) (now : ℕ) : Except TimerPanic (TimerManager F) := do
  let remaining := if repetitions = 0 then none else some repetitions
  let nextFire ← later lastInstant now interval
  pure (timers.insert name ⟨interval, remaining, body, nextFire⟩)

def fire (timer : Timer F) : Except TimerPanic (Timer F × Bool) :=
  match timer.remaining with
  | some 0 => .error .counterUnderflow
  | some 1 => .ok ({ timer with remaining := some 0 }, true)
  | some (remaining + 1) => do
    let nextFire ← later lastInstant timer.nextFire timer.interval
    pure ({ timer with remaining := some remaining, nextFire := nextFire }, false)
  | none => do
    let nextFire ← later lastInstant timer.nextFire timer.interval
    pure ({ timer with nextFire := nextFire }, false)

def tickEntries (now : ℕ) : List (Str × Timer F) → TimerManager F → List (FiredTimer F) → List Str →
    Except TimerPanic (TimerManager F × List (FiredTimer F) × List Str)
  | [], timers, fired, toRemove => .ok (timers, fired, toRemove)
  | (name, timer) :: entries, timers, fired, toRemove =>
    if timer.nextFire ≤ now then do
      let (left, spent) ← fire lastInstant timer
      tickEntries now entries (timers.insert name left)
        (fired ++ [⟨Platform.toLowercase F name, timer.body⟩])
        (if spent then toRemove ++ [name] else toRemove)
    else tickEntries now entries timers fired toRemove

/-- **A tick**: the timers that are due fire, and those that are spent are removed. -/
def tick (timers : TimerManager F) (now : ℕ) :
    Except TimerPanic (TimerManager F × List (FiredTimer F)) := do
  let (timers, fired, toRemove) ← tickEntries lastInstant now timers.entries timers [] []
  pure (toRemove.foldl (fun timers name => timers.remove name) timers, fired)

end TimerManager

/-! ## What a tick does -/

open TimerManager

/-- How often a name is among what fired. -/
def timesFired (key : Str) (fired : List (FiredTimer F)) : ℕ := fired.countP (·.name = key)

variable {lastInstant now : ℕ} {timers timers' : TimerManager F}
  {fired fired' : List (FiredTimer F)} {toRemove toRemove' : List Str}
  {entries : List (Str × Timer F)} {key : Str}

theorem later_eq_ok {time duration time' : ℕ} :
    later lastInstant time duration = .ok time' ↔
      time + duration ≤ lastInstant ∧ time + duration = time' := by
  unfold later
  split_ifs with h <;> simp [h]

theorem lookup_removeAll (names : List Str) (timers : TimerManager F) (key : Str) :
    (names.foldl (fun timers name => timers.remove name) timers).lookup key =
      if ∃ name ∈ names, Platform.toLowercase F name = key then none else timers.lookup key := by
  induction names generalizing timers with
  | nil => simp
  | cons name names ih =>
    rw [List.foldl_cons, ih, FoldMap.lookup_remove]
    by_cases hname : Platform.toLowercase F name = key <;> simp [hname]

theorem tickEntries_due {name : Str} {timer : Timer F} (hdue : timer.nextFire ≤ now)
    (h : tickEntries lastInstant now ((name, timer) :: entries) timers fired toRemove
      = .ok (timers', fired', toRemove')) :
    ∃ left spent, fire lastInstant timer = .ok (left, spent) ∧
      tickEntries lastInstant now entries (timers.insert name left)
        (fired ++ [⟨Platform.toLowercase F name, timer.body⟩])
        (if spent then toRemove ++ [name] else toRemove) = .ok (timers', fired', toRemove') := by
  rw [tickEntries, if_pos hdue, Except.bind_eq_ok] at h
  obtain ⟨⟨left, spent⟩, hfire, hrest⟩ := h
  exact ⟨left, spent, hfire, hrest⟩

theorem tickEntries_early {name : Str} {timer : Timer F} (hdue : ¬ timer.nextFire ≤ now) :
    tickEntries lastInstant now ((name, timer) :: entries) timers fired toRemove
      = tickEntries lastInstant now entries timers fired toRemove := by
  rw [tickEntries, if_neg hdue]

theorem tickEntries_other (hother : ∀ e ∈ entries, Platform.toLowercase F e.1 ≠ key)
    (h : tickEntries lastInstant now entries timers fired toRemove
      = .ok (timers', fired', toRemove')) :
    timers'.lookup key = timers.lookup key ∧ timesFired key fired' = timesFired key fired ∧
      ((∃ name ∈ toRemove', Platform.toLowercase F name = key) ↔
        ∃ name ∈ toRemove, Platform.toLowercase F name = key) := by
  induction entries generalizing timers fired toRemove with
  | nil =>
    cases h
    exact ⟨rfl, rfl, Iff.rfl⟩
  | cons entry entries ih =>
    obtain ⟨name, timer⟩ := entry
    obtain ⟨hname, hother⟩ := List.forall_mem_cons.mp hother
    by_cases hdue : timer.nextFire ≤ now
    · obtain ⟨left, spent, -, hrest⟩ := tickEntries_due hdue h
      obtain ⟨hlookup, hfired, hremove⟩ := ih hother hrest
      refine ⟨?_, ?_, ?_⟩
      · rw [hlookup, FoldMap.lookup_insert, if_neg hname]
      · rw [hfired, timesFired, List.countP_append]
        simp [hname, timesFired]
      · rw [hremove]
        split <;> simp [or_and_right, exists_or, hname]
    · rw [tickEntries_early hdue] at h
      exact ih hother h

theorem tickEntries_append {later : List (Str × Timer F)}
    (h : tickEntries lastInstant now (entries ++ later) timers fired toRemove
      = .ok (timers', fired', toRemove')) :
    ∃ t f r, tickEntries lastInstant now entries timers fired toRemove = .ok (t, f, r) ∧
      tickEntries lastInstant now later t f r = .ok (timers', fired', toRemove') := by
  induction entries generalizing timers fired toRemove with
  | nil => exact ⟨timers, fired, toRemove, rfl, h⟩
  | cons entry entries ih =>
    obtain ⟨name, timer⟩ := entry
    by_cases hdue : timer.nextFire ≤ now
    · obtain ⟨left, spent, hfire, hrest⟩ := tickEntries_due hdue h
      obtain ⟨t, f, r, hfirst, hsecond⟩ := ih hrest
      refine ⟨t, f, r, ?_, hsecond⟩
      rw [tickEntries, if_pos hdue, hfire]
      exact hfirst
    · rw [List.cons_append, tickEntries_early hdue] at h
      obtain ⟨t, f, r, hfirst, hsecond⟩ := ih h
      exact ⟨t, f, r, (tickEntries_early hdue).trans hfirst, hsecond⟩

/-- **What a tick does to a timer**: if it is due it fires once, and it stays unless it is spent. -/
theorem tick_lookup {timer : Timer F} (hlookup : timers.lookup key = some timer)
    (h : tick lastInstant timers now = .ok (timers', fired)) :
    if timer.nextFire ≤ now then
      ∃ left spent, fire lastInstant timer = .ok (left, spent) ∧
        timers'.lookup key = (if spent then none else some left) ∧ timesFired key fired = 1
    else timers'.lookup key = some timer ∧ timesFired key fired = 0 := by
  rw [tick, Except.bind_eq_ok] at h
  obtain ⟨⟨middle, fired', toRemove⟩, hloop, hend⟩ := h
  cases hend
  obtain ⟨name, rfl, hmem⟩ := FoldMap.lookup_eq_some.mp hlookup
  obtain ⟨before, after, hentries⟩ := List.append_of_mem hmem
  -- no other entry has the name
  have hnodup := timers.nodup
  rw [hentries, List.map_append, List.map_cons] at hnodup
  have hbefore : ∀ e ∈ before, Platform.toLowercase F e.1 ≠ Platform.toLowercase F name := by
    intro e he heq
    have hdisjoint := (List.nodup_append.mp hnodup).2.2
    exact hdisjoint _ (List.mem_map.mpr ⟨e, he, heq⟩) _ List.mem_cons_self rfl
  have hafter : ∀ e ∈ after, Platform.toLowercase F e.1 ≠ Platform.toLowercase F name := by
    intro e he heq
    have hfresh := (List.nodup_cons.mp (List.nodup_append.mp hnodup).2.1).1
    exact hfresh (List.mem_map.mpr ⟨e, he, heq⟩)
  rw [hentries] at hloop
  obtain ⟨t, f, r, hfirst, hrest⟩ := tickEntries_append hloop
  obtain ⟨hlookup₁, hfired₁, hremove₁⟩ := tickEntries_other hbefore hfirst
  have hnone : ¬ ∃ name' ∈ r, Platform.toLowercase F name' = Platform.toLowercase F name := by
    rw [hremove₁]
    simp
  rw [lookup_removeAll]
  by_cases hdue : timer.nextFire ≤ now
  · obtain ⟨left, spent, hfire, hrest⟩ := tickEntries_due hdue hrest
    obtain ⟨hlookup₂, hfired₂, hremove₂⟩ := tickEntries_other hafter hrest
    rw [if_pos hdue]
    refine ⟨left, spent, hfire, ?_, ?_⟩
    · rw [hlookup₂, FoldMap.lookup_insert, if_pos rfl]
      cases spent with
      | true => simp [hremove₂]
      | false => simp [hremove₂, hnone]
    · rw [hfired₂, timesFired, List.countP_append, ← timesFired, hfired₁]
      simp [timesFired]
  · rw [tickEntries_early hdue] at hrest
    obtain ⟨hlookup₂, hfired₂, hremove₂⟩ := tickEntries_other hafter hrest
    rw [if_neg hdue, if_neg (mt hremove₂.mp hnone), hlookup₂, hlookup₁, hfired₂, hfired₁]
    exact ⟨hlookup, rfl⟩

theorem tick_lookup_none (hlookup : timers.lookup key = none)
    (h : tick lastInstant timers now = .ok (timers', fired)) :
    timers'.lookup key = none ∧ timesFired key fired = 0 := by
  rw [tick, Except.bind_eq_ok] at h
  obtain ⟨⟨middle, fired', toRemove⟩, hloop, hend⟩ := h
  cases hend
  obtain ⟨hlookup', hfired, -⟩ := tickEntries_other (FoldMap.lookup_eq_none.mp hlookup) hloop
  rw [lookup_removeAll, hlookup', hlookup, hfired, ite_self]
  exact ⟨rfl, rfl⟩

/-! ## Histories -/

structure Registration (F : Type) where
  name : Str
  interval : ℕ
  repetitions : ℕ
  body : List (Statement F)
  now : ℕ

def Registration.folded (r : Registration F) : Str := Platform.toLowercase F r.name

namespace Registration

omit [Platform F]

variable (r : Registration F)

/-- The repetitions left when it has fired so many times; none are counted for a timer without
end. -/
def remaining (times : ℕ) : Option ℕ :=
  if r.repetitions = 0 then none else some (r.repetitions - times)

/-- **The timer of the registration** when it has fired so many times, unless it is spent. -/
def timer (times : ℕ) : Option (Timer F) :=
  if r.remaining times = some 0 then none
  else some ⟨r.interval, r.remaining times, r.body, r.now + (times + 1) * r.interval⟩

theorem remaining_ne_zero {times : ℕ} :
    r.remaining times ≠ some 0 ↔ r.repetitions = 0 ∨ times < r.repetitions := by
  unfold remaining
  split_ifs with h
  · simp [h]
  · simp only [ne_eq, Option.some.injEq, h, false_or]
    omega

theorem remaining_succ (times : ℕ) :
    r.remaining (times + 1) = (r.remaining times).map (· - 1) := by
  unfold remaining
  split_ifs
  · rfl
  · rfl

variable {r} {times : ℕ} {timer left : Timer F} {spent : Bool}

theorem timer_eq_some : r.timer times = some timer ↔ r.remaining times ≠ some 0 ∧
    timer = ⟨r.interval, r.remaining times, r.body, r.now + (times + 1) * r.interval⟩ := by
  unfold Registration.timer
  split_ifs with h
  · simp [h]
  · simp [h, eq_comm]

theorem timer_isSome : (r.timer times).isSome = true ↔ r.repetitions = 0 ∨ times < r.repetitions := by
  rw [← r.remaining_ne_zero, Option.isSome_iff_exists]
  simp [timer_eq_some]

theorem timer_succ (h : r.timer times = some timer)
    (hfire : fire lastInstant timer = .ok (left, spent)) :
    r.timer (times + 1) = if spent then none else some left := by
  have hnext : r.now + (times + 1) * r.interval + r.interval
      = r.now + (times + 1 + 1) * r.interval := by
    rw [Nat.add_mul (times + 1), Nat.one_mul, Nat.add_assoc]
  obtain ⟨hne, rfl⟩ := timer_eq_some.mp h
  have hsucc := r.remaining_succ times
  unfold Registration.timer
  unfold fire at hfire
  cases hremaining : r.remaining times with
  | none =>
    simp only [hremaining, Except.bind_eq_ok, later_eq_ok] at hfire
    obtain ⟨next, ⟨-, rfl⟩, hleft⟩ := hfire
    cases hleft
    rw [hsucc, hremaining, hnext]
    rfl
  | some n =>
    match n, hremaining with
    | 0, hremaining => exact absurd hremaining hne
    | 1, hremaining =>
      simp only [hremaining] at hfire
      cases hfire
      rw [hsucc, hremaining]
      rfl
    | n + 2, hremaining =>
      simp only [hremaining, Except.bind_eq_ok, later_eq_ok] at hfire
      obtain ⟨next, ⟨-, rfl⟩, hleft⟩ := hfire
      cases hleft
      rw [hsucc, hremaining, hnext]
      rfl

end Registration

inductive TimerEvent (F : Type)
  | registered (r : Registration F)
  | removed (name : Str)
  | ticked (now : ℕ) (fired : List (FiredTimer F))

namespace TimerEvent

def ends (key : Str) : TimerEvent F → Bool
  | registered r => r.folded = key
  | removed name => Platform.toLowercase F name = key
  | ticked _ _ => false

def firings (key : Str) : TimerEvent F → List ℕ
  | ticked now fired => List.replicate (timesFired key fired) now
  | registered _ | removed _ => []

end TimerEvent

/-- **The managers of a program**: what calls that return make of the empty one, and what they
gave. -/
inductive History (lastInstant : ℕ) : TimerManager F → List (TimerEvent F) → Prop
  | start : History lastInstant ∅ []
  | register {timers timers' : TimerManager F} {events : List (TimerEvent F)} (r : Registration F) :
      History lastInstant timers events →
      register lastInstant timers r.name r.interval r.repetitions r.body r.now = .ok timers' →
      History lastInstant timers' (events ++ [.registered r])
  | remove {timers : TimerManager F} {events : List (TimerEvent F)} (name : Str) :
      History lastInstant timers events →
      History lastInstant (timers.remove name) (events ++ [.removed name])
  | tick {timers timers' : TimerManager F} {fired : List (FiredTimer F)}
      {events : List (TimerEvent F)} (now : ℕ) :
      History lastInstant timers events →
      tick lastInstant timers now = .ok (timers', fired) →
      History lastInstant timers' (events ++ [.ticked now fired])

/-- **Neither removed nor replaced** in the events that follow. -/
def Stands (key : Str) (events : List (TimerEvent F)) : Prop := ∀ e ∈ events, e.ends key = false

/-- **The times at which a registration fires** in the events that follow it, until it is removed or
replaced. -/
def firings (key : Str) (events : List (TimerEvent F)) : List ℕ :=
  (events.takeWhile fun e => !e.ends key).flatMap (·.firings key)

section Firings

variable {events : List (TimerEvent F)} {e : TimerEvent F}

theorem stands_append : Stands key (events ++ [e]) ↔ Stands key events ∧ e.ends key = false := by
  unfold Stands
  simp [or_imp, forall_and]

theorem firings_of_stands (h : Stands key events) :
    firings key (events ++ [e]) = firings key events ++ e.firings key := by
  have hall : ∀ e ∈ events, (!e.ends key) = true := fun e he => by rw [h e he]; rfl
  have hself : events.takeWhile (fun e => !e.ends key) = events := List.takeWhile_eq_self_iff.mpr hall
  rw [firings, firings, List.takeWhile_append_of_pos hall, hself, List.flatMap_append]
  cases e with
  | registered r => cases hends : (TimerEvent.registered r).ends key <;> simp [hends, TimerEvent.firings]
  | removed name =>
    cases hends : (TimerEvent.removed name : TimerEvent F).ends key <;> simp [hends, TimerEvent.firings]
  | ticked now fired => simp [TimerEvent.ends]

theorem firings_of_not_stands (h : ¬ Stands key events) :
    firings key (events ++ [e]) = firings key events := by
  have hne : (events.takeWhile fun e => !e.ends key).length ≠ events.length := by
    intro hlength
    refine h fun e he => ?_
    have hself := (List.takeWhile_prefix fun e : TimerEvent F => !e.ends key).eq_of_length hlength
    have hall := List.takeWhile_eq_self_iff.mp hself e he
    simpa using hall
  rw [firings, firings, List.takeWhile_append, if_neg hne]

end Firings

/-- **As often as promised**: the k-th firing is not before its time, and there are no more than the
repetitions. -/
structure Kept (r : Registration F) (times : List ℕ) : Prop where
  spaced : ∀ k, ∀ hk : k < times.length, r.now + (k + 1) * r.interval ≤ times[k]
  within : r.repetitions ≠ 0 → times.length ≤ r.repetitions

namespace Kept

omit [Platform F]

variable {r : Registration F} {times : List ℕ} {time : ℕ}

theorem nil : Kept r [] := ⟨nofun, fun _ => Nat.zero_le _⟩

theorem snoc {timer : Timer F} (h : Kept r times) (htimer : r.timer times.length = some timer)
    (hdue : timer.nextFire ≤ time) : Kept r (times ++ [time]) := by
  constructor
  · intro k hk
    rw [List.length_append, List.length_singleton] at hk
    rcases Nat.lt_or_ge k times.length with hlt | hge
    · rw [List.getElem_append_left hlt]
      exact h.spaced k hlt
    · obtain rfl : k = times.length := by omega
      obtain ⟨-, rfl⟩ := Registration.timer_eq_some.mp htimer
      rw [List.getElem_concat_length rfl]
      exact hdue
  · intro hne
    have hleft : r.repetitions = 0 ∨ times.length < r.repetitions :=
      Registration.timer_isSome.mp (htimer ▸ rfl)
    rw [List.length_append, List.length_singleton]
    omega

/-- **By any time**, it has not fired more often than its interval has passed. -/
theorem length_filter_le (h : ∀ k, ∀ hk : k < times.length, r.now + (k + 1) * r.interval ≤ times[k])
    (hinterval : 0 < r.interval) (now : ℕ) :
    (times.filter (· ≤ now)).length ≤ (now - r.now) / r.interval := by
  rw [Nat.le_div_iff_mul_le hinterval]
  induction times using List.reverseRecOn with
  | nil => simp
  | append_singleton times time ih =>
    have hlast := h times.length (by simp)
    rw [List.getElem_concat_length rfl] at hlast
    have hbefore := ih fun k hk => by
      have hat := h k (by rw [List.length_append]; omega)
      rwa [List.getElem_append_left hk] at hat
    rw [List.filter_append, List.length_append]
    by_cases hle : time ≤ now
    · have hlength : (times.filter (· ≤ now)).length ≤ times.length := List.length_filter_le _ _
      have hmul : ((times.filter (· ≤ now)).length + 1) * r.interval
          ≤ (times.length + 1) * r.interval := Nat.mul_le_mul_right _ (Nat.succ_le_succ hlength)
      have hone : ([time].filter (· ≤ now)).length = 1 := by simp [hle]
      rw [hone]
      omega
    · simpa [hle] using hbefore

end Kept

/-! ## The history tells the timers -/

/-- **Told by the history**: a registration that stands has its timer in the manager unless it is
spent, there are no other timers, and every registration has fired as often as promised. -/
structure Told (timers : TimerManager F) (events : List (TimerEvent F)) : Prop where
  standing : ∀ before r after, events = before ++ .registered r :: after → Stands r.folded after →
    timers.lookup r.folded = r.timer (firings r.folded after).length
  only : ∀ key timer, timers.lookup key = some timer →
    ∃ before r after, events = before ++ .registered r :: after ∧ r.folded = key ∧ Stands key after
  kept : ∀ before r after, events = before ++ .registered r :: after → Kept r (firings r.folded after)

namespace Told

variable {events : List (TimerEvent F)}

theorem start : Told (∅ : TimerManager F) [] := by
  refine ⟨?_, nofun, ?_⟩
  · intro before r after h
    exact absurd h (List.append_ne_nil_of_right_ne_nil _ (List.cons_ne_nil _ _)).symm
  · intro before r after h
    exact absurd h (List.append_ne_nil_of_right_ne_nil _ (List.cons_ne_nil _ _)).symm

theorem firings_append {e : TimerEvent F} (h : e.firings key = []) :
    firings key (events ++ [e]) = firings key events := by
  by_cases hstands : Stands key events
  · rw [firings_of_stands hstands, h, List.append_nil]
  · exact firings_of_not_stands hstands

theorem only_append {e : TimerEvent F} {timer : Timer F} (h : Told timers events)
    (hlookup : timers.lookup key = some timer) (hends : e.ends key = false) :
    ∃ before r after, events ++ [e] = before ++ .registered r :: after ∧ r.folded = key ∧
      Stands key after := by
  obtain ⟨before, r, after, rfl, hkey, hstands⟩ := h.only key timer hlookup
  refine ⟨before, r, after ++ [e], ?_, hkey, stands_append.mpr ⟨hstands, hends⟩⟩
  rw [List.append_assoc, List.cons_append]

theorem register (h : Told timers events) (r : Registration F)
    (hregister : TimerManager.register lastInstant timers r.name r.interval r.repetitions r.body
      r.now = .ok timers') : Told timers' (events ++ [.registered r]) := by
  rw [TimerManager.register, Except.bind_eq_ok] at hregister
  obtain ⟨nextFire, hlater, hinsert⟩ := hregister
  obtain ⟨-, rfl⟩ := later_eq_ok.mp hlater
  cases hinsert
  have hlookup : ∀ key, (timers.insert r.name ⟨r.interval, r.remaining 0, r.body,
      r.now + r.interval⟩).lookup
      key = if r.folded = key then r.timer 0 else timers.lookup key := by
    intro key
    have htimer : r.timer 0 = some ⟨r.interval, r.remaining 0, r.body, r.now + r.interval⟩ := by
      refine Registration.timer_eq_some.mpr ⟨r.remaining_ne_zero.mpr (by omega), ?_⟩
      rw [Nat.zero_add, Nat.one_mul]
    rw [FoldMap.lookup_insert, htimer]
    rfl
  have hremaining : (if r.repetitions = 0 then none else some r.repetitions) = r.remaining 0 := rfl
  rw [hremaining]
  refine ⟨?_, ?_, ?_⟩
  · intro before r' after heq hstands
    rw [hlookup]
    rcases append_singleton_eq heq with ⟨rfl, -, hlast⟩ | ⟨after', rfl, heq'⟩
    · cases hlast
      rw [if_pos rfl]
      rfl
    · obtain ⟨hstands', hends⟩ := stands_append.mp hstands
      have hne : r.folded ≠ r'.folded := by simpa [TimerEvent.ends] using hends
      rw [if_neg hne, firings_append rfl]
      exact h.standing before r' after' heq' hstands'
  · intro key timer hsome
    rw [hlookup] at hsome
    by_cases hkey : r.folded = key
    · exact ⟨events, r, [], rfl, hkey, nofun⟩
    · rw [if_neg hkey] at hsome
      exact h.only_append hsome (by simpa [TimerEvent.ends] using hkey)
  · intro before r' after heq
    rcases append_singleton_eq heq with ⟨rfl, -, -⟩ | ⟨after', rfl, heq'⟩
    · exact Kept.nil
    · rw [firings_append rfl]
      exact h.kept before r' after' heq'

theorem remove (h : Told timers events) (name : Str) :
    Told (timers.remove name) (events ++ [.removed name]) := by
  refine ⟨?_, ?_, ?_⟩
  · intro before r after heq hstands
    rcases append_singleton_eq heq with ⟨-, -, hlast⟩ | ⟨after', rfl, heq'⟩
    · cases hlast
    · obtain ⟨hstands', hends⟩ := stands_append.mp hstands
      have hne : Platform.toLowercase F name ≠ r.folded := by simpa [TimerEvent.ends] using hends
      rw [FoldMap.lookup_remove, if_neg hne, firings_append rfl]
      exact h.standing before r after' heq' hstands'
  · intro key timer hsome
    rw [FoldMap.lookup_remove] at hsome
    split_ifs at hsome with hkey
    exact h.only_append hsome (by simpa [TimerEvent.ends] using hkey)
  · intro before r after heq
    rcases append_singleton_eq heq with ⟨-, -, hlast⟩ | ⟨after', rfl, heq'⟩
    · cases hlast
    · rw [firings_append rfl]
      exact h.kept before r after' heq'

theorem tick_timer {r : Registration F} {times : List ℕ}
    (hlookup : timers.lookup r.folded = r.timer times.length) (hkept : Kept r times)
    (h : tick lastInstant timers now = .ok (timers', fired)) :
    let times' := times ++ List.replicate (timesFired r.folded fired) now
    timers'.lookup r.folded = r.timer times'.length ∧ Kept r times' := by
  intro times'
  cases htimer : r.timer times.length with
  | none =>
    obtain ⟨hlookup', hzero⟩ := tick_lookup_none (hlookup.trans htimer) h
    have htimes : times' = times := by simp [times', hzero]
    rw [htimes]
    exact ⟨hlookup'.trans htimer.symm, hkept⟩
  | some timer =>
    have heffect := tick_lookup (hlookup.trans htimer) h
    by_cases hdue : timer.nextFire ≤ now
    · rw [if_pos hdue] at heffect
      obtain ⟨left, spent, hfire, hlookup', hone⟩ := heffect
      have htimes : times' = times ++ [now] := by simp [times', hone]
      rw [htimes, List.length_append, List.length_singleton]
      exact ⟨hlookup'.trans (Registration.timer_succ htimer hfire).symm, hkept.snoc htimer hdue⟩
    · rw [if_neg hdue] at heffect
      obtain ⟨hlookup', hzero⟩ := heffect
      have htimes : times' = times := by simp [times', hzero]
      rw [htimes]
      exact ⟨hlookup'.trans htimer.symm, hkept⟩

theorem tick (h : Told timers events) (htick : tick lastInstant timers now = .ok (timers', fired)) :
    Told timers' (events ++ [.ticked now fired]) := by
  refine ⟨?_, ?_, ?_⟩
  · intro before r after heq hstands
    rcases append_singleton_eq heq with ⟨-, -, hlast⟩ | ⟨after', rfl, heq'⟩
    · cases hlast
    · have hstands' := (stands_append.mp hstands).1
      rw [firings_of_stands hstands']
      exact (tick_timer (h.standing before r after' heq' hstands') (h.kept before r after' heq') htick).1
  · intro key timer hsome
    cases hlookup : timers.lookup key with
    | none =>
      rw [(tick_lookup_none hlookup htick).1] at hsome
      cases hsome
    | some timer => exact h.only_append hlookup rfl
  · intro before r after heq
    rcases append_singleton_eq heq with ⟨-, -, hlast⟩ | ⟨after', rfl, heq'⟩
    · cases hlast
    · by_cases hstands : Stands r.folded after'
      · rw [firings_of_stands hstands]
        exact (tick_timer (h.standing before r after' heq' hstands) (h.kept before r after' heq') htick).2
      · rw [firings_of_not_stands hstands]
        exact h.kept before r after' heq'

theorem remaining_ne_zero {timer : Timer F} (h : Told timers events)
    (hlookup : timers.lookup key = some timer) : timer.remaining ≠ some 0 := by
  obtain ⟨before, r, after, heq, rfl, hstands⟩ := h.only key timer hlookup
  rw [h.standing before r after heq hstands] at hlookup
  obtain ⟨hne, rfl⟩ := Registration.timer_eq_some.mp hlookup
  exact hne

end Told

/-- **The history tells the timers.** -/
theorem History.told {events : List (TimerEvent F)} (h : History lastInstant timers events) :
    Told timers events := by
  induction h with
  | start => exact .start
  | register r _ hregister ih => exact ih.register r hregister
  | remove name _ ih => exact ih.remove name
  | tick now _ htick ih => exact ih.tick htick

/-! ## As often as promised -/

/-- The call does not take from a counter that is zero. -/
def Counted {α : Type} (x : Except TimerPanic α) : Prop := x ≠ .error .counterUnderflow

theorem Counted.bind {α β : Type} {x : Except TimerPanic α} {f : α → Except TimerPanic β}
    (hx : Counted x) (hf : ∀ a, Counted (f a)) : Counted (x >>= f) := by
  cases x with
  | ok a => exact hf a
  | error panic =>
    intro heq
    cases heq
    exact hx rfl

theorem counted_ok {α : Type} (a : α) : Counted (.ok a : Except TimerPanic α) := nofun

theorem counted_later (time duration : ℕ) : Counted (later lastInstant time duration) := by
  unfold later
  split_ifs
  · exact counted_ok _
  · exact nofun

omit [Platform F] in
theorem counted_fire {timer : Timer F} (h : timer.remaining ≠ some 0) :
    Counted (fire lastInstant timer) := by
  unfold fire
  match hremaining : timer.remaining with
  | some 0 => exact absurd hremaining h
  | some 1 => exact counted_ok _
  | some (n + 2) => exact (counted_later _ _).bind fun _ => counted_ok _
  | none => exact (counted_later _ _).bind fun _ => counted_ok _

theorem counted_tickEntries (h : ∀ e ∈ entries, e.2.remaining ≠ some 0) :
    Counted (tickEntries lastInstant now entries timers fired toRemove) := by
  induction entries generalizing timers fired toRemove with
  | nil => exact counted_ok _
  | cons entry entries ih =>
    obtain ⟨name, timer⟩ := entry
    obtain ⟨htimer, hentries⟩ := List.forall_mem_cons.mp h
    unfold tickEntries
    split_ifs
    · exact (counted_fire htimer).bind fun _ => ih hentries
    · exact ih hentries

/-- **No counter underflows.** -/
theorem Told.counted_tick {events : List (TimerEvent F)} (h : Told timers events) (now : ℕ) :
    Counted (TimerManager.tick lastInstant timers now) := by
  refine (counted_tickEntries ?_).bind fun _ => counted_ok _
  intro e he
  exact h.remaining_ne_zero (FoldMap.lookup_eq_some.mpr ⟨e.1, rfl, he⟩)

/-- **No name fires twice in a tick.** -/
theorem timesFired_le_one (h : TimerManager.tick lastInstant timers now = .ok (timers', fired)) :
    timesFired key fired ≤ 1 := by
  cases hlookup : timers.lookup key with
  | none => exact (tick_lookup_none hlookup h).2.le.trans (Nat.zero_le 1)
  | some timer =>
    have heffect := tick_lookup hlookup h
    split_ifs at heffect
    · obtain ⟨_, _, _, _, hone⟩ := heffect
      exact hone.le
    · exact heffect.2.le.trans (Nat.zero_le 1)

theorem History.timesFired_le_one {events : List (TimerEvent F)} (h : History lastInstant timers events)
    (hmem : .ticked now fired ∈ events) : timesFired key fired ≤ 1 := by
  induction h with
  | start => cases hmem
  | register r _ _ ih =>
    rcases List.mem_append.mp hmem with hmem | hmem
    · exact ih hmem
    · cases List.mem_singleton.mp hmem
  | remove name _ ih =>
    rcases List.mem_append.mp hmem with hmem | hmem
    · exact ih hmem
    · cases List.mem_singleton.mp hmem
  | tick _ _ htick ih =>
    rcases List.mem_append.mp hmem with hmem | hmem
    · exact ih hmem
    · cases List.mem_singleton.mp hmem
      exact Scripting.timesFired_le_one htick

/-- **Every registration fires as often as it was promised, and no more**: no name fires twice in a
tick; a registration fires no more often than its repetitions, and by any time no more often than
its interval has passed; as long as it is neither removed nor replaced, its timer is in the manager
exactly if it has repetitions left or has no end; other timers are not there; no counter
underflows. -/
theorem History.firings_kept {events : List (TimerEvent F)} (h : History lastInstant timers events) :
    (∀ now fired, .ticked now fired ∈ events → ∀ key, timesFired key fired ≤ 1) ∧
      (∀ before r after, events = before ++ .registered r :: after →
        (0 < r.repetitions → (firings r.folded after).length ≤ r.repetitions) ∧
          (0 < r.interval → ∀ now,
            ((firings r.folded after).filter (· ≤ now)).length ≤ (now - r.now) / r.interval) ∧
          (Stands r.folded after →
            timers.lookup r.folded = r.timer (firings r.folded after).length ∧
              (timers.contains r.name = true ↔
                r.repetitions = 0 ∨ (firings r.folded after).length < r.repetitions))) ∧
      (∀ name, timers.contains name = true → ∃ before r after,
        events = before ++ .registered r :: after ∧ r.folded = Platform.toLowercase F name ∧
          Stands r.folded after) ∧
      (∀ now, TimerManager.tick lastInstant timers now ≠ .error .counterUnderflow) ∧
      (∀ now timers' fired, TimerManager.tick lastInstant timers now = .ok (timers', fired) →
        ∀ name timer, timers.get name = some timer → timer.remaining = none →
          timers'.contains name = true) := by
  have htold := h.told
  refine ⟨?_, ?_, ?_, htold.counted_tick, ?_⟩
  · intro now fired hmem key
    exact h.timesFired_le_one hmem
  · intro before r after heq
    have hkept := htold.kept before r after heq
    refine ⟨fun hpos => hkept.within hpos.ne', Kept.length_filter_le hkept.spaced, fun hstands => ?_⟩
    have hlookup := htold.standing before r after heq hstands
    refine ⟨hlookup, ?_⟩
    rw [← Registration.timer_isSome, ← hlookup]
    rfl
  · intro name hcontains
    obtain ⟨timer, htimer⟩ := FoldMap.contains_iff.mp hcontains
    obtain ⟨before, r, after, heq, hkey, hstands⟩ := htold.only _ timer htimer
    exact ⟨before, r, after, heq, hkey, hkey ▸ hstands⟩
  · intro now timers' fired htick name timer hget hnone
    refine FoldMap.contains_iff.mpr ?_
    have heffect := tick_lookup hget htick
    split_ifs at heffect
    · obtain ⟨left, spent, hfire, hlookup, -⟩ := heffect
      have hstays : spent = false := by
        unfold fire at hfire
        simp only [hnone, Except.bind_eq_ok] at hfire
        obtain ⟨_, -, hleft⟩ := hfire
        cases hleft
        rfl
      rw [hstays] at hlookup
      exact ⟨left, hlookup⟩
    · exact ⟨timer, heffect.1⟩

section Examples

local instance timersPlatform : Platform Unit := Interpreter.integersOnly

def bell : Registration Unit := ⟨"Bell".toList, 5, 2, [], 0⟩

/-- The bell is rung at the end of its first round, and then much later. -/
def bellEvents : List (TimerEvent Unit) :=
  [.registered bell, .ticked 3 [], .ticked 5 [⟨"bell".toList, []⟩], .ticked 50 [⟨"bell".toList, []⟩]]

theorem bell_history : ∃ timers : TimerManager Unit, History 100 timers bellEvents := by
  have hregister : History 100 _ ([] ++ [.registered bell]) := .register bell .start rfl
  have hearly : History 100 _ (_ ++ [.ticked 3 []]) := .tick 3 hregister rfl
  have hfirst : History 100 _ (_ ++ [.ticked 5 [⟨"bell".toList, []⟩]]) := .tick 5 hearly rfl
  exact ⟨_, .tick 50 hfirst rfl⟩

/-- The bell has rung twice by the time 50, and but once by 20. -/
theorem bell_kept :
    (firings bell.folded bellEvents.tail).length ≤ 2 ∧
      ((firings bell.folded bellEvents.tail).filter (· ≤ 20)).length ≤ (20 - 0) / 5 := by
  obtain ⟨timers, hhistory⟩ := bell_history
  obtain ⟨hmost, htime, -⟩ := hhistory.firings_kept.2.1 [] bell bellEvents.tail rfl
  exact ⟨hmost (by decide), htime (by decide) 20⟩

end Examples

end Pirc.Scripting
