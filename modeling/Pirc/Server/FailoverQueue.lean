import Pirc.Lib.Run
import Pirc.Server.Registry

/-!
# Server: messages for users whose node failed

`failover_queue.rs`: messages for a user wait in a queue of bounded length until the user is back. A
message that comes to a full queue takes the place of the oldest. A queue that is renamed goes
behind the messages that wait under its new name, whatever their times are, and however many they
become.
-/

namespace Pirc.Server

open Protocol

structure BufferedMessage where
  message : Message
  enqueuedAt : ℕ

/-- The queues by lowercase nickname, the length of a queue, and how long a message lives. -/
structure FailoverMessageQueue where
  queues : FoldMap (fun key : Str => key) (List BufferedMessage) := ∅
  maxPerUser : ℕ
  ttl : ℕ

namespace FailoverMessageQueue

def fresh (q : FailoverMessageQueue) (now : ℕ) (buffered : BufferedMessage) : Bool :=
  now - buffered.enqueuedAt < q.ttl

def enqueue (q : FailoverMessageQueue) (nickname : Str) (message : Message) (now : ℕ) :
    Bool × FailoverMessageQueue :=
  let key := lowercase nickname
  let queue := (q.queues.get key).getD []
  let evicted := decide (q.maxPerUser ≤ queue.length)
  let queue := if evicted then queue.tail else queue
  (!evicted, { q with queues := q.queues.insert key (queue ++ [⟨message, now⟩]) })

/-- Take the messages of a user; those that expired are dropped. -/
def drain (q : FailoverMessageQueue) (nickname : Str) (now : ℕ) : List Message × FailoverMessageQueue :=
  let key := lowercase nickname
  match q.queues.get key with
  | none => ([], q)
  | some queue =>
    ((queue.filter fun buffered => q.fresh now buffered).map BufferedMessage.message,
      { q with queues := q.queues.remove key })

def remove (q : FailoverMessageQueue) (nickname : Str) : FailoverMessageQueue :=
  { q with queues := q.queues.remove (lowercase nickname) }

/-- Move the messages of a user behind those for its new nickname. -/
def rename (q : FailoverMessageQueue) (oldNick newNick : Str) : FailoverMessageQueue :=
  let oldKey := lowercase oldNick
  let newKey := lowercase newNick
  if oldKey = newKey then q
  else
    match q.queues.get oldKey with
    | none => q
    | some oldQueue =>
      let queues := q.queues.remove oldKey
      { q with queues := queues.insert newKey ((queues.get newKey).getD [] ++ oldQueue) }

def expireAll (q : FailoverMessageQueue) (now : ℕ) : FailoverMessageQueue :=
  { q with
    queues := (q.queues.mapValues fun queue => queue.filter
      fun buffered => q.fresh now buffered).retain fun queue => !queue.isEmpty }

/-! ## What the operations do to a queue -/

def queued (q : FailoverMessageQueue) (key : Str) : List BufferedMessage := (q.queues.get key).getD []

variable {q : FailoverMessageQueue} {nickname oldNick newNick key : Str} {message : Message} {now : ℕ}

theorem queued_enqueue : (q.enqueue nickname message now).2.queued key =
    if key = lowercase nickname then
      (if q.maxPerUser ≤ (q.queued key).length then (q.queued key).tail else q.queued key) ++
        [⟨message, now⟩]
    else q.queued key := by
  unfold enqueue queued
  simp only [FoldMap.get_insert, decide_eq_true_eq]
  rcases eq_or_ne key (lowercase nickname) with rfl | hne
  · simp
  · simp [hne, hne.symm]

theorem drain_fst : (q.drain nickname now).1 =
    ((q.queued (lowercase nickname)).filter fun buffered => q.fresh now buffered).map
      BufferedMessage.message := by
  unfold drain queued
  rcases hqueue : q.queues.get (lowercase nickname) with - | queue
  · simp [hqueue]
  · simp [hqueue]

theorem queued_remove :
    (q.remove nickname).queued key = if key = lowercase nickname then [] else q.queued key := by
  unfold remove queued
  simp only [FoldMap.get_remove]
  rcases eq_or_ne key (lowercase nickname) with rfl | hne
  · simp
  · simp [hne, hne.symm]

theorem queued_drain :
    (q.drain nickname now).2.queued key = if key = lowercase nickname then [] else q.queued key := by
  rw [← queued_remove]
  unfold drain remove
  rcases hqueue : q.queues.get (lowercase nickname) with - | queue
  · simp only [hqueue]
    rw [FoldMap.remove_of_get_eq_none hqueue]
  · simp only [hqueue]

theorem queued_rename : (q.rename oldNick newNick).queued key =
    if lowercase oldNick = lowercase newNick then q.queued key
    else if key = lowercase newNick then q.queued key ++ q.queued (lowercase oldNick)
    else if key = lowercase oldNick then []
    else q.queued key := by
  by_cases hsame : lowercase oldNick = lowercase newNick
  · simp only [rename, if_pos hsame]
  rw [if_neg hsame]
  rcases hqueue : q.queues.get (lowercase oldNick) with - | oldQueue
  · -- there is nothing to move
    have hnone : q.queued (lowercase oldNick) = [] := by rw [queued, hqueue, Option.getD_none]
    simp only [rename, if_neg hsame, hqueue, hnone, List.append_nil]
    split_ifs with hnew hold
    · rfl
    · rw [hold, hnone]
    · rfl
  · have hold : q.queued (lowercase oldNick) = oldQueue := by rw [queued, hqueue, Option.getD_some]
    simp only [rename, if_neg hsame, hqueue, hold]
    simp only [queued, FoldMap.get_insert, FoldMap.get_remove, if_neg hsame]
    rcases eq_or_ne key (lowercase newNick) with rfl | hnew
    · simp
    rw [if_neg hnew, if_neg hnew.symm]
    rcases eq_or_ne key (lowercase oldNick) with rfl | hne
    · simp
    · rw [if_neg hne, if_neg hne.symm]

theorem queued_expireAll :
    (q.expireAll now).queued key = (q.queued key).filter fun buffered => q.fresh now buffered := by
  unfold expireAll queued
  rw [FoldMap.get, FoldMap.lookup_retain, FoldMap.lookup_mapValues, FoldMap.get]
  rcases q.queues.lookup key with - | queue
  · rfl
  · rw [Option.map_some, Option.filter_some]
    rcases hqueue : queue.filter fun buffered => q.fresh now buffered with - | ⟨buffered, rest⟩
    · simp [hqueue]
    · simp [hqueue]

end FailoverMessageQueue

/-! ## What became of a message -/

/-- What became of a message in its queue. -/
inductive Fate
  | waiting | evicted | expired
  deriving DecidableEq

/-- A message that came to a queue, and what became of it there. -/
structure Arrival where
  buffered : BufferedMessage
  fate : Fate := .waiting

namespace Arrival

def waiting (arrivals : List Arrival) : List BufferedMessage :=
  (arrivals.filter fun arrival => arrival.fate = .waiting).map Arrival.buffered

def evictOldest : List Arrival → List Arrival
  | [] => []
  | arrival :: arrivals =>
    if arrival.fate = .waiting then { arrival with fate := .evicted } :: arrivals
    else arrival :: evictOldest arrivals

def expire (fresh : BufferedMessage → Bool) (arrivals : List Arrival) : List Arrival :=
  arrivals.map fun arrival =>
    if arrival.fate = .waiting ∧ fresh arrival.buffered = false then { arrival with fate := .expired }
    else arrival

theorem waiting_append (arrivals arrivals' : List Arrival) :
    waiting (arrivals ++ arrivals') = waiting arrivals ++ waiting arrivals' := by
  simp [waiting]

theorem waiting_evictOldest (arrivals : List Arrival) :
    waiting (evictOldest arrivals) = (waiting arrivals).tail := by
  induction arrivals with
  | nil => rfl
  | cons arrival arrivals ih =>
    rw [evictOldest]
    split_ifs with hwaiting
    · simp [waiting, hwaiting]
    · simp only [waiting, List.filter_cons, decide_eq_false hwaiting] at ih ⊢
      exact ih

theorem waiting_expire (fresh : BufferedMessage → Bool) (arrivals : List Arrival) :
    waiting (expire fresh arrivals) = (waiting arrivals).filter fresh := by
  induction arrivals with
  | nil => rfl
  | cons arrival arrivals ih =>
    simp only [waiting, expire, List.map_cons, List.filter_cons] at ih ⊢
    rcases hfresh : fresh arrival.buffered with - | -
    · by_cases hwaiting : arrival.fate = .waiting
      · simp [hwaiting, hfresh, ih]
      · simp [hwaiting, ih]
    · by_cases hwaiting : arrival.fate = .waiting
      · simp [hwaiting, hfresh, ih]
      · simp [hwaiting, ih]

theorem mem_of_mem_evictOldest {arrivals : List Arrival} {arrival : Arrival}
    (h : arrival ∈ evictOldest arrivals) : arrival.fate = .evicted ∨ arrival ∈ arrivals := by
  induction arrivals with
  | nil => cases h
  | cons first arrivals ih =>
    rw [evictOldest] at h
    split_ifs at h
    · rcases List.mem_cons.mp h with rfl | h
      · exact .inl rfl
      · exact .inr (List.mem_cons_of_mem _ h)
    · rcases List.mem_cons.mp h with rfl | h
      · exact .inr List.mem_cons_self
      · exact (ih h).imp_right (List.mem_cons_of_mem _)

end Arrival

/-! ## Runs -/

/-- **The queues over time**, with all messages that came to each queue since it was last
emptied. -/
structure FailoverWorld where
  queue : FailoverMessageQueue
  clock : ℕ := 0
  arrivals : Str → List Arrival := fun _ => []

inductive FailoverEvent
  | enqueue (nickname : Str) (message : Message) (now : ℕ)
  | drain (nickname : Str) (now : ℕ)
  | remove (nickname : Str)
  | rename (oldNick newNick : Str)
  | expireAll (now : ℕ)

def FailoverEvent.time : FailoverEvent → Option ℕ
  | enqueue _ _ now => some now
  | drain _ now => some now
  | remove _ => none
  | rename _ _ => none
  | expireAll now => some now

/-- The messages of all queues once a message is queued: the oldest of a full queue makes room for
it. -/
def arrivalsEnqueue (max : ℕ) (arrivals : List Arrival) (buffered : BufferedMessage) : List Arrival :=
  (if max ≤ (Arrival.waiting arrivals).length then Arrival.evictOldest arrivals else arrivals) ++
    [⟨buffered, .waiting⟩]

/-- The messages of all queues once one of them is renamed. -/
def arrivalsRename (arrivals : Str → List Arrival) (oldKey newKey key : Str) : List Arrival :=
  if oldKey = newKey then arrivals key
  else if key = newKey then arrivals key ++ arrivals oldKey
  else if key = oldKey then []
  else arrivals key

/-- **The operations, in any order**, while time goes on. -/
def failoverEvents : System FailoverWorld FailoverEvent where
  enabled w event := ∀ now ∈ event.time, w.clock ≤ now
  step w event :=
    match event with
    | .enqueue nickname message now =>
      { queue := (w.queue.enqueue nickname message now).2, clock := now
        arrivals := Function.update w.arrivals (lowercase nickname)
          (arrivalsEnqueue w.queue.maxPerUser (w.arrivals (lowercase nickname)) ⟨message, now⟩) }
    | .drain nickname now =>
      { queue := (w.queue.drain nickname now).2, clock := now
        arrivals := Function.update w.arrivals (lowercase nickname) [] }
    | .remove nickname =>
      { w with
        queue := w.queue.remove nickname
        arrivals := Function.update w.arrivals (lowercase nickname) [] }
    | .rename oldNick newNick =>
      { w with
        queue := w.queue.rename oldNick newNick
        arrivals := arrivalsRename w.arrivals (lowercase oldNick) (lowercase newNick) }
    | .expireAll now =>
      { queue := w.queue.expireAll now, clock := now
        arrivals := fun key =>
          Arrival.expire (fun buffered => w.queue.fresh now buffered) (w.arrivals key) }

namespace FailoverWorld

open FailoverMessageQueue

/-- The queues hold what arrived and waits, and what expired stays expired. -/
structure Sound (max ttl : ℕ) (w : FailoverWorld) : Prop where
  limits : w.queue.maxPerUser = max ∧ w.queue.ttl = ttl
  waiting : ∀ key, w.queue.queued key = Arrival.waiting (w.arrivals key)
  expired : ∀ key, ∀ arrival ∈ w.arrivals key, arrival.fate = .expired →
    ∀ later, w.clock ≤ later → w.queue.fresh later arrival.buffered = false

variable {max ttl : ℕ} {w : FailoverWorld} {nickname : Str} {now : ℕ}

theorem limits_step (event : FailoverEvent) :
    (failoverEvents.step w event).queue.maxPerUser = w.queue.maxPerUser ∧
      (failoverEvents.step w event).queue.ttl = w.queue.ttl := by
  cases event with
  | enqueue => exact ⟨rfl, rfl⟩
  | drain nickname now =>
    simp only [failoverEvents, drain]
    split
    · exact ⟨rfl, rfl⟩
    · exact ⟨rfl, rfl⟩
  | remove => exact ⟨rfl, rfl⟩
  | rename oldNick newNick =>
    simp only [failoverEvents, rename]
    split_ifs
    · exact ⟨rfl, rfl⟩
    · split
      · exact ⟨rfl, rfl⟩
      · exact ⟨rfl, rfl⟩
  | expireAll => exact ⟨rfl, rfl⟩

theorem fresh_step (event : FailoverEvent) :
    (failoverEvents.step w event).queue.fresh = w.queue.fresh := by
  funext now buffered
  rw [fresh, fresh, (limits_step event).2]

theorem clock_step {event : FailoverEvent} (h : failoverEvents.enabled w event) :
    w.clock ≤ (failoverEvents.step w event).clock := by
  cases event with
  | enqueue _ _ now => exact h now rfl
  | drain _ now => exact h now rfl
  | remove => exact Nat.le_refl _
  | rename => exact Nat.le_refl _
  | expireAll now => exact h now rfl

theorem waiting_step (h : w.Sound max ttl) (event : FailoverEvent) (key : Str) :
    (failoverEvents.step w event).queue.queued key =
      Arrival.waiting ((failoverEvents.step w event).arrivals key) := by
  cases event with
  | enqueue nickname message now =>
    simp only [failoverEvents, queued_enqueue]
    split_ifs with hkey hfull
    · subst hkey
      rw [h.waiting] at hfull ⊢
      rw [Function.update_self, arrivalsEnqueue, if_pos hfull, Arrival.waiting_append,
        Arrival.waiting_evictOldest]
      rfl
    · subst hkey
      rw [h.waiting] at hfull ⊢
      rw [Function.update_self, arrivalsEnqueue, if_neg hfull, Arrival.waiting_append]
      rfl
    · rw [Function.update_of_ne hkey]
      exact h.waiting key
  | drain nickname now =>
    simp only [failoverEvents, queued_drain]
    split_ifs with hkey
    · rw [hkey, Function.update_self]
      rfl
    · rw [Function.update_of_ne hkey]
      exact h.waiting key
  | remove nickname =>
    simp only [failoverEvents, queued_remove]
    split_ifs with hkey
    · rw [hkey, Function.update_self]
      rfl
    · rw [Function.update_of_ne hkey]
      exact h.waiting key
  | rename oldNick newNick =>
    simp only [failoverEvents, queued_rename, arrivalsRename]
    split_ifs
    · exact h.waiting key
    · rw [Arrival.waiting_append, h.waiting, h.waiting]
    · rfl
    · exact h.waiting key
  | expireAll now =>
    simp only [failoverEvents, queued_expireAll, Arrival.waiting_expire]
    rw [h.waiting]

theorem expired_step {event : FailoverEvent} {key : Str} {arrival : Arrival}
    (hmem : arrival ∈ (failoverEvents.step w event).arrivals key) (hfate : arrival.fate = .expired) :
    (∃ key', arrival ∈ w.arrivals key') ∨
      w.queue.fresh (failoverEvents.step w event).clock arrival.buffered = false := by
  cases event with
  | enqueue nickname message now =>
    simp only [failoverEvents, Function.update_apply] at hmem
    split_ifs at hmem
    · rcases List.mem_append.mp hmem with hmem | hmem
      · split_ifs at hmem
        · rcases Arrival.mem_of_mem_evictOldest hmem with hevicted | hmem
          · cases hfate.symm.trans hevicted
          · exact .inl ⟨_, hmem⟩
        · exact .inl ⟨_, hmem⟩
      · rw [List.mem_singleton.mp hmem] at hfate
        cases hfate
    · exact .inl ⟨_, hmem⟩
  | drain nickname now =>
    simp only [failoverEvents, Function.update_apply] at hmem
    split_ifs at hmem
    · cases hmem
    · exact .inl ⟨_, hmem⟩
  | remove nickname =>
    simp only [failoverEvents, Function.update_apply] at hmem
    split_ifs at hmem
    · cases hmem
    · exact .inl ⟨_, hmem⟩
  | rename oldNick newNick =>
    simp only [failoverEvents, arrivalsRename] at hmem
    split_ifs at hmem
    · exact .inl ⟨_, hmem⟩
    · rcases List.mem_append.mp hmem with hmem | hmem
      · exact .inl ⟨_, hmem⟩
      · exact .inl ⟨_, hmem⟩
    · cases hmem
    · exact .inl ⟨_, hmem⟩
  | expireAll now =>
    obtain ⟨before, hbefore, rfl⟩ := List.mem_map.mp hmem
    split_ifs at hfate ⊢ with hold
    · exact .inr hold.2
    · exact .inl ⟨_, hbefore⟩

/-- **What an operation keeps.** -/
theorem sound_step {event : FailoverEvent} (h : w.Sound max ttl)
    (henabled : failoverEvents.enabled w event) : (failoverEvents.step w event).Sound max ttl where
  limits := ⟨(limits_step event).1.trans h.limits.1, (limits_step event).2.trans h.limits.2⟩
  waiting := waiting_step h event
  expired := by
    intro key arrival hmem hfate later hlater
    rw [fresh_step]
    rcases expired_step hmem hfate with ⟨key', hbefore⟩ | hold
    · exact h.expired key' arrival hbefore hfate later ((clock_step henabled).trans hlater)
    · simp only [fresh, decide_eq_false_iff_not, not_lt] at hold ⊢
      omega

/-! ## What a user gets -/

/-- **What a user should get**: what came to its queue, and was neither evicted nor is expired. -/
def due (w : FailoverWorld) (nickname : Str) (now : ℕ) : List Arrival :=
  (w.arrivals (lowercase nickname)).filter fun arrival =>
    arrival.fate ≠ .evicted ∧ w.queue.fresh now arrival.buffered = true

theorem map_due (h : w.Sound max ttl) (hclock : w.clock ≤ now) :
    (w.due nickname now).map Arrival.buffered =
      (w.queue.queued (lowercase nickname)).filter fun buffered => w.queue.fresh now buffered := by
  rw [h.waiting, Arrival.waiting, List.filter_map, List.filter_filter, due]
  congr 1
  apply List.filter_congr
  intro arrival hmem
  rcases hfate : arrival.fate with - | - | -
  · simp
  · simp
  · simp [h.expired _ arrival hmem hfate now hclock]

theorem drain_eq_due (h : w.Sound max ttl) (hclock : w.clock ≤ now) :
    (w.queue.drain nickname now).1 =
      (w.due nickname now).map fun arrival => arrival.buffered.message := by
  rw [drain_fst, ← map_due h hclock, List.map_map]
  rfl

/-! ## The bound, and the order of time -/

def Bounded (max : ℕ) (w : FailoverWorld) : Prop := ∀ key, (w.queue.queued key).length ≤ max

/-- A rename puts no more messages together than the bound. -/
def Fits (max : ℕ) (w : FailoverWorld) : FailoverEvent → Prop
  | .rename oldNick newNick => lowercase oldNick = lowercase newNick ∨
    (w.queue.queued (lowercase newNick)).length + (w.queue.queued (lowercase oldNick)).length ≤ max
  | _ => True

/-- A rename puts no messages behind others. -/
def Unmixed (w : FailoverWorld) : FailoverEvent → Prop
  | .rename oldNick newNick => lowercase oldNick = lowercase newNick ∨
    w.queue.queued (lowercase newNick) = [] ∨ w.queue.queued (lowercase oldNick) = []
  | _ => True

theorem bounded_step {event : FailoverEvent} (hmax : 1 ≤ max) (h : w.Sound max ttl)
    (hbounded : w.Bounded max) (hfits : w.Fits max event) :
    (failoverEvents.step w event).Bounded max := by
  intro key
  have hkey := hbounded key
  cases event with
  | enqueue nickname message now =>
    simp only [failoverEvents, queued_enqueue, h.limits.1]
    split_ifs
    · rw [List.length_append, List.length_tail, List.length_singleton]
      omega
    · rw [List.length_append, List.length_singleton]
      omega
    · exact hkey
  | drain nickname now =>
    simp only [failoverEvents, queued_drain]
    split_ifs
    · exact Nat.zero_le _
    · exact hkey
  | remove nickname =>
    simp only [failoverEvents, queued_remove]
    split_ifs
    · exact Nat.zero_le _
    · exact hkey
  | rename oldNick newNick =>
    simp only [failoverEvents, queued_rename]
    split_ifs with hsame hnew
    · exact hkey
    · subst hnew
      rw [List.length_append]
      exact hfits.resolve_left hsame
    · exact Nat.zero_le _
    · exact hkey
  | expireAll now =>
    simp only [failoverEvents, queued_expireAll]
    exact (List.length_filter_le ..).trans hkey

def Ordered (w : FailoverWorld) : Prop :=
  ∀ key, (w.queue.queued key).Pairwise (fun earlier later => earlier.enqueuedAt ≤ later.enqueuedAt) ∧
    ∀ buffered ∈ w.queue.queued key, buffered.enqueuedAt ≤ w.clock

theorem ordered_step {event : FailoverEvent} (henabled : failoverEvents.enabled w event)
    (h : w.Ordered) (hunmixed : w.Unmixed event) : (failoverEvents.step w event).Ordered := by
  intro key
  obtain ⟨hkey, hpast⟩ := h key
  have hclock := clock_step henabled
  have hpast' : ∀ buffered ∈ w.queue.queued key,
      buffered.enqueuedAt ≤ (failoverEvents.step w event).clock :=
    fun buffered hmem => (hpast buffered hmem).trans hclock
  cases event with
  | enqueue nickname message now =>
    have happend : ∀ queue : List BufferedMessage, queue.Sublist (w.queue.queued key) →
        List.Pairwise (fun earlier later : BufferedMessage => earlier.enqueuedAt ≤ later.enqueuedAt)
          (queue ++ [⟨message, now⟩]) ∧
        ∀ buffered ∈ queue ++ [⟨message, now⟩], buffered.enqueuedAt ≤ now := by
      intro queue hsub
      have hnow : ∀ buffered ∈ queue, buffered.enqueuedAt ≤ now :=
        fun buffered hmem => hpast' buffered (hsub.subset hmem)
      refine ⟨List.pairwise_append.mpr ⟨hkey.sublist hsub, List.pairwise_singleton .., ?_⟩, ?_⟩
      · intro buffered hmem last hlast
        rw [List.mem_singleton.mp hlast]
        exact hnow buffered hmem
      · intro buffered hmem
        rcases List.mem_append.mp hmem with hmem | hmem
        · exact hnow buffered hmem
        · rw [List.mem_singleton.mp hmem]
    simp only [failoverEvents, queued_enqueue]
    split_ifs
    · exact happend _ (List.tail_sublist _)
    · exact happend _ (List.Sublist.refl _)
    · exact ⟨hkey, hpast'⟩
  | drain nickname now =>
    simp only [failoverEvents, queued_drain]
    split_ifs
    · exact ⟨.nil, fun _ hmem => by cases hmem⟩
    · exact ⟨hkey, hpast'⟩
  | remove nickname =>
    simp only [failoverEvents, queued_remove]
    split_ifs
    · exact ⟨.nil, fun _ hmem => by cases hmem⟩
    · exact ⟨hkey, hpast'⟩
  | rename oldNick newNick =>
    simp only [failoverEvents, queued_rename]
    split_ifs with hsame hnew
    · exact ⟨hkey, hpast'⟩
    · subst hnew
      rcases hunmixed.resolve_left hsame with hempty | hempty
      · rw [hempty, List.nil_append]
        exact h _
      · rw [hempty, List.append_nil]
        exact ⟨hkey, hpast'⟩
    · exact ⟨.nil, fun _ hmem => by cases hmem⟩
    · exact ⟨hkey, hpast'⟩
  | expireAll now =>
    simp only [failoverEvents, queued_expireAll]
    exact ⟨hkey.filter _, fun buffered hmem => hpast' buffered (List.mem_filter.mp hmem).1⟩

theorem Ordered.due (h : w.Ordered) (hsound : w.Sound max ttl) (hclock : w.clock ≤ now) :
    (w.due nickname now).Pairwise fun earlier later =>
      earlier.buffered.enqueuedAt ≤ later.buffered.enqueuedAt := by
  have hqueue := (h (lowercase nickname)).1.filter fun buffered => w.queue.fresh now buffered
  rw [← map_due hsound hclock, List.pairwise_map] at hqueue
  exact hqueue

def start (max ttl : ℕ) : FailoverWorld := { queue := { maxPerUser := max, ttl } }

theorem sound_start (max ttl : ℕ) : (start max ttl).Sound max ttl where
  limits := ⟨rfl, rfl⟩
  waiting := fun _ => rfl
  expired := by
    intro key arrival hmem
    cases hmem

end FailoverWorld

open FailoverWorld

/-- **Draining a queue** gives what came to it and was neither evicted nor is expired. Queues keep
to the bound in runs where no rename puts too many messages together, and are in the order of time
where no rename puts messages behind others. -/
theorem failover_drain {max : ℕ} (hmax : 1 ≤ max) (ttl : ℕ) {events : List FailoverEvent}
    (h : failoverEvents.Legal System.Free (start max ttl) events) :
    (∀ nickname now, (failoverEvents.exec (start max ttl) events).clock ≤ now →
      ((failoverEvents.exec (start max ttl) events).queue.drain nickname now).1 =
        ((failoverEvents.exec (start max ttl) events).due nickname now).map
          fun arrival => arrival.buffered.message) ∧
    (failoverEvents.Legal (fun w event => w.Fits max event) (start max ttl) events →
      (failoverEvents.exec (start max ttl) events).Bounded max) ∧
    (failoverEvents.Legal (fun w event => w.Unmixed event) (start max ttl) events →
      ∀ nickname now, (failoverEvents.exec (start max ttl) events).clock ≤ now →
        ((failoverEvents.exec (start max ttl) events).due nickname now).Pairwise
          fun earlier later => earlier.buffered.enqueuedAt ≤ later.buffered.enqueuedAt) := by
  have hsound : (failoverEvents.exec (start max ttl) events).Sound max ttl :=
    h.steps.invariant (fun w event henabled _ hw => sound_step hw henabled) (sound_start max ttl)
  refine ⟨fun nickname now hclock => drain_eq_due hsound hclock, ?_, ?_⟩
  · intro hfits
    have hboth : (failoverEvents.exec (start max ttl) events).Sound max ttl ∧
        (failoverEvents.exec (start max ttl) events).Bounded max :=
      hfits.steps.invariant (I := fun w => w.Sound max ttl ∧ w.Bounded max)
        (fun w event henabled hok hw => ⟨sound_step hw.1 henabled, bounded_step hmax hw.1 hw.2 hok⟩)
        ⟨sound_start max ttl, fun _ => Nat.zero_le _⟩
    exact hboth.2
  · intro hunmixed nickname now hclock
    have hordered : (failoverEvents.exec (start max ttl) events).Ordered :=
      hunmixed.steps.invariant (fun w event henabled hok hw => ordered_step henabled hw hok)
        fun _ => ⟨.nil, fun _ hmem => by cases hmem⟩
    exact hordered.due hsound hclock

/-- A message for Alice, a later one for Bob, and Alice takes Bob's nickname. -/
def aliceBecomesBob : List FailoverEvent :=
  [.enqueue "alice".toList ⟨none, .ping, []⟩ 1, .enqueue "Bob".toList ⟨none, .pong, []⟩ 2,
    .rename "alice".toList "bob".toList]

theorem legal_aliceBecomesBob : failoverEvents.Legal System.Free (start 1 60) aliceBecomesBob := by
  refine ⟨?_, trivial, ?_, trivial, ?_, trivial, trivial⟩
  · rintro now ⟨⟩
    decide
  · rintro now ⟨⟩
    decide
  · rintro now ⟨⟩

/-- The first of three messages for Alice is evicted, and the others follow her to a new
nickname. -/
def aliceLeaves : List FailoverEvent :=
  [.enqueue "alice".toList ⟨none, .ping, []⟩ 1, .enqueue "alice".toList ⟨none, .pong, []⟩ 2,
    .enqueue "Alice".toList ⟨none, .quit, []⟩ 3, .rename "alice".toList "carol".toList]

theorem failover_drain_aliceLeaves :
    (∀ nickname now, (failoverEvents.exec (start 2 60) aliceLeaves).clock ≤ now →
      ((failoverEvents.exec (start 2 60) aliceLeaves).queue.drain nickname now).1 =
        ((failoverEvents.exec (start 2 60) aliceLeaves).due nickname now).map
          fun arrival => arrival.buffered.message) ∧
    (failoverEvents.exec (start 2 60) aliceLeaves).Bounded 2 ∧
    ((failoverEvents.exec (start 2 60) aliceLeaves).due "carol".toList 4).Pairwise
      fun earlier later => earlier.buffered.enqueuedAt ≤ later.buffered.enqueuedAt := by
  have henabled : ∀ w : FailoverWorld, failoverEvents.enabled w
      (.rename "alice".toList "carol".toList) := by
    rintro w now ⟨⟩
  have hlegal : failoverEvents.Legal System.Free (start 2 60) aliceLeaves := by
    refine ⟨?_, trivial, ?_, trivial, ?_, trivial, henabled _, trivial, trivial⟩
    all_goals
      rintro now ⟨⟩
      decide
  obtain ⟨hdrain, hbounded, hordered⟩ := failover_drain (by decide) 60 hlegal
  obtain ⟨hfirst, -, hsecond, -, hthird, -, hrename, -⟩ := hlegal
  refine ⟨hdrain, hbounded ⟨hfirst, trivial, hsecond, trivial, hthird, trivial, hrename, .inr ?_, trivial⟩,
    hordered ⟨hfirst, trivial, hsecond, trivial, hthird, trivial, hrename, .inr (.inl rfl), trivial⟩ _ 4 ?_⟩
  · decide
  · decide

/-- **A rename breaks the order, and the bound**: Bob's later message comes before Alice's, and two
messages wait where one is the bound. -/
theorem failover_merged : failoverEvents.Legal System.Free (start 1 60) aliceBecomesBob ∧
    ((failoverEvents.exec (start 1 60) aliceBecomesBob).queue.queued "bob".toList).map
      BufferedMessage.enqueuedAt = [2, 1] ∧
    ((failoverEvents.exec (start 1 60) aliceBecomesBob).queue.drain "bob".toList 3).1 =
      [⟨none, .pong, []⟩, ⟨none, .ping, []⟩] ∧
    ¬ (failoverEvents.exec (start 1 60) aliceBecomesBob).Ordered ∧
    ¬ (failoverEvents.exec (start 1 60) aliceBecomesBob).Bounded 1 := by
  refine ⟨legal_aliceBecomesBob, rfl, rfl, ?_, ?_⟩
  · intro hordered
    have hpairwise := (hordered "bob".toList).1
    exact absurd hpairwise (by decide)
  · intro hbounded
    exact absurd (hbounded "bob".toList) (by decide)

end Pirc.Server
