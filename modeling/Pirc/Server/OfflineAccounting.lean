import Pirc.Lib.Run
import Pirc.Server.OfflineStore

/-!
# Server: what the offline store counts

The store counts the bytes of its messages apart from the queues, and forgets old messages only in
the queue that it works on. The limit on all bytes is looked at before anything is forgotten: where
old messages fill the store, a message is refused although those that are not expired leave room for
it, and nothing is ever forgotten by queueing.
-/

namespace Pirc.Server

open Protocol

namespace OfflineMessageStore

variable {store : OfflineMessageStore} {nick target : Nickname} {message : Message} {now : ℕ}

def bytes (queue : List QueuedMessage) : ℕ :=
  (queue.map fun queued => estimateMessageSize queued.message).sum

def storedBytes (store : OfflineMessageStore) : ℕ := (store.queues.values.map bytes).sum

def freshBytes (store : OfflineMessageStore) (now : ℕ) : ℕ :=
  (store.queues.values.map fun queue => bytes (queue.filter fun queued => store.fresh now queued)).sum

def Sized (store : OfflineMessageStore) : Prop :=
  ∀ nick, ∀ queued ∈ store.queued nick, queued.size = estimateMessageSize queued.message

theorem bytes_append (queue queue' : List QueuedMessage) :
    bytes (queue ++ queue') = bytes queue + bytes queue' := by
  simp [bytes]

theorem bytes_filter_add (p : QueuedMessage → Bool) (queue : List QueuedMessage) :
    bytes (queue.filter p) + bytes (queue.filter fun queued => !p queued) = bytes queue := by
  have hperm := List.filter_append_perm p queue
  rw [← bytes_append]
  exact (hperm.map _).sum_eq

theorem sum_size (hsized : store.Sized) (nick : Nickname) (queue : List QueuedMessage)
    (hqueue : ∀ queued ∈ queue, queued ∈ store.queued nick) :
    (queue.map QueuedMessage.size).sum = bytes queue := by
  rw [bytes, List.map_congr_left fun queued hmem => hsized nick queued (hqueue queued hmem)]

theorem storedBytes_eq (store : OfflineMessageStore) (nick : Nickname) : store.storedBytes =
    bytes (store.queued nick) + ((store.queues.remove nick).values.map bytes).sum := by
  unfold storedBytes queued
  rcases hqueue : store.queues.get nick with - | queue
  · rw [FoldMap.remove_of_get_eq_none hqueue]
    simp [bytes]
  · rw [((FoldMap.values_perm_of_get hqueue).map bytes).sum_eq]
    rfl

def freshQueue (store : OfflineMessageStore) (nick : Nickname) (now : ℕ) : List QueuedMessage :=
  (store.queued nick).filter fun queued => store.fresh now queued

def setQueue (store : OfflineMessageStore) (nick : Nickname) (queue : List QueuedMessage)
    (total : ℕ) : OfflineMessageStore :=
  { store with queues := store.queues.insert nick queue, totalBytes := total }

def purge (store : OfflineMessageStore) (nick : Nickname) (now : ℕ) : OfflineMessageStore :=
  store.setQueue nick (store.freshQueue nick now) (store.totalBytes -
    (((store.queued nick).filter fun queued => !store.fresh now queued).map QueuedMessage.size).sum)

def push (store : OfflineMessageStore) (nick : Nickname) (message : Message) (now : ℕ) :
    OfflineMessageStore :=
  store.setQueue nick (store.queued nick ++ [⟨message, now, estimateMessageSize message⟩])
    (store.totalBytes + estimateMessageSize message)

def clear (store : OfflineMessageStore) (nick : Nickname) : OfflineMessageStore :=
  { store with
    queues := store.queues.remove nick
    totalBytes := store.totalBytes - ((store.queued nick).map QueuedMessage.size).sum }

@[simp] theorem queued_setQueue {queue : List QueuedMessage} {total : ℕ} :
    (store.setQueue nick queue total).queued target =
      if target.fold = nick.fold then queue else store.queued target := by
  unfold setQueue queued
  rw [FoldMap.get_insert]
  rcases eq_or_ne target.fold nick.fold with heq | hne
  · rw [if_pos heq.symm, if_pos heq]
    rfl
  · rw [if_neg hne.symm, if_neg hne]

@[simp] theorem queued_clear :
    (store.clear nick).queued target = if target.fold = nick.fold then [] else store.queued target := by
  unfold clear queued
  rw [FoldMap.get_remove]
  rcases eq_or_ne target.fold nick.fold with heq | hne
  · rw [if_pos heq.symm, if_pos heq]
    rfl
  · rw [if_neg hne.symm, if_neg hne]

/-- **Queueing a message**: it is refused at once if there is no room for its bytes; otherwise what
expired is forgotten first. -/
theorem queueMessage_eq : store.queueMessage nick message now =
    if store.overBytes message then (false, store)
    else if store.maxMessagesPerUser ≤ (store.freshQueue nick now).length then
      (false, store.purge nick now)
    else (true, (store.purge nick now).push nick message now) := by
  have hpurged : (store.purge nick now).queued nick = store.freshQueue nick now := by
    rw [purge, queued_setQueue, if_pos rfl]
  unfold queueMessage overBytes
  simp only [decide_eq_true_eq]
  rw [push, hpurged]
  rfl

theorem takeMessages_eq : store.takeMessages nick now =
    ((store.freshQueue nick now).map QueuedMessage.message, store.clear nick) := by
  unfold takeMessages freshQueue clear queued
  rcases hqueue : store.queues.get nick with - | queue
  · rw [FoldMap.remove_of_get_eq_none hqueue]
    rfl
  · rfl

/-! ## The count of the bytes -/

/-- **The store counts right**: every message has its size, and their sum and the length of each
queue are within the limits. -/
structure Counted (store : OfflineMessageStore) : Prop where
  sized : store.Sized
  counted : store.totalBytes = store.storedBytes
  within : store.totalBytes ≤ store.maxTotalBytes
  short : ∀ nick, (store.queued nick).length ≤ store.maxMessagesPerUser

theorem storedBytes_setQueue (store : OfflineMessageStore) (nick : Nickname)
    (queue : List QueuedMessage) (total : ℕ) :
    (store.setQueue nick queue total).storedBytes + bytes (store.queued nick) =
      store.storedBytes + bytes queue := by
  have hinsert := ((FoldMap.values_insert_perm (m := store.queues) (k := nick) (v := queue)).map
    bytes).sum_eq
  have hstore := store.storedBytes_eq nick
  rw [setQueue, storedBytes, hinsert, hstore, List.map_cons, List.sum_cons]
  omega

theorem Counted.setQueue {queue : List QueuedMessage} {total : ℕ} (h : store.Counted)
    (hsized : ∀ queued ∈ queue, queued.size = estimateMessageSize queued.message)
    (htotal : total + bytes (store.queued nick) = store.totalBytes + bytes queue)
    (hwithin : total ≤ store.maxTotalBytes) (hshort : queue.length ≤ store.maxMessagesPerUser) :
    (store.setQueue nick queue total).Counted where
  sized := by
    intro target queued hmem
    rw [queued_setQueue] at hmem
    split_ifs at hmem
    · exact hsized queued hmem
    · exact h.sized target queued hmem
  counted := by
    have hstored := store.storedBytes_setQueue nick queue total
    have hcounted := h.counted
    change total = _
    omega
  within := hwithin
  short := by
    intro target
    rw [queued_setQueue]
    split_ifs
    · exact hshort
    · exact h.short target

theorem bytes_le_storedBytes (store : OfflineMessageStore) (nick : Nickname) :
    bytes (store.queued nick) ≤ store.storedBytes :=
  Nat.le.intro (store.storedBytes_eq nick).symm

theorem Counted.purge (h : store.Counted) : (store.purge nick now).Counted := by
  have hsum := sum_size h.sized nick
    ((store.queued nick).filter fun queued => !store.fresh now queued)
    fun queued hmem => (List.mem_filter.mp hmem).1
  have hsplit := bytes_filter_add (fun queued => store.fresh now queued) (store.queued nick)
  have hle := store.bytes_le_storedBytes nick
  have hcounted := h.counted
  refine h.setQueue ?_ ?_ ?_ ?_
  · intro queued hmem
    exact h.sized nick queued (List.mem_filter.mp hmem).1
  · rw [hsum, freshQueue]
    omega
  · exact (Nat.sub_le ..).trans h.within
  · exact (List.length_filter_le ..).trans (h.short nick)

theorem Counted.push (h : store.Counted)
    (hroom : store.totalBytes + estimateMessageSize message ≤ store.maxTotalBytes)
    (hshort : (store.queued nick).length < store.maxMessagesPerUser) :
    (store.push nick message now).Counted := by
  refine h.setQueue ?_ ?_ hroom ?_
  · intro queued hmem
    rcases List.mem_append.mp hmem with hmem | hmem
    · exact h.sized nick queued hmem
    · rw [List.mem_singleton.mp hmem]
  · rw [bytes_append]
    simp only [bytes, List.map_cons, List.map_nil, List.sum_cons, List.sum_nil]
    omega
  · rw [List.length_append]
    exact hshort

theorem Counted.clear (h : store.Counted) : (store.clear nick).Counted where
  sized := by
    intro target queued hmem
    rw [queued_clear] at hmem
    split_ifs at hmem
    · cases hmem
    · exact h.sized target queued hmem
  counted := by
    have hsum := sum_size h.sized nick (store.queued nick) fun _ hmem => hmem
    have hstored := store.storedBytes_eq nick
    have hcounted := h.counted
    change store.totalBytes - _ = ((store.queues.remove nick).values.map bytes).sum
    omega
  within := (Nat.sub_le ..).trans h.within
  short := by
    intro target
    rw [queued_clear]
    split_ifs
    · exact Nat.zero_le _
    · exact h.short target

/-! ## The limits -/

def SameLimits (store store' : OfflineMessageStore) : Prop :=
  store'.maxMessagesPerUser = store.maxMessagesPerUser ∧
    store'.maxTotalBytes = store.maxTotalBytes ∧ store'.messageTtl = store.messageTtl

theorem sameLimits_queueMessage (store : OfflineMessageStore) (nick : Nickname) (message : Message)
    (now : ℕ) : store.SameLimits (store.queueMessage nick message now).2 := by
  rw [queueMessage_eq]
  split_ifs
  · exact ⟨rfl, rfl, rfl⟩
  · exact ⟨rfl, rfl, rfl⟩
  · exact ⟨rfl, rfl, rfl⟩

theorem SameLimits.fresh {store' : OfflineMessageStore} (h : store.SameLimits store') :
    store'.fresh = store.fresh := by
  funext now queued
  rw [OfflineMessageStore.fresh, OfflineMessageStore.fresh, h.2.2]

theorem fresh_of_le {queued : QueuedMessage} {later : ℕ} (hle : now ≤ later)
    (h : store.fresh later queued = true) : store.fresh now queued = true := by
  simp only [fresh, decide_eq_true_eq] at h ⊢
  omega

theorem filter_freshQueue {later : ℕ} (hle : now ≤ later) :
    (store.freshQueue nick now).filter (fun queued => store.fresh later queued) =
      (store.queued nick).filter fun queued => store.fresh later queued := by
  rw [freshQueue, List.filter_filter]
  apply List.filter_congr
  intro queued _
  rcases hfresh : store.fresh later queued with - | -
  · rfl
  · rw [fresh_of_le hle hfresh]
    rfl

end OfflineMessageStore

/-! ## Runs -/

/-- **The store over time**, with what was taken in for each user since the last delivery. -/
structure OfflineWorld where
  store : OfflineMessageStore
  clock : ℕ := 0
  accepted : Str → List QueuedMessage := fun _ => []

inductive OfflineEvent
  | queue (nick : Nickname) (message : Message) (now : ℕ)
  | take (nick : Nickname) (now : ℕ)

def OfflineEvent.time : OfflineEvent → ℕ
  | queue _ _ now => now
  | take _ now => now

/-- **Messages are queued and taken**, while time goes on. -/
def offlineEvents : System OfflineWorld OfflineEvent where
  enabled w event := w.clock ≤ event.time
  step w event :=
    match event with
    | .queue nick message now =>
      let (stored, store) := w.store.queueMessage nick message now
      { store, clock := now
        accepted :=
          if stored then
            Function.update w.accepted nick.fold
              (w.accepted nick.fold ++ [⟨message, now, estimateMessageSize message⟩])
          else w.accepted }
    | .take nick now =>
      { store := (w.store.takeMessages nick now).2, clock := now
        accepted := Function.update w.accepted nick.fold [] }

namespace OfflineWorld

open OfflineMessageStore

/-- The store counts right, and what lies in it is what was taken in, but for what expired. -/
structure Sound (limits : OfflineMessageStore) (w : OfflineWorld) : Prop where
  limited : limits.SameLimits w.store
  counted : w.store.Counted
  kept : ∀ nick later, w.clock ≤ later →
    (w.store.queued nick).filter (fun queued => w.store.fresh later queued) =
      (w.accepted nick.fold).filter fun queued => w.store.fresh later queued

variable {limits : OfflineMessageStore} {w : OfflineWorld} {nick : Nickname} {message : Message} {now : ℕ}

theorem Sound.kept_purge (h : w.Sound limits) (hclock : w.clock ≤ now) (nick target : Nickname)
    {later : ℕ} (hlater : now ≤ later) :
    ((w.store.purge nick now).queued target).filter (fun queued => w.store.fresh later queued) =
      (w.accepted target.fold).filter fun queued => w.store.fresh later queued := by
  rw [purge, queued_setQueue]
  split_ifs with hfold
  · rw [filter_freshQueue hlater, ← queued_congr hfold, h.kept target later (hclock.trans hlater)]
  · exact h.kept target later (hclock.trans hlater)

/-- **What an operation keeps.** -/
theorem sound_step {event : OfflineEvent} (h : w.Sound limits)
    (henabled : offlineEvents.enabled w event) : (offlineEvents.step w event).Sound limits := by
  cases event with
  | queue nick message now =>
    have hclock : w.clock ≤ now := henabled
    have hlimits : limits.SameLimits (w.store.queueMessage nick message now).2 := by
      obtain ⟨hmessages, hbytes, httl⟩ := h.limited
      obtain ⟨hmessages', hbytes', httl'⟩ := w.store.sameLimits_queueMessage nick message now
      exact ⟨hmessages'.trans hmessages, hbytes'.trans hbytes, httl'.trans httl⟩
    simp only [offlineEvents]
    by_cases hbytes : w.store.overBytes message = true
    · -- there is no room for the bytes
      have heq : w.store.queueMessage nick message now = (false, w.store) := by
        rw [queueMessage_eq, if_pos hbytes]
      rw [heq] at hlimits ⊢
      refine ⟨hlimits, h.counted, ?_⟩
      intro target later hlater
      exact h.kept target later (hclock.trans hlater)
    by_cases hcount : w.store.maxMessagesPerUser ≤ (w.store.freshQueue nick now).length
    · -- the queue is full
      have heq : w.store.queueMessage nick message now = (false, w.store.purge nick now) := by
        rw [queueMessage_eq, if_neg hbytes, if_pos hcount]
      rw [heq] at hlimits ⊢
      exact ⟨hlimits, h.counted.purge, fun target later => h.kept_purge hclock nick target⟩
    · have heq : w.store.queueMessage nick message now =
          (true, (w.store.purge nick now).push nick message now) := by
        rw [queueMessage_eq, if_neg hbytes, if_neg hcount]
      rw [heq] at hlimits ⊢
      have hroom : w.store.totalBytes + estimateMessageSize message ≤ w.store.maxTotalBytes :=
        not_lt.mp fun hfull => hbytes (decide_eq_true hfull)
      have hpurged : (w.store.purge nick now).queued nick = w.store.freshQueue nick now := by
        rw [purge, queued_setQueue, if_pos rfl]
      refine ⟨hlimits, h.counted.purge.push ((Nat.add_le_add_right (Nat.sub_le ..) _).trans hroom) ?_, ?_⟩
      · rw [hpurged]
        exact not_le.mp hcount
      · intro target later hlater
        have hkept := h.kept_purge hclock nick target hlater
        change (((w.store.purge nick now).push nick message now).queued target).filter
          (fun queued => w.store.fresh later queued) = (Function.update w.accepted nick.fold
            (w.accepted nick.fold ++ [⟨message, now, estimateMessageSize message⟩])
              target.fold).filter fun queued => w.store.fresh later queued
        rw [push, queued_setQueue]
        by_cases hfold : target.fold = nick.fold
        · rw [queued_congr hfold, hfold] at hkept
          rw [if_pos hfold, hfold, Function.update_self, List.filter_append, List.filter_append, hkept]
        · rw [if_neg hfold, Function.update_of_ne hfold, hkept]
  | take nick now =>
    have hclock : w.clock ≤ now := henabled
    simp only [offlineEvents, takeMessages_eq]
    refine ⟨h.limited, h.counted.clear, ?_⟩
    intro target later hlater
    change ((w.store.clear nick).queued target).filter (fun queued => w.store.fresh later queued) =
      (Function.update w.accepted nick.fold [] target.fold).filter
        fun queued => w.store.fresh later queued
    rw [queued_clear]
    split_ifs with hfold
    · rw [hfold, Function.update_self]
    · rw [Function.update_of_ne hfold]
      exact h.kept target later (hclock.trans hlater)

/-! ## What the store should do -/

/-- **The store counts right**: it knows the bytes of all its messages, and is within its limits. -/
def Accounted (limits : OfflineMessageStore) (w : OfflineWorld) : Prop :=
  w.store.totalBytes = w.store.storedBytes ∧ w.store.totalBytes ≤ limits.maxTotalBytes ∧
    ∀ nick, (w.store.queued nick).length ≤ limits.maxMessagesPerUser

def HasRoom (limits : OfflineMessageStore) (w : OfflineWorld) (nick : Nickname) (message : Message)
    (now : ℕ) : Prop :=
  w.store.freshBytes now + estimateMessageSize message ≤ limits.maxTotalBytes ∧
    (w.store.waiting nick now).length < limits.maxMessagesPerUser

instance (limits : OfflineMessageStore) (w : OfflineWorld) (nick : Nickname) (message : Message)
    (now : ℕ) : Decidable (w.HasRoom limits nick message now) :=
  inferInstanceAs (Decidable (_ ∧ _))

/-- **An operation answers as it should**: a message is refused only if those that are not expired
leave no room for it, and what is taken is what was taken in and is not expired, in this order. -/
def Answers (limits : OfflineMessageStore) (w : OfflineWorld) : OfflineEvent → Prop
  | .queue nick message now =>
    (w.store.queueMessage nick message now).1 = false → ¬ w.HasRoom limits nick message now
  | .take nick now =>
    (w.store.takeMessages nick now).1 =
      ((w.accepted nick.fold).filter fun queued => limits.fresh now queued).map QueuedMessage.message

/-- **Old messages do not block**: it is not so that the messages that are not expired leave room,
and all that are stored do not. -/
def Unblocked (limits : OfflineMessageStore) (w : OfflineWorld) : OfflineEvent → Prop
  | .queue nick message now =>
    limits.maxTotalBytes < w.store.storedBytes + estimateMessageSize message →
      ¬ w.HasRoom limits nick message now
  | .take _ _ => True

theorem Sound.accounted (h : w.Sound limits) : w.Accounted limits :=
  ⟨h.counted.counted, h.limited.2.1 ▸ h.counted.within, h.limited.1 ▸ h.counted.short⟩

theorem Sound.answers_iff (h : w.Sound limits) {event : OfflineEvent}
    (henabled : offlineEvents.enabled w event) : w.Answers limits event ↔ w.Unblocked limits event := by
  cases event with
  | queue nick message now =>
    have hover : w.store.overBytes message = true ↔
        limits.maxTotalBytes < w.store.storedBytes + estimateMessageSize message := by
      rw [overBytes, decide_eq_true_eq, h.limited.2.1, h.counted.counted]
    rw [Answers, Unblocked, queueMessage_fst, Bool.not_eq_false', refuses, Bool.or_eq_true, hover,
      decide_eq_true_eq, h.limited.1]
    constructor
    · exact fun hanswers hbytes => hanswers (.inl hbytes)
    · rintro hunblocked (hbytes | hcount)
      · exact hunblocked hbytes
      · -- the limit on the queue is looked at when old messages are gone
        exact fun hroom => not_lt.mpr hcount hroom.2
  | take nick now =>
    refine iff_of_true ?_ trivial
    rw [Answers, takeMessages_fst, waiting, h.kept nick now henabled, h.limited.fresh]

def start (limits : OfflineMessageStore) : OfflineWorld :=
  ⟨{ limits with queues := ∅, totalBytes := 0 }, 0, fun _ => []⟩

theorem sound_start (limits : OfflineMessageStore) : (start limits).Sound limits where
  limited := ⟨rfl, rfl, rfl⟩
  counted := by
    refine ⟨?_, rfl, Nat.zero_le _, fun _ => Nat.zero_le _⟩
    intro nick queued hmem
    cases hmem
  kept := fun _ _ _ => rfl

end OfflineWorld

open OfflineWorld

/-- **Where the store does what it should.** In every run the store counts right; and it answers as
it should in exactly the runs where old messages never block a new one. -/
theorem offline_answers_iff (limits : OfflineMessageStore) {events : List OfflineEvent}
    (h : offlineEvents.Legal System.Free (start limits) events) :
    (∀ n, (offlineEvents.exec (start limits) (events.take n)).Accounted limits) ∧
      (offlineEvents.Legal (fun w event => w.Answers limits event) (start limits) events ↔
        offlineEvents.Legal (fun w event => w.Unblocked limits event) (start limits) events) := by
  refine ⟨?_, System.legal_congr (fun w event henabled hw => sound_step hw henabled)
    (fun w event henabled hw => hw.answers_iff henabled) (sound_start limits)⟩
  intro n
  have hsteps := (h.steps_take (Nat.zero_le n)).2
  exact (hsteps.invariant (fun w event henabled _ hw => sound_step hw henabled)
    (sound_start limits)).accounted

def smallStore : OfflineMessageStore := { maxTotalBytes := 40, messageTtl := 1 }

def shortMessage : Message := ⟨none, .pirc .encrypted, ["bob".toList, "h".toList]⟩

/-- Two messages expire before they are taken, and a third one is queued and taken. -/
def takenLate : List OfflineEvent :=
  [.queue bob shortMessage 0, .queue bob shortMessage 0, .take bob 100, .queue bob shortMessage 100,
    .take bob 100]

theorem offline_answers_iff_smallStore :
    (∀ n, (offlineEvents.exec (start smallStore) (takenLate.take n)).Accounted smallStore) ∧
      offlineEvents.Legal (fun w event => w.Answers smallStore event) (start smallStore) takenLate := by
  have hlegal : offlineEvents.Legal System.Free (start smallStore) takenLate :=
    ⟨Nat.le_refl 0, trivial, Nat.le_refl 0, trivial, Nat.zero_le 100, trivial, Nat.le_refl 100,
      trivial, Nat.le_refl 100, trivial, trivial⟩
  have hiff := offline_answers_iff smallStore hlegal
  -- no message comes when too many bytes are stored
  refine ⟨hiff.1, hiff.2.mpr ⟨Nat.le_refl 0, ?_, Nat.le_refl 0, ?_, Nat.zero_le 100, trivial,
    Nat.le_refl 100, ?_, Nat.le_refl 100, trivial, trivial⟩⟩
  all_goals exact fun hover => absurd hover (by decide)

/-- **A store full of messages that expired**: Bob's second message expired long ago, and his third
is refused all the same. -/
theorem not_answers_expired : ¬ offlineEvents.Legal (fun w event => w.Answers smallStore event)
    (start smallStore)
    [.queue bob shortMessage 0, .queue bob shortMessage 0, .queue bob shortMessage 100] := by
  rintro ⟨-, -, -, -, -, hanswers, -⟩
  exact hanswers (by decide) (by decide)

end Pirc.Server
