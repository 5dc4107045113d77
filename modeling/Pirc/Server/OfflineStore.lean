import Pirc.Server.Registry

/-!
# Server: messages for users who are not there

`offline_store.rs`: messages wait for a nickname until its user registers. The store takes no more
than so many messages for a user and so many bytes altogether, and forgets a message after some
time.

## Main results

* `queueMessage_fst`, `queued_queueMessage`: a message that is taken waits behind the others
* `takeMessages_fst`, `queued_takeMessages`: what waits is handed out, and nothing is left
* `deliveryOrder_perm`: messages are delivered, each of them once
-/

namespace Pirc.Server

open Protocol

/-- A message with the time it was queued at, in nanoseconds, and its size in bytes. -/
structure QueuedMessage where
  message : Message
  queuedAt : ℕ
  size : ℕ

/-- The queues, and their limits. -/
structure OfflineMessageStore where
  queues : FoldMap Nickname.fold (List QueuedMessage) := ∅
  maxMessagesPerUser : ℕ := 100
  maxTotalBytes : ℕ := 10 * 1024 * 1024
  messageTtl : ℕ := 7 * 24 * 3600 * 10 ^ 9
  totalBytes : ℕ := 0

/-- The bytes of a message on the wire, without the end of the line. -/
def estimateMessageSize (msg : Message) : ℕ := (utf8 msg.toWire).length

namespace OfflineMessageStore

def fresh (store : OfflineMessageStore) (now : ℕ) (queued : QueuedMessage) : Bool :=
  now - queued.queuedAt < store.messageTtl

/-- Queue a message; false if it is over a limit. What expired for the nickname is forgotten. -/
def queueMessage (store : OfflineMessageStore) (nick : Nickname) (message : Message) (now : ℕ) :
    Bool × OfflineMessageStore :=
  let size := estimateMessageSize message
  if store.maxTotalBytes < store.totalBytes + size then (false, store)
  else
    let entry := (store.queues.get nick).getD []
    let queue := entry.filter fun queued => store.fresh now queued
    let freed := ((entry.filter fun queued => !store.fresh now queued).map QueuedMessage.size).sum
    let store := { store with
      queues := store.queues.insert nick queue
      totalBytes := store.totalBytes - freed }
    if store.maxMessagesPerUser ≤ queue.length then (false, store)
    else
      (true, { store with
        queues := store.queues.insert nick (queue ++ [⟨message, now, size⟩])
        totalBytes := store.totalBytes + size })

/-- Take the messages of a nickname out of the store; those that expired are dropped. -/
def takeMessages (store : OfflineMessageStore) (nick : Nickname) (now : ℕ) :
    List Message × OfflineMessageStore :=
  match store.queues.get nick with
  | none => ([], store)
  | some queue =>
    ((queue.filter fun queued => store.fresh now queued).map QueuedMessage.message,
      { store with
        queues := store.queues.remove nick
        totalBytes := store.totalBytes - (queue.map QueuedMessage.size).sum })

/-- The place of a message in a delivery: key exchanges come first. -/
def deliveryRank (msg : Message) : ℕ :=
  match msg.command with
  | .pirc .keyExchange => 0
  | .pirc .keyExchangeAck => 1
  | .pirc .keyExchangeComplete => 2
  | _ => 3

/-- Messages sorted by their rank, those of one rank as they were. -/
def deliveryOrder (messages : List Message) : List Message :=
  messages.mergeSort fun msg other => deliveryRank msg ≤ deliveryRank other

/-! ## What waits -/

def queued (store : OfflineMessageStore) (nick : Nickname) : List QueuedMessage :=
  (store.queues.get nick).getD []

/-- The messages that wait for a nickname, less those that expired. -/
def waiting (store : OfflineMessageStore) (nick : Nickname) (now : ℕ) : List Message :=
  ((store.queued nick).filter fun queued => store.fresh now queued).map QueuedMessage.message

def expired (store : OfflineMessageStore) (nick : Nickname) (now : ℕ) : List Message :=
  ((store.queued nick).filter fun queued => !store.fresh now queued).map QueuedMessage.message

def overBytes (store : OfflineMessageStore) (message : Message) : Bool :=
  store.maxTotalBytes < store.totalBytes + estimateMessageSize message

/-- The store refuses a message: it has no room for its bytes, or enough messages wait already. -/
def refuses (store : OfflineMessageStore) (nick : Nickname) (message : Message) (now : ℕ) : Bool :=
  store.overBytes message || decide (store.maxMessagesPerUser ≤ (store.waiting nick now).length)

variable {store : OfflineMessageStore} {nick target : Nickname} {message : Message} {now : ℕ}

theorem queued_congr (h : target.fold = nick.fold) : store.queued target = store.queued nick := by
  rw [queued, queued, FoldMap.get, FoldMap.get, h]

/-- **What waits and what is too old** is all there is. -/
theorem waiting_append_expired (store : OfflineMessageStore) (nick : Nickname) (now : ℕ) :
    (store.waiting nick now ++ store.expired nick now).Perm
      ((store.queued nick).map QueuedMessage.message) := by
  rw [waiting, expired, ← List.map_append]
  exact (List.filter_append_perm _ _).map _

theorem queueMessage_fst :
    (store.queueMessage nick message now).1 = !store.refuses nick message now := by
  unfold queueMessage refuses overBytes waiting queued
  by_cases hbytes : store.maxTotalBytes < store.totalBytes + estimateMessageSize message
  · simp [hbytes]
  · simp only [if_neg hbytes, decide_eq_false hbytes, Bool.false_or, List.length_map]
    split_ifs with hcount
    · rw [decide_eq_true hcount]
      rfl
    · rw [decide_eq_false hcount]
      rfl

/-- **Queueing** adds a message behind those that wait, if it is taken, and forgets what is too
old. -/
theorem queued_queueMessage (hbytes : store.overBytes message = false) :
    (store.queueMessage target message now).2.queued target =
      (store.queued target).filter (fun queued => store.fresh now queued) ++
        if store.refuses target message now then []
        else [⟨message, now, estimateMessageSize message⟩] := by
  have hroom := of_decide_eq_false hbytes
  have hrefuses : store.refuses target message now =
      decide (store.maxMessagesPerUser ≤ (store.waiting target now).length) := by
    rw [refuses, hbytes, Bool.false_or]
  rw [hrefuses, waiting, List.length_map]
  by_cases hcount : store.maxMessagesPerUser ≤
      ((store.queued target).filter fun queued => store.fresh now queued).length
  · -- the queue is full
    rw [decide_eq_true hcount, if_pos rfl, List.append_nil]
    simp only [queued] at hcount ⊢
    simp only [queueMessage, if_neg hroom, if_pos hcount, FoldMap.get_insert_self, Option.getD_some]
  · rw [decide_eq_false hcount, if_neg Bool.false_ne_true]
    simp only [queued] at hcount ⊢
    simp only [queueMessage, if_neg hroom, if_neg hcount, FoldMap.get_insert_self, Option.getD_some]

theorem queueMessage_of_overBytes (hbytes : store.overBytes message = true) :
    store.queueMessage target message now = (false, store) := by
  have hfull := of_decide_eq_true hbytes
  unfold queueMessage
  rw [if_pos hfull]

/-- **Taking** hands out what waits. -/
theorem takeMessages_fst : (store.takeMessages nick now).1 = store.waiting nick now := by
  unfold takeMessages waiting queued
  rcases store.queues.get nick with - | queue
  · rfl
  · rfl

theorem queued_takeMessages : (store.takeMessages nick now).2.queued nick = [] := by
  unfold takeMessages queued
  rcases hqueue : store.queues.get nick with - | queue
  · simp [hqueue]
  · simp [FoldMap.get, FoldMap.lookup_remove]

theorem deliveryOrder_perm (messages : List Message) : (deliveryOrder messages).Perm messages :=
  List.mergeSort_perm ..

end OfflineMessageStore

end Pirc.Server
