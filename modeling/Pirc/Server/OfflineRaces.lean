import Pirc.Lib.Run
import Pirc.Server.PircCommands

/-!
# Server: relays during a registration

A relay looks whether its target is there, and sends or queues its message in a later step. A user
who registers is first entered into the registry and then gets what waited. The steps of relays and
of the registration interleave: a relay that found nobody may queue its message when what waited was
handed out already.
-/

namespace Pirc.Server

open Protocol

/-! ## Steps -/

/-- How far a relay is, and what became of its message. -/
inductive RelayPhase
  | checking | sending | queueing
  | sent | queued | refused
  deriving DecidableEq

structure RelayCall where
  target : Nickname
  message : Message
  phase : RelayPhase := .checking

def RelayCall.accepted (call : RelayCall) : Bool := call.phase = .sent ∨ call.phase = .queued

inductive RegistrationPhase
  | absent | registered | served
  deriving DecidableEq

/-- **What relays to a nickname and its registration share**, and where they are. The mailbox is
what was sent to the user, and `expired` are the messages for it that the store forgot because of
their age. -/
structure Handover where
  registry : UserRegistry := {}
  store : OfflineMessageStore := {}
  relays : List RelayCall := []
  registration : RegistrationPhase := .absent
  mailbox : List Message := []
  expired : List Message := []

inductive HandoverEvent
  /-- A relay begins. -/
  | relay (target : Nickname) (message : Message)
  /-- It looks whether its target is there. -/
  | check (i : ℕ)
  /-- It sends or queues its message. -/
  | finish (i : ℕ) (now : ℕ)
  /-- The user is entered into the registry. -/
  | register
  /-- The user gets what waited. -/
  | serve (now : ℕ)

namespace Handover

def setPhase (w : Handover) (i : ℕ) (call : RelayCall) (phase : RelayPhase) : Handover :=
  { w with relays := w.relays.set i { call with phase := phase } }

/-- What queueing makes the store forget. -/
def forgotten (w : Handover) (call : RelayCall) (now : ℕ) : List Message :=
  if w.store.overBytes call.message then [] else w.store.expired call.target now

def step (session : UserSession) (w : Handover) : HandoverEvent → Handover
  | .relay target message => { w with relays := w.relays ++ [{ target, message }] }
  | .check i =>
    match w.relays[i]? with
    | some call =>
      w.setPhase i call (if (w.registry.getByNick call.target).isSome then .sending else .queueing)
    | none => w
  | .finish i now =>
    match w.relays[i]? with
    | some call =>
      if call.phase = .sending then
        { w with mailbox := w.mailbox ++ [call.message] }.setPhase i call .sent
      else
        let (taken, store) := w.store.queueMessage call.target call.message now
        { w with store := store, expired := w.expired ++ w.forgotten call now }.setPhase i call
          (if taken then .queued else .refused)
    | none => w
  | .register =>
    match w.registry.register session with
    | .ok registry => { w with registry := registry, registration := .registered }
    | .error _ => w
  | .serve now =>
    let (messages, store) := w.store.takeMessages session.nickname now
    { w with
      store := store
      registration := .served
      mailbox := w.mailbox ++ OfflineMessageStore.deliveryOrder messages
      expired := w.expired ++ w.store.expired session.nickname now }

def enabled (session : UserSession) (w : Handover) : HandoverEvent → Bool
  | .relay target _ => target.fold = session.nickname.fold
  | .check i => w.relays[i]?.any fun call => call.phase = .checking
  | .finish i _ => w.relays[i]?.any fun call => call.phase = .sending ∨ call.phase = .queueing
  | .register => w.registration = .absent
  | .serve _ => w.registration = .registered

/-- **The condition on a step**: a message that is queued is queued before what waits is handed out,
unless the store refuses it. -/
def Timely (w : Handover) : HandoverEvent → Bool
  | .finish i now => w.relays[i]?.all fun call =>
      call.phase = .sending ∨ w.registration ≠ .served ∨
        w.store.refuses call.target call.message now = true
  | _ => true

def Finished (w : Handover) : Prop :=
  w.registration = .served ∧ ∀ call ∈ w.relays, call.phase ∈ [.sent, .queued, .refused]

instance (w : Handover) : Decidable w.Finished := inferInstanceAs (Decidable (_ ∧ _))

end Handover

/-- **Relays to a nickname and its registration**, in any order of their steps. -/
def handoverSystem (session : UserSession) : System Handover HandoverEvent where
  enabled w e := w.enabled session e
  step := Handover.step session

instance (session : UserSession) (w : Handover) (e : HandoverEvent) :
    Decidable ((handoverSystem session).enabled w e) :=
  inferInstanceAs (Decidable (w.enabled session e = true))

/-! ## What becomes of messages -/

theorem filter_set_perm {α : Type} {p : α → Bool} {l : List α} {i : ℕ} {a b : α}
    (h : l[i]? = some a) (ha : p a = false) :
    ((l.set i b).filter p).Perm ((if p b then [b] else []) ++ l.filter p) := by
  induction l generalizing i with
  | nil => cases h
  | cons x l ih =>
    cases i with
    | zero =>
      cases h
      rw [List.set_cons_zero, List.filter_cons, List.filter_cons_of_neg (by simp [ha])]
      split_ifs
      · exact .refl _
      · exact .refl _
    | succ i =>
      have hrest := ih h
      rw [List.set_cons_succ, List.filter_cons, @List.filter_cons _ _ l]
      split_ifs at hrest ⊢
      · exact (hrest.cons x).trans (List.Perm.swap ..)
      · exact hrest.cons x
      · exact hrest
      · exact hrest

namespace Handover

variable {session : UserSession} {w : Handover} {i now : ℕ} {call : RelayCall}

/-- The messages of the relays that sent or queued them. -/
def accepted (w : Handover) : Multiset Message :=
  (w.relays.filter RelayCall.accepted).map RelayCall.message

def stored (session : UserSession) (w : Handover) : Multiset Message :=
  (w.store.queued session.nickname).map QueuedMessage.message

/-- **Every message is somewhere**: what lay in the store at the start and what relays sent or
queued is in the mailbox or in the store, or was forgotten because of its age. -/
def Accounted (session : UserSession) (start : Multiset Message) (w : Handover) : Prop :=
  (w.mailbox : Multiset Message) + w.expired + w.stored session = start + w.accepted

/-- All relays are to the nickname that registers, in some casing. -/
def OneTarget (session : UserSession) (w : Handover) : Prop :=
  ∀ call ∈ w.relays, call.target.fold = session.nickname.fold

/-- Nothing lies in the store for a user who got what waited. -/
def NothingLeft (session : UserSession) (w : Handover) : Prop :=
  w.registration = .served → w.store.queued session.nickname = []

theorem setPhase_accepted (hcall : w.relays[i]? = some call) (hpending : call.accepted = false)
    (phase : RelayPhase) : (w.setPhase i call phase).accepted =
      (if ({ call with phase := phase } : RelayCall).accepted then {call.message} else 0) +
        w.accepted := by
  have hset := (filter_set_perm (b := { call with phase := phase }) hcall hpending).map
    RelayCall.message
  have hbags := Multiset.coe_eq_coe.mpr hset
  rw [List.map_append, ← Multiset.coe_add] at hbags
  unfold accepted setPhase
  rw [hbags]
  split_ifs
  · rfl
  · rfl

theorem OneTarget.setPhase (hw : OneTarget session w) (hcall : w.relays[i]? = some call)
    (phase : RelayPhase) : OneTarget session (w.setPhase i call phase) := by
  intro call' hmem
  rcases List.mem_or_eq_of_mem_set hmem with hmem | rfl
  · exact hw call' hmem
  · exact hw call (List.mem_of_getElem? hcall)

theorem step_oneTarget {e : HandoverEvent} (henabled : w.enabled session e = true)
    (hw : OneTarget session w) : OneTarget session (w.step session e) := by
  cases e with
  | relay target message =>
    intro call hmem
    rcases List.mem_append.mp hmem with hmem | hmem
    · exact hw call hmem
    · obtain rfl := List.mem_singleton.mp hmem
      exact of_decide_eq_true henabled
  | check i =>
    unfold step
    dsimp only
    rcases hcall : w.relays[i]? with - | call
    · exact hw
    · exact hw.setPhase hcall _
  | finish i now =>
    unfold step
    dsimp only
    rcases hcall : w.relays[i]? with - | call
    · exact hw
    · dsimp only
      split_ifs
      · exact OneTarget.setPhase (w := { w with mailbox := _ }) hw hcall _
      · exact OneTarget.setPhase (w := { w with store := _, expired := _ }) hw hcall _
      · exact OneTarget.setPhase (w := { w with store := _, expired := _ }) hw hcall _
  | register =>
    unfold step
    dsimp only
    split
    · exact hw
    · exact hw
  | serve now => exact hw

theorem stored_queueMessage (htarget : call.target.fold = session.nickname.fold) :
    (((w.store.queueMessage call.target call.message now).2.queued session.nickname).map
        QueuedMessage.message : Multiset Message) + w.forgotten call now =
      (if (w.store.queueMessage call.target call.message now).1 then {call.message} else 0) +
        w.stored session := by
  unfold forgotten stored
  rcases hbytes : w.store.overBytes call.message with - | -
  · rw [← OfflineMessageStore.queued_congr htarget, ← OfflineMessageStore.queued_congr htarget,
      OfflineMessageStore.queued_queueMessage hbytes, OfflineMessageStore.queueMessage_fst,
      if_neg Bool.false_ne_true, List.map_append, ← Multiset.coe_add]
    have hall := Multiset.coe_eq_coe.mpr
      (OfflineMessageStore.waiting_append_expired w.store call.target now)
    rw [← Multiset.coe_add, OfflineMessageStore.waiting] at hall
    rw [← hall]
    rcases w.store.refuses call.target call.message now with - | -
    · simp only [Bool.false_eq_true, if_false, Bool.not_false, if_true, List.map_cons, List.map_nil,
        Multiset.coe_singleton]
      abel
    · simp
  · rw [OfflineMessageStore.queueMessage_of_overBytes hbytes]
    simp

theorem accepted_of_pending (h : call.phase ∉ [.sent, .queued, .refused]) : call.accepted = false := by
  unfold RelayCall.accepted
  rcases call with ⟨target, message, phase⟩
  cases phase
  all_goals simp at h ⊢

theorem step_accounted {e : HandoverEvent} {start : Multiset Message}
    (henabled : w.enabled session e = true) (htargets : OneTarget session w)
    (hw : Accounted session start w) : Accounted session start (w.step session e) := by
  cases e with
  | relay target message =>
    have hsame : ({ w with relays := w.relays ++ [{ target, message }] } : Handover).accepted =
        w.accepted := by
      simp [accepted, RelayCall.accepted]
    exact hw.trans (by rw [← hsame]; rfl)
  | check i =>
    obtain ⟨call, hcall, hphase⟩ := (Option.any_eq_true ..).mp henabled
    have hpending : call.accepted = false := accepted_of_pending (by simp [of_decide_eq_true hphase])
    have hstep : w.step session (.check i) = w.setPhase i call
        (if (w.registry.getByNick call.target).isSome then .sending else .queueing) := by
      simp only [step, hcall]
    rw [hstep]
    refine Eq.trans hw ?_
    rw [setPhase_accepted hcall hpending]
    split_ifs
    all_goals simp_all [RelayCall.accepted]
  | finish i now =>
    obtain ⟨call, hcall, hphase⟩ := (Option.any_eq_true ..).mp henabled
    have hphase := of_decide_eq_true hphase
    have hpending : call.accepted = false := accepted_of_pending (by
      rcases hphase with hphase | hphase
      all_goals simp [hphase])
    by_cases hsending : call.phase = .sending
    · -- the message goes to the mailbox
      have hstep : w.step session (.finish i now) =
          { w with mailbox := w.mailbox ++ [call.message] }.setPhase i call .sent := by
        simp only [step, hcall, if_pos hsending]
      have haccepted := setPhase_accepted (w := { w with mailbox := w.mailbox ++ [call.message] })
        hcall hpending .sent
      rw [hstep, Accounted, haccepted]
      change ((w.mailbox ++ [call.message] : List Message) : Multiset Message) + w.expired +
        w.stored session = start + ({call.message} + w.accepted)
      rw [← Multiset.coe_add, Multiset.coe_singleton]
      calc (w.mailbox : Multiset Message) + {call.message} + w.expired + w.stored session
          = {call.message} + (w.mailbox + w.expired + w.stored session) := by abel
        _ = {call.message} + (start + w.accepted) := by rw [hw]
        _ = start + ({call.message} + w.accepted) := by abel
    · -- the message goes to the store, which may refuse it
      have hqueued := (@stored_queueMessage _ w now _)
        (htargets call (List.mem_of_getElem? hcall))
      generalize htaken : w.store.queueMessage call.target call.message now = result at hqueued
      have hstep : w.step session (.finish i now) =
          { w with store := result.2, expired := w.expired ++ w.forgotten call now }.setPhase i call
            (if result.1 then .queued else .refused) := by
        simp only [step, hcall, if_neg hsending, htaken]
      have haccepted := setPhase_accepted
        (w := { w with store := result.2, expired := w.expired ++ w.forgotten call now })
        hcall hpending (if result.1 then .queued else .refused)
      have hnew : ({ call with
          phase := if result.1 then .queued else .refused } : RelayCall).accepted = result.1 := by
        rcases result with ⟨- | -, store⟩
        · rfl
        · rfl
      rw [hnew] at haccepted
      rw [hstep, Accounted, haccepted]
      change (w.mailbox : Multiset Message) + ((w.expired ++ w.forgotten call now : List Message) :
        Multiset Message) + ((result.2.queued session.nickname).map QueuedMessage.message : List
          Message) = start + ((if result.1 then {call.message} else 0) + w.accepted)
      rw [← Multiset.coe_add]
      calc (w.mailbox : Multiset Message) + (w.expired + w.forgotten call now) +
            ((result.2.queued session.nickname).map QueuedMessage.message : List Message)
          = w.mailbox + w.expired + (((result.2.queued session.nickname).map QueuedMessage.message :
              List Message) + w.forgotten call now) := by abel
        _ = w.mailbox + w.expired + ((if result.1 then {call.message} else 0) + w.stored session) := by
          rw [hqueued]
        _ = (if result.1 then {call.message} else 0) + (w.mailbox + w.expired + w.stored session) := by
          abel
        _ = (if result.1 then {call.message} else 0) + (start + w.accepted) := by rw [hw]
        _ = start + ((if result.1 then {call.message} else 0) + w.accepted) := by abel
  | register =>
    unfold step
    dsimp only
    split
    · exact hw
    · exact hw
  | serve now =>
    -- what waits is delivered, and the rest is too old
    have hall := Multiset.coe_eq_coe.mpr
      (OfflineMessageStore.waiting_append_expired w.store session.nickname now)
    have hdelivered := Multiset.coe_eq_coe.mpr
      (OfflineMessageStore.deliveryOrder_perm (w.store.waiting session.nickname now))
    rw [← Multiset.coe_add] at hall
    unfold Accounted stored step
    dsimp only
    rw [OfflineMessageStore.takeMessages_fst, OfflineMessageStore.queued_takeMessages,
      ← Multiset.coe_add, ← Multiset.coe_add, hdelivered]
    calc (w.mailbox : Multiset Message) + w.store.waiting session.nickname now +
          (w.expired + w.store.expired session.nickname now) + 0
        = w.mailbox + w.expired +
            (w.store.waiting session.nickname now + w.store.expired session.nickname now) := by abel
      _ = w.mailbox + w.expired + w.stored session := by
        rw [hall]
        rfl
      _ = start + w.accepted := hw

/-- **One step** leaves nothing behind exactly if it is timely. -/
theorem step_nothingLeft {e : HandoverEvent} (henabled : w.enabled session e = true)
    (htargets : OneTarget session w) (hw : NothingLeft session w) :
    NothingLeft session (w.step session e) ↔ w.Timely e = true := by
  cases e with
  | relay target message => exact iff_of_true hw rfl
  | check i =>
    obtain ⟨call, hcall, -⟩ := (Option.any_eq_true ..).mp henabled
    refine iff_of_true ?_ rfl
    simp only [step, hcall]
    exact hw
  | finish i now =>
    obtain ⟨call, hcall, hphase⟩ := (Option.any_eq_true ..).mp henabled
    have htarget := htargets call (List.mem_of_getElem? hcall)
    simp only [Timely, hcall, Option.all_some, decide_eq_true_eq]
    by_cases hsending : call.phase = .sending
    · refine iff_of_true ?_ (.inl hsending)
      simp only [step, hcall, if_pos hsending]
      exact hw
    · simp only [step, hcall, hsending, false_or]
      by_cases hserved : w.registration = .served
      · -- what is queued now is all there is
        have hempty := hw hserved
        have hqueue : (w.store.queueMessage call.target call.message now).2.queued
            session.nickname = [] ↔ w.store.refuses call.target call.message now = true := by
          rcases hbytes : w.store.overBytes call.message with - | -
          · rw [← OfflineMessageStore.queued_congr htarget] at hempty ⊢
            rw [OfflineMessageStore.queued_queueMessage hbytes, hempty]
            simp
          · rw [OfflineMessageStore.queueMessage_of_overBytes hbytes, OfflineMessageStore.refuses,
              hbytes, Bool.true_or]
            exact iff_of_true hempty rfl
        rw [← hqueue]
        exact ⟨fun h => .inr (h hserved), fun h _ => h.resolve_left (not_not.mpr hserved)⟩
      · exact iff_of_true (fun h => absurd h hserved) (.inl hserved)
  | register =>
    have habsent : w.registration = .absent := of_decide_eq_true henabled
    refine iff_of_true ?_ rfl
    unfold step
    dsimp only
    split
    · rintro ⟨⟩
    · exact hw
  | serve now =>
    refine iff_of_true ?_ rfl
    rintro -
    exact OfflineMessageStore.queued_takeMessages

end Handover

section Runs

variable {session : UserSession} {registry : UserRegistry} {store : OfflineMessageStore}
  {es : List HandoverEvent}

/-- **Messages for a user who registers.** Relays to a nickname interleave with its registration,
and every message that the store takes is queued before what waits is handed out. When all handlers
have finished, nothing waits for the nickname; what waited before, and the messages of all relays
but those that the store refused, went to the user, if the store did not forget them because of
their age. -/
theorem handedOver_of_timely
    (h : (handoverSystem session).Legal (fun w e => w.Timely e = true)
      { registry := registry, store := store } es) :
    let w := (handoverSystem session).exec { registry := registry, store := store } es
    w.Finished →
      (∀ now, w.store.waiting session.nickname now = []) ∧
      (w.mailbox : Multiset Message) + w.expired =
        (store.queued session.nickname).map QueuedMessage.message + w.accepted ∧
      ∀ call ∈ w.relays, call.phase = .refused ∨ call.message ∈ w.mailbox ∨
        call.message ∈ w.expired := by
  intro w hfinished
  obtain ⟨-, haccounted, hleft⟩ := (System.Legal.steps h).invariant
    (I := fun w => w.OneTarget session ∧
      w.Accounted session ((store.queued session.nickname).map QueuedMessage.message) ∧
      w.NothingLeft session) (by
        rintro w e en htimely ⟨htargets, haccounted, hleft⟩
        exact ⟨Handover.step_oneTarget en htargets, Handover.step_accounted en htargets haccounted,
          (Handover.step_nothingLeft en htargets hleft).mpr htimely⟩)
    ⟨by rintro call ⟨⟩, by simp [Handover.Accounted, Handover.stored, Handover.accepted],
      by rintro ⟨⟩⟩
  have hempty := hleft hfinished.1
  have hall : (w.mailbox : Multiset Message) + w.expired =
      (store.queued session.nickname).map QueuedMessage.message + w.accepted := by
    rw [Handover.Accounted, Handover.stored, hempty] at haccounted
    simpa using haccounted
  refine ⟨?_, hall, ?_⟩
  · intro now
    rw [OfflineMessageStore.waiting, hempty]
    rfl
  · intro call hcall
    have hphase := hfinished.2 call hcall
    by_cases hrefused : call.phase = .refused
    · exact .inl hrefused
    · right
      have haccepted : call.accepted = true := by
        simp only [List.mem_cons, List.not_mem_nil, or_false, hrefused] at hphase
        exact decide_eq_true hphase
      have hmem : call.message ∈ w.accepted :=
        List.mem_map.mpr ⟨call, List.mem_filter.mpr ⟨hcall, haccepted⟩, rfl⟩
      have hsomewhere : call.message ∈ (w.mailbox : Multiset Message) + w.expired := by
        rw [hall]
        exact Multiset.mem_add.mpr (.inr hmem)
      exact Multiset.mem_add.mp hsomewhere

def bobSession : UserSession := {
  connectionId := 2
  nickname := bob
  username := "bob"
  realname := "Bob"
  hostname := "127.0.0.1"
  signonTime := 0
  lastActive := 0 }

def forBob (text : String) : Message := {
  prefix_ := some (.user alice "al" "127.0.0.1")
  command := .pirc .encrypted
  params := ["bob", text] }

/-- One message is queued before `bob` registers; another one finds `bob` there. -/
def bobRegisters : List HandoverEvent :=
  [.relay bob (forBob "Zmlyc3Q="), .check 0, .finish 0 0, .register, .serve 1,
    .relay bob (forBob "c2Vjb25k"), .check 1, .finish 1 2]

set_option maxRecDepth 20000 in
theorem bobRegisters_handedOver :
    let w := (handoverSystem bobSession).exec {} bobRegisters
    (∀ now, w.store.waiting bob now = []) ∧
      w.mailbox = [forBob "Zmlyc3Q=", forBob "c2Vjb25k"] ∧
      ∀ call ∈ w.relays, call.phase = .refused ∨ call.message ∈ w.mailbox ∨
        call.message ∈ w.expired := by
  obtain ⟨hwaiting, -, hcalls⟩ := (@handedOver_of_timely bobSession {} {} bobRegisters)
    (by decide +kernel) (by decide +kernel)
  exact ⟨hwaiting, by decide +kernel, hcalls⟩

set_option maxRecDepth 20000 in
/-- **A message is left behind**: its relay finds nobody, `bob` registers and gets what waited, and
then the message is queued. -/
theorem message_left_behind :
    let es : List HandoverEvent :=
      [.relay bob (forBob "Zmlyc3Q="), .check 0, .register, .serve 1, .finish 0 2]
    let w := (handoverSystem bobSession).exec {} es
    (handoverSystem bobSession).Legal System.Free {} es ∧ w.Finished ∧
      w.store.waiting bob 2 = [forBob "Zmlyc3Q="] ∧ w.mailbox = [] ∧ w.expired = [] ∧
      (w.relays.map RelayCall.phase) = [.queued] ∧ (w.registry.getByNick bob).isSome := by
  decide +kernel

end Runs

end Pirc.Server
