import Mathlib.Tactic

/-!
# Handshakes that either side may begin, again and again

Two sides talk over channels that keep the order of messages. A side requests the other's bundle;
when it comes, it makes its half of a new exchange, pending, and sends the other an init message;
the other makes its half active and acknowledges; with the acknowledgement the pending half becomes
active. Halves and what is pending are overwritten, and both sides may begin as often as they like.

## Main results

* `Moves.safe`: every move keeps the invariant
* `Safe.matched`: with nothing on its way, two active halves are of one exchange
-/

namespace Handshake

universe u

inductive Half (ι : Type u)
  | sender (x : ι)
  | receiver (x : ι)

inductive Message (ι : Type u)
  | request
  | bundle
  | init (x : ι)
  | complete

/-- What a side that began an exchange waits for. -/
inductive Pending (ι : Type u)
  | awaitingBundle
  | awaitingComplete (x : ι)

/-- The halves of a side, and the messages on their way to it. -/
structure Side (ι : Type u) where
  session : Option (Half ι) := none
  pending : Option (Pending ι) := none
  inbox : List (Message ι) := []

variable {ι : Type u}

def Message.init? : Message ι → Option ι
  | init x => some x
  | _ => none

namespace Side

/-- The exchanges whose init messages are on their way to a side. -/
def inits (side : Side ι) : List ι := side.inbox.filterMap Message.init?

def receive (side : Side ι) (message : Message ι) : Side ι :=
  { side with inbox := side.inbox ++ [message] }

@[simp] theorem inits_receive (side : Side ι) (message : Message ι) :
    (side.receive message).inits = side.inits ++ message.init?.toList := by
  unfold inits receive
  rw [List.filterMap_append]
  cases message <;> rfl

@[simp] theorem mem_receive {side : Side ι} {message message' : Message ι} :
    message' ∈ (side.receive message).inbox ↔ message' ∈ side.inbox ∨ message' = message := by
  simp [receive]

@[simp] theorem session_receive (side : Side ι) (message : Message ι) :
    (side.receive message).session = side.session := rfl

@[simp] theorem pending_receive (side : Side ι) (message : Message ι) :
    (side.receive message).pending = side.pending := rfl

theorem inits_eq {side : Side ι} {message : Message ι} {rest : List (Message ι)}
    (h : side.inbox = message :: rest) :
    side.inits = message.init?.toList ++ rest.filterMap Message.init? := by
  unfold inits
  rw [h]
  cases message <;> rfl

end Side

/-- **The moves of a side**, `me`, and what they do to both. -/
inductive Moves : Side ι → Side ι → Side ι → Side ι → Prop
  | initiate (me peer : Side ι) :
    Moves me peer { me with pending := some .awaitingBundle } (peer.receive .request)
  | request (me peer : Side ι) (rest : List (Message ι)) (h : me.inbox = .request :: rest) :
    Moves me peer { me with inbox := rest } (peer.receive .bundle)
  | bundle (me peer : Side ι) (rest : List (Message ι)) (h : me.inbox = .bundle :: rest) (x : ι) :
    Moves me peer { me with pending := some (.awaitingComplete x), inbox := rest }
      (peer.receive (.init x))
  | init (me peer : Side ι) (rest : List (Message ι)) (x : ι) (h : me.inbox = .init x :: rest)
      (hnone : peer.inits = []) :
    Moves me peer { me with session := some (.receiver x), inbox := rest } (peer.receive .complete)
  | complete (me peer : Side ι) (rest : List (Message ι)) (h : me.inbox = .complete :: rest) (x : ι)
      (hpending : me.pending = some (.awaitingComplete x)) :
    Moves me peer { session := some (.sender x), pending := none, inbox := rest } peer
  | ignored (me peer : Side ι) (rest : List (Message ι)) (h : me.inbox = .complete :: rest)
      (hpending : ∀ x, me.pending ≠ some (.awaitingComplete x)) :
    Moves me peer { me with pending := none, inbox := rest } peer

/-! ## The invariant -/

def Rerequesting (me peer : Side ι) : Prop := .request ∈ peer.inbox ∨ .bundle ∈ me.inbox

/-- **Ready** for the acknowledgement of an exchange: its half is pending or active, or a later
exchange will replace it. -/
def Ready (me peer : Side ι) (x : ι) : Prop :=
  me.pending = some (.awaitingComplete x) ∨
    (me.pending = none ∧ me.session = some (.sender x)) ∨ Rerequesting me peer

structure Began (me peer : Side ι) : Prop where
  /-- Acknowledgements come before init messages. -/
  order : me.inbox.Pairwise fun first second => first.init?.isSome → second ≠ .complete
  ready : ∀ x ∈ peer.inits.getLast?, Ready me peer x
  acknowledged : peer.inits = [] → .complete ∈ me.inbox →
    ∃ x, peer.session = some (.receiver x) ∧ Ready me peer x

/-- The two active halves are of one exchange. -/
def Matched (me peer : Side ι) : Prop :=
  ∃ x, (me.session = some (.sender x) ∧ peer.session = some (.receiver x)) ∨
    (me.session = some (.receiver x) ∧ peer.session = some (.sender x))

/-- Where no init message and no acknowledgement is on its way: the halves match, one is missing, or
a new exchange has begun. -/
def Settled (me peer : Side ι) : Prop :=
  Matched me peer ∨ me.session = none ∨ peer.session = none ∨ Rerequesting me peer ∨
    Rerequesting peer me

/-- Init messages are on their way to at most one side, and so are acknowledgements. -/
structure Inv (me peer : Side ι) : Prop where
  began : Began me peer
  answered : Began peer me
  oneInit : me.inits = [] ∨ peer.inits = []
  oneComplete : .complete ∉ me.inbox ∨ .complete ∉ peer.inbox
  settled : me.inits = [] → peer.inits = [] → .complete ∉ me.inbox → .complete ∉ peer.inbox →
    Settled me peer

/-- **The invariant**, unless init messages have crossed: then neither is ever answered. -/
def Safe (me peer : Side ι) : Prop := (me.inits ≠ [] ∧ peer.inits ≠ []) ∨ Inv me peer

variable {me peer me' peer' : Side ι}

theorem Settled.symm (h : Settled me peer) : Settled peer me := by
  rcases h with ⟨x, hmatched⟩ | hme | hpeer | hfirst | hsecond
  · exact .inl ⟨x, hmatched.symm.imp And.symm And.symm⟩
  · exact .inr (.inr (.inl hme))
  · exact .inr (.inl hpeer)
  · exact .inr (.inr (.inr (.inr hfirst)))
  · exact .inr (.inr (.inr (.inl hsecond)))

theorem Inv.symm (h : Inv me peer) : Inv peer me where
  began := h.answered
  answered := h.began
  oneInit := h.oneInit.symm
  oneComplete := h.oneComplete.symm
  settled hpeer hme hcpeer hcme := (h.settled hme hpeer hcme hcpeer).symm

theorem Safe.symm (h : Safe me peer) : Safe peer me := h.imp And.symm Inv.symm


/-! ## One move -/

variable {rest : List (Message ι)} {x : ι}

/-- What `me` began stays as it is where neither its halves nor its init messages change, and no
acknowledgement comes to it. -/
theorem Began.keep (hb : Began me peer) (hsession : me'.session = me.session)
    (hpending : me'.pending = me.pending)
    (horder : me'.inbox.Pairwise fun first second => first.init?.isSome → second ≠ .complete)
    (hinits : peer'.inits = peer.inits)
    (hcomplete : .complete ∈ me'.inbox → .complete ∈ me.inbox ∧ peer'.session = peer.session)
    (hrequest : Rerequesting me peer → Rerequesting me' peer') : Began me' peer' := by
  have hready : ∀ {x}, Ready me peer x → Ready me' peer' x := by
    intro x hready
    unfold Ready
    rw [hsession, hpending]
    exact hready.imp_right (Or.imp_right hrequest)
  refine ⟨horder, fun x hlast => hready (hb.ready x (hinits ▸ hlast)), fun hnone hmem => ?_⟩
  obtain ⟨hmem, hsame⟩ := hcomplete hmem
  obtain ⟨x, hreceiver, hx⟩ := hb.acknowledged (hinits ▸ hnone) hmem
  exact ⟨x, hsame.trans hreceiver, hready hx⟩

theorem Began.order_receive (hb : Began me peer) {message : Message ι} (hne : message ≠ .complete) :
    (me.receive message).inbox.Pairwise
      fun first second => first.init?.isSome → second ≠ .complete := by
  refine List.pairwise_append.mpr ⟨hb.order, List.pairwise_singleton _ _, ?_⟩
  rintro first - second hsecond -
  rw [List.mem_singleton.mp hsecond]
  exact hne

theorem Began.order_rest (hb : Began me peer) {message : Message ι}
    (h : me.inbox = message :: rest) :
    rest.Pairwise fun first second => first.init?.isSome → second ≠ .complete := by
  have horder := hb.order
  rw [h] at horder
  exact horder.of_cons

/-- **A new request** is on its way. -/
theorem Inv.initiate (hi : Inv me peer) :
    Inv { me with pending := some .awaitingBundle } (peer.receive .request) := by
  have hrequest : Rerequesting { me with pending := some .awaitingBundle } (peer.receive .request) :=
    .inl (Side.mem_receive.mpr (.inr rfl))
  have hinits : (peer.receive (.request : Message ι)).inits = peer.inits := by
    simp [Message.init?]
  refine {
    began := ⟨hi.began.order, fun x _ => .inr (.inr hrequest), fun hnone hmem => ?_⟩
    answered := ?_
    oneInit := ?_
    oneComplete := ?_
    settled := fun _ _ _ _ => .inr (.inr (.inr (.inl hrequest))) }
  · obtain ⟨x, hreceiver, -⟩ := hi.began.acknowledged (hinits ▸ hnone) hmem
    exact ⟨x, hreceiver, .inr (.inr hrequest)⟩
  · refine hi.answered.keep rfl rfl (hi.answered.order_receive (by simp)) rfl ?_ ?_
    · intro hmem
      simpa using hmem
    · exact Or.imp_right fun hmem => Side.mem_receive.mpr (.inl hmem)
  · rw [hinits]
    exact hi.oneInit
  · simpa using hi.oneComplete

/-- **A request is answered**: the bundle is on its way. -/
theorem Inv.request (hi : Inv me peer) (h : me.inbox = .request :: rest) :
    Inv { me with inbox := rest } (peer.receive .bundle) := by
  have hmine : ({ me with inbox := rest } : Side ι).inits = me.inits := by
    rw [Side.inits_eq h]
    rfl
  have htheirs : (peer.receive (.bundle : Message ι)).inits = peer.inits := by
    simp [Message.init?]
  have hbundle : Rerequesting (peer.receive .bundle) { me with inbox := rest } :=
    .inr (Side.mem_receive.mpr (.inr rfl))
  have hmem : ∀ {message}, message ∈ rest → message ∈ me.inbox := by
    intro message hmem
    rw [h]
    exact List.mem_cons_of_mem _ hmem
  refine {
    began := hi.began.keep rfl rfl (hi.began.order_rest h) htheirs
      (fun hcomplete => ⟨hmem hcomplete, rfl⟩) ?_
    answered := hi.answered.keep rfl rfl (hi.answered.order_receive (by simp)) hmine ?_
      fun _ => hbundle
    oneInit := ?_
    oneComplete := ?_
    settled := fun _ _ _ _ => .inr (.inr (.inr (.inr hbundle))) }
  · unfold Rerequesting
    rw [h]
    simp
  · intro hcomplete
    simpa using hcomplete
  · rw [hmine, htheirs]
    exact hi.oneInit
  · simpa using hi.oneComplete.imp_left fun hnot hcomplete => hnot (hmem hcomplete)

/-- **A bundle is used**: the init message of the pending half is the last on its way. -/
theorem Inv.bundle (hi : Inv me peer) (h : me.inbox = .bundle :: rest) (hnone : me.inits = [])
    (x : ι) :
    Inv { me with pending := some (.awaitingComplete x), inbox := rest } (peer.receive (.init x)) := by
  have hmine : ({ me with pending := some (.awaitingComplete x), inbox := rest } : Side ι).inits =
      me.inits := by
    rw [Side.inits_eq h]
    rfl
  have htheirs : (peer.receive (.init x)).inits = peer.inits ++ [x] := Side.inits_receive _ _
  have hne : (peer.receive (.init x)).inits ≠ [] := by simp [htheirs]
  refine {
    began := ⟨hi.began.order_rest h, fun y hlast => ?_, fun hempty => absurd hempty hne⟩
    answered := hi.answered.keep rfl rfl (hi.answered.order_receive (by simp)) hmine ?_ ?_
    oneInit := .inl (hmine.trans hnone)
    oneComplete := ?_
    settled := fun _ hempty => absurd hempty hne }
  · rw [htheirs, List.getLast?_concat] at hlast
    obtain rfl := Option.mem_some_iff.mp hlast
    exact .inl rfl
  · intro hcomplete
    simpa using hcomplete
  · unfold Rerequesting
    rw [h]
    simp
  · have hone := hi.oneComplete
    rw [h] at hone
    simpa using hone

/-- **An init message is answered**, with none of ours on its way: the half is active, and the
acknowledgement on its way. -/
theorem Inv.init (hi : Inv me peer) (h : me.inbox = .init x :: rest) (hnone : peer.inits = []) :
    Inv { me with session := some (.receiver x), inbox := rest } (peer.receive .complete) := by
  -- acknowledgements to us came before
  have hno : .complete ∉ rest := by
    have horder := hi.began.order
    rw [h] at horder
    intro hcomplete
    exact (List.pairwise_cons.mp horder).1 _ hcomplete rfl rfl
  have hinits : me.inits = x :: rest.filterMap Message.init? := Side.inits_eq h
  have htheirs : (peer.receive (.complete : Message ι)).inits = [] := by
    simp [hnone, Message.init?]
  have hready : ∀ {y}, Ready peer me y →
      Ready (peer.receive .complete) { me with session := some (.receiver x), inbox := rest } y := by
    intro y hready
    unfold Ready Rerequesting at hready ⊢
    rw [h] at hready
    simpa using hready
  refine {
    began := ⟨hi.began.order_rest h, fun y hlast => ?_, fun _ hcomplete => absurd hcomplete hno⟩
    answered := ⟨?_, fun y hlast => ?_, fun hempty _ => ?_⟩
    oneInit := .inr htheirs
    oneComplete := .inl hno
    settled := fun _ _ _ hcomplete => absurd (Side.mem_receive.mpr (.inr rfl)) hcomplete }
  · rw [htheirs] at hlast
    cases hlast
  · -- the peer has no init message of ours before the acknowledgement
    refine List.pairwise_append.mpr ⟨hi.answered.order, List.pairwise_singleton _ _, ?_⟩
    intro first hfirst second _ hsome
    obtain ⟨y, hy⟩ := Option.isSome_iff_exists.mp hsome
    have hmem : y ∈ peer.inits := List.mem_filterMap.mpr ⟨first, hfirst, hy⟩
    rw [hnone] at hmem
    cases hmem
  · refine hready (hi.answered.ready y ?_)
    rw [hinits, List.getLast?_cons]
    have hlast : (rest.filterMap Message.init?).getLast? = some y := hlast
    rw [hlast]
    rfl
  · refine ⟨x, rfl, hready (hi.answered.ready x ?_)⟩
    have hempty : rest.filterMap Message.init? = [] := hempty
    rw [hinits, hempty]
    rfl

/-- **An acknowledgement arrives**: what is pending is not pending any more, and what was ready
is. -/
theorem Inv.complete (hi : Inv me peer) (h : me.inbox = .complete :: rest)
    (hinbox : me'.inbox = rest) (hpending : me'.pending = none)
    (hready : ∀ y, Ready me peer y → Ready me' peer y) : Inv me' peer := by
  have hhead : .complete ∈ me.inbox := by
    rw [h]
    exact List.mem_cons_self
  have hmem : ∀ {message}, message ∈ me'.inbox → message ∈ me.inbox := by
    intro message hmem
    rw [h, ← hinbox]
    exact List.mem_cons_of_mem _ hmem
  have hno : .complete ∉ peer.inbox := hi.oneComplete.resolve_left (not_not_intro hhead)
  have hmine : me'.inits = me.inits := by
    rw [Side.inits_eq h, Side.inits, hinbox]
    rfl
  refine {
    began := ⟨hinbox ▸ hi.began.order_rest h, fun y hlast => hready y (hi.began.ready y hlast),
      fun hnone hcomplete => ?_⟩
    answered := hi.answered.keep rfl rfl hi.answered.order hmine (fun hcomplete => absurd hcomplete hno) ?_
    oneInit := hmine ▸ hi.oneInit
    oneComplete := .inr hno
    settled := fun _ hnone _ _ => ?_ }
  · obtain ⟨y, hreceiver, hy⟩ := hi.began.acknowledged hnone hhead
    exact ⟨y, hreceiver, hready y hy⟩
  · unfold Rerequesting
    rw [h, hinbox]
    simp
  · obtain ⟨y, hreceiver, hy⟩ := hi.began.acknowledged hnone hhead
    rcases hready y hy with hawaiting | ⟨-, hsender⟩ | hrequest
    · rw [hpending] at hawaiting
      cases hawaiting
    · exact .inl ⟨y, .inl ⟨hsender, hreceiver⟩⟩
    · exact .inr (.inr (.inr (.inl hrequest)))

/-- **Every move keeps the invariant.** -/
theorem Moves.safe (hmove : Moves me peer me' peer') (hs : Safe me peer) : Safe me' peer' := by
  cases hmove with
  | initiate =>
    rcases hs with ⟨hme, hpeer⟩ | hi
    · exact .inl ⟨hme, by simp [hpeer]⟩
    · exact .inr hi.initiate
  | request rest h =>
    rcases hs with ⟨hme, hpeer⟩ | hi
    · rw [Side.inits_eq h] at hme
      exact .inl ⟨hme, by simp [hpeer]⟩
    · exact .inr (hi.request h)
  | bundle rest h x =>
    have hmine := Side.inits_eq h
    have hcrossed : me.inits ≠ [] → Safe { me with pending := some (.awaitingComplete x), inbox := rest }
        (peer.receive (.init x)) := by
      intro hne
      rw [hmine] at hne
      exact .inl ⟨hne, by simp [Message.init?]⟩
    rcases hs with ⟨hme, -⟩ | hi
    · exact hcrossed hme
    · -- with an init message on its way to us, the two cross now
      by_cases hnone : me.inits = []
      · exact .inr (hi.bundle h hnone x)
      · exact hcrossed hnone
  | init rest x h hnone =>
    rcases hs with ⟨-, hpeer⟩ | hi
    · exact absurd hnone hpeer
    · exact .inr (hi.init h hnone)
  | complete rest h x hpending =>
    rcases hs with ⟨hme, hpeer⟩ | hi
    · rw [Side.inits_eq h] at hme
      exact .inl ⟨hme, hpeer⟩
    · refine .inr (hi.complete h rfl rfl fun y hready => ?_)
      rcases hready with hawaiting | ⟨hnone, -⟩ | hrequest
      · obtain rfl : x = y := by simpa using hpending.symm.trans hawaiting
        exact .inr (.inl ⟨rfl, rfl⟩)
      · cases hpending.symm.trans hnone
      · refine .inr (.inr (hrequest.imp_right fun hmem => ?_))
        simpa [h] using hmem
  | ignored rest h hpending =>
    rcases hs with ⟨hme, hpeer⟩ | hi
    · rw [Side.inits_eq h] at hme
      exact .inl ⟨hme, hpeer⟩
    · refine .inr (hi.complete h rfl rfl fun y hready => ?_)
      rcases hready with hawaiting | ⟨-, hsender⟩ | hrequest
      · exact absurd hawaiting (hpending y)
      · exact .inr (.inl ⟨rfl, hsender⟩)
      · refine .inr (.inr (hrequest.imp_right fun hmem => ?_))
        simpa [h] using hmem

/-! ## Whole runs -/

/-- Two sides without sessions, nothing pending and nothing on its way. -/
theorem safe_fresh : Safe ({} : Side ι) {} := by
  have hbegan : Began ({} : Side ι) {} :=
    ⟨List.Pairwise.nil, fun _ hlast => absurd hlast (Option.not_mem_none _),
      fun _ hmem => absurd hmem List.not_mem_nil⟩
  exact .inr ⟨hbegan, hbegan, .inl rfl, .inl List.not_mem_nil, fun _ _ _ _ => .inr (.inl rfl)⟩

/-- **Agreement**: with nothing on its way, two active halves are of one exchange. -/
theorem Safe.matched (hs : Safe me peer) (hme : me.inbox = []) (hpeer : peer.inbox = [])
    (hmine : me.session.isSome) (htheirs : peer.session.isSome) : Matched me peer := by
  have hempty : ∀ {side : Side ι}, side.inbox = [] → side.inits = [] := by
    intro side hside
    unfold Side.inits
    rw [hside]
    rfl
  rcases hs with ⟨hcrossed, -⟩ | hi
  · exact absurd (hempty hme) hcrossed
  · rcases hi.settled (hempty hme) (hempty hpeer) (by simp [hme]) (by simp [hpeer]) with
      hmatched | hnone | hnone | hrequest | hrequest
    · exact hmatched
    · rw [hnone] at hmine
      cases hmine
    · rw [hnone] at htheirs
      cases htheirs
    · simp [Rerequesting, hme, hpeer] at hrequest
    · simp [Rerequesting, hme, hpeer] at hrequest

end Handshake
