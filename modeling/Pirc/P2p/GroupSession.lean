import Pirc.Crypto.GroupKey

/-!
# P2P: the session of a group

`group_session.rs`: which members of a group are reached directly, and which through the server. The
state of the session is computed from how many there are of each. It is what the sets themselves
say, as the members of either kind are members of the group, and nobody is both.
-/

namespace Pirc.P2p

open Protocol (Str)

inductive GroupSessionState
  | creating
  | establishing
  | active
  | degraded
  deriving DecidableEq

inductive GroupSessionEvent
  | memberConnected (member : Str)
  | memberDisconnected (member : Str)
  | memberFallbackToRelay (member : Str) (reason : Str)
  | stateChanged (newState : GroupSessionState)
  deriving DecidableEq

/-- The session with the members of a group, who have opaque session identifiers. -/
structure GroupSession where
  groupId : Str
  expectedMembers : Finset Str
  state : GroupSessionState := .creating
  connectedMembers : Finset Str := ∅
  relayMembers : Finset Str := ∅
  memberSessions : Crypto.NickMap Str := ∅
  events : List GroupSessionEvent := []

namespace GroupSession

variable (session : GroupSession) (member : Str)

/-! ## Operations -/

def emit (event : GroupSessionEvent) : GroupSession :=
  { session with events := session.events ++ [event] }

def transition (newState : GroupSessionState) : GroupSession :=
  if session.state ≠ newState then { session with state := newState }.emit (.stateChanged newState)
  else session

def recalculateState : GroupSession :=
  if session.expectedMembers = ∅ then session.transition .active
  else
    let allAccounted :=
      session.connectedMembers.card + session.relayMembers.card = session.expectedMembers.card
    let allConnected := session.connectedMembers.card = session.expectedMembers.card
    session.transition
      (if allConnected then .active else if allAccounted then .degraded else .establishing)

def beginEstablishing : GroupSession :=
  if session.state = .creating then session.transition .establishing else session

def memberConnected : GroupSession :=
  if member ∉ session.expectedMembers then session
  else
    ({ session with
      connectedMembers := insert member session.connectedMembers
      relayMembers := session.relayMembers.erase member }.emit
        (.memberConnected member)).recalculateState

def memberDisconnected : GroupSession :=
  if member ∈ session.connectedMembers then
    ({ session with connectedMembers := session.connectedMembers.erase member }.emit
      (.memberDisconnected member)).recalculateState
  else session

def memberFallbackToRelay (reason : Str) : GroupSession :=
  if member ∉ session.expectedMembers then session
  else
    ({ session with
      connectedMembers := session.connectedMembers.erase member
      relayMembers := insert member session.relayMembers }.emit
        (.memberFallbackToRelay member reason)).recalculateState

def setMemberSession (sessionId : Str) : GroupSession :=
  { session with memberSessions := session.memberSessions.insert member sessionId }

def addExpectedMember : GroupSession :=
  { session with expectedMembers := insert member session.expectedMembers }.recalculateState

def removeMember : GroupSession :=
  { session with
    expectedMembers := session.expectedMembers.erase member
    connectedMembers := session.connectedMembers.erase member
    relayMembers := session.relayMembers.erase member
    memberSessions := session.memberSessions.erase member }.recalculateState

def drainEvents : List GroupSessionEvent × GroupSession :=
  (session.events, { session with events := [] })

end GroupSession

/-! ## Calls -/

/-- The calls that an application makes. -/
inductive SessionCall
  | beginEstablishing
  | memberConnected (member : Str)
  | memberDisconnected (member : Str)
  | memberFallbackToRelay (member : Str) (reason : Str)
  | setMemberSession (member : Str) (sessionId : Str)
  | addExpectedMember (member : Str)
  | removeMember (member : Str)
  | drainEvents

structure SessionHistory where
  session : GroupSession
  drained : List GroupSessionEvent := []

namespace SessionHistory

/-- The events since the session was created. -/
def emitted (h : SessionHistory) : List GroupSessionEvent := h.drained ++ h.session.events

def step (h : SessionHistory) : SessionCall → SessionHistory
  | .beginEstablishing => { h with session := h.session.beginEstablishing }
  | .memberConnected member => { h with session := h.session.memberConnected member }
  | .memberDisconnected member => { h with session := h.session.memberDisconnected member }
  | .memberFallbackToRelay member reason =>
    { h with session := h.session.memberFallbackToRelay member reason }
  | .setMemberSession member sessionId =>
    { h with session := h.session.setMemberSession member sessionId }
  | .addExpectedMember member => { h with session := h.session.addExpectedMember member }
  | .removeMember member => { h with session := h.session.removeMember member }
  | .drainEvents =>
    let (events, session) := h.session.drainEvents
    { session := session, drained := h.drained ++ events }

end SessionHistory

/-- A session under the calls of an application. -/
def sessionSystem : System SessionHistory SessionCall where
  enabled _ _ := True
  step := SessionHistory.step

/-- **The call recalculates the state**: those about a member who is not expected, or not connected,
do not. -/
def Recalculates (session : GroupSession) : SessionCall → Prop
  | .memberConnected member | .memberFallbackToRelay member _ => member ∈ session.expectedMembers
  | .memberDisconnected member => member ∈ session.connectedMembers
  | .addExpectedMember _ | .removeMember _ => True
  | .beginEstablishing | .setMemberSession _ _ | .drainEvents => False

/-! ## What the state says -/

namespace GroupSession

/-- **The sets fit together.** -/
structure WellFormed (session : GroupSession) : Prop where
  connected : session.connectedMembers ⊆ session.expectedMembers
  relay : session.relayMembers ⊆ session.expectedMembers
  disjoint : Disjoint session.connectedMembers session.relayMembers

/-- Every expected member is connected or relayed, and some member is relayed. -/
def PartlyRelayed (session : GroupSession) : Prop :=
  (∀ member ∈ session.expectedMembers,
    member ∈ session.connectedMembers ∨ member ∈ session.relayMembers) ∧
  session.relayMembers.Nonempty

/-- **The state is what the sets say.** -/
structure Reflects (session : GroupSession) : Prop where
  active : session.state = .active ↔ session.connectedMembers = session.expectedMembers
  degraded : session.state = .degraded ↔ session.PartlyRelayed
  establishing : session.state = .establishing ↔
    session.connectedMembers ≠ session.expectedMembers ∧ ¬ session.PartlyRelayed

def connectivity (session : GroupSession) : GroupSessionState :=
  if session.connectedMembers = session.expectedMembers then .active
  else if session.expectedMembers ⊆ session.connectedMembers ∪ session.relayMembers then .degraded
  else .establishing

variable {session : GroupSession} {member : Str}

theorem connectivity_ne_creating : session.connectivity ≠ .creating := by
  unfold connectivity
  split_ifs <;> decide

theorem WellFormed.partlyRelayed_iff (h : session.WellFormed) :
    session.PartlyRelayed ↔ session.connectedMembers ≠ session.expectedMembers ∧
      session.expectedMembers ⊆ session.connectedMembers ∪ session.relayMembers := by
  constructor
  · rintro ⟨hall, member, hmember⟩
    refine ⟨fun heq => ?_, fun other hother => Finset.mem_union.mpr (hall other hother)⟩
    exact Finset.disjoint_left.mp h.disjoint (heq ▸ h.relay hmember) hmember
  · rintro ⟨hne, hall⟩
    refine ⟨fun other hother => Finset.mem_union.mp (hall hother), ?_⟩
    by_contra hnone
    rw [Finset.not_nonempty_iff_eq_empty] at hnone
    rw [hnone, Finset.union_empty] at hall
    exact hne (h.connected.antisymm hall)

theorem WellFormed.reflects (h : session.WellFormed)
    (hstate : session.state = session.connectivity) : session.Reflects := by
  have hpartly := h.partlyRelayed_iff
  unfold connectivity at hstate
  constructor
  · rw [hstate]
    split_ifs with hconnected hall
    · exact iff_of_true rfl hconnected
    · exact iff_of_false (by decide) hconnected
    · exact iff_of_false (by decide) hconnected
  · rw [hstate, hpartly]
    split_ifs with hconnected hall
    · simp [hconnected]
    · simp [hconnected, hall]
    · simp [hall]
  · rw [hstate, hpartly]
    split_ifs with hconnected hall
    · simp [hconnected]
    · simp [hconnected, hall]
    · simp [hconnected, hall]

/-- **The sizes say what the sets say.** -/
theorem recalculateState_eq (h : session.WellFormed) :
    session.recalculateState = session.transition session.connectivity := by
  unfold recalculateState connectivity
  have hconnected : session.connectedMembers.card = session.expectedMembers.card ↔
      session.connectedMembers = session.expectedMembers :=
    ⟨fun hcard => Finset.eq_of_subset_of_card_le h.connected hcard.ge, fun heq => by rw [heq]⟩
  have hunion : (session.connectedMembers ∪ session.relayMembers).card =
      session.connectedMembers.card + session.relayMembers.card :=
    Finset.card_union_of_disjoint h.disjoint
  have hsubset : session.connectedMembers ∪ session.relayMembers ⊆ session.expectedMembers :=
    Finset.union_subset h.connected h.relay
  have haccounted : session.connectedMembers.card + session.relayMembers.card =
      session.expectedMembers.card ↔
        session.expectedMembers ⊆ session.connectedMembers ∪ session.relayMembers := by
    rw [← hunion]
    exact ⟨fun hcard => (Finset.eq_of_subset_of_card_le hsubset hcard.ge).ge,
      fun hall => by rw [hsubset.antisymm hall]⟩
  by_cases hempty : session.expectedMembers = ∅
  · -- nobody is expected, so nobody is connected
    have hnobody : session.connectedMembers = session.expectedMembers :=
      (Finset.subset_empty.mp (hempty ▸ h.connected)).trans hempty.symm
    rw [if_pos hempty, if_pos hnobody]
  · rw [if_neg hempty]
    simp only [hconnected, haccounted]

/-! ## Reports -/

def lastNamed (events : List GroupSessionEvent) : Option GroupSessionState :=
  (events.filterMap fun
    | .stateChanged newState => some newState
    | _ => none).getLast?

theorem lastNamed_append (events new : List GroupSessionEvent) :
    lastNamed (events ++ new) = (lastNamed new).or (lastNamed events) := by
  unfold lastNamed
  rw [List.filterMap_append, List.getLast?_append]

/-- **Every change of the state is reported.** -/
def Reports (session session' : GroupSession) : Prop :=
  ∃ new, session'.events = session.events ++ new ∧
    session'.state = (lastNamed new).getD session.state

theorem Reports.of_eq {session' : GroupSession} (hevents : session'.events = session.events)
    (hstate : session'.state = session.state) : Reports session session' :=
  ⟨[], by rw [hevents, List.append_nil], hstate⟩

theorem Reports.trans {session₁ session₂ session₃ : GroupSession} (h : Reports session₁ session₂)
    (h' : Reports session₂ session₃) : Reports session₁ session₃ := by
  obtain ⟨new, hevents, hstate⟩ := h
  obtain ⟨new', hevents', hstate'⟩ := h'
  refine ⟨new ++ new', by rw [hevents', hevents, List.append_assoc], ?_⟩
  rw [hstate', hstate, lastNamed_append]
  cases lastNamed new' <;> rfl

theorem reports_transition (newState : GroupSessionState) :
    Reports session (session.transition newState) := by
  unfold transition
  split_ifs with hother
  · exact ⟨[.stateChanged newState], rfl, rfl⟩
  · exact .of_eq rfl rfl

theorem reports_recalculateState : Reports session session.recalculateState := by
  unfold recalculateState
  split_ifs
  all_goals exact reports_transition _

theorem reports_emit {session' : GroupSession} {event : GroupSessionEvent}
    (hevents : session'.events = session.events) (hstate : session'.state = session.state)
    (hevent : lastNamed [event] = none) : Reports session (session'.emit event) := by
  refine ⟨[event], ?_, ?_⟩
  · change session'.events ++ [event] = _
    rw [hevents]
  · rw [hevent]
    exact hstate

/-! ## What a call keeps -/

@[simp] theorem transition_expectedMembers (newState : GroupSessionState) :
    (session.transition newState).expectedMembers = session.expectedMembers := by
  unfold transition
  split_ifs <;> rfl

@[simp] theorem transition_connectedMembers (newState : GroupSessionState) :
    (session.transition newState).connectedMembers = session.connectedMembers := by
  unfold transition
  split_ifs <;> rfl

@[simp] theorem transition_relayMembers (newState : GroupSessionState) :
    (session.transition newState).relayMembers = session.relayMembers := by
  unfold transition
  split_ifs <;> rfl

@[simp] theorem transition_state (newState : GroupSessionState) :
    (session.transition newState).state = newState := by
  unfold transition
  split_ifs with hother
  · rfl
  · exact not_not.mp hother

theorem WellFormed.congr {session' : GroupSession} (h : session.WellFormed)
    (hexpected : session'.expectedMembers = session.expectedMembers)
    (hconnected : session'.connectedMembers = session.connectedMembers)
    (hrelay : session'.relayMembers = session.relayMembers) : session'.WellFormed := by
  constructor
  · rw [hconnected, hexpected]
    exact h.connected
  · rw [hrelay, hexpected]
    exact h.relay
  · rw [hconnected, hrelay]
    exact h.disjoint

theorem WellFormed.transition (h : session.WellFormed) (newState : GroupSessionState) :
    (session.transition newState).WellFormed :=
  h.congr (transition_expectedMembers _) (transition_connectedMembers _) (transition_relayMembers _)

theorem WellFormed.beginEstablishing (hwf : session.WellFormed) :
    session.beginEstablishing.WellFormed := by
  unfold GroupSession.beginEstablishing
  split_ifs
  · exact hwf.transition _
  · exact hwf

/-- **What is recalculated** fits together, and says what the sets say. -/
theorem WellFormed.recalculateState (h : session.WellFormed) :
    session.recalculateState.WellFormed ∧
      session.recalculateState.state = session.recalculateState.connectivity := by
  rw [recalculateState_eq h]
  refine ⟨h.transition _, ?_⟩
  rw [transition_state]
  unfold connectivity
  simp only [transition_expectedMembers, transition_connectedMembers, transition_relayMembers]

end GroupSession

open GroupSession

section Calls

variable {session : GroupSession} {h : SessionHistory} {call : SessionCall}

/-- **A call that recalculates** does so for sets that fit together, and has reported the rest. -/
theorem step_of_recalculates (hwf : h.session.WellFormed) (hcall : Recalculates h.session call) :
    ∃ session : GroupSession, session.WellFormed ∧ Reports h.session session ∧
      h.step call = { h with session := session.recalculateState } := by
  cases call with
  | beginEstablishing => exact hcall.elim
  | setMemberSession member sessionId => exact hcall.elim
  | drainEvents => exact hcall.elim
  | memberConnected member =>
    change member ∈ h.session.expectedMembers at hcall
    refine ⟨_, ?_, ?_, congrArg (fun session => { h with session := session })
      (if_neg (not_not.mpr hcall))⟩
    · constructor
      · exact Finset.insert_subset hcall hwf.connected
      · exact (Finset.erase_subset _ _).trans hwf.relay
      · refine Finset.disjoint_insert_left.mpr ⟨Finset.notMem_erase _ _, ?_⟩
        exact hwf.disjoint.mono_right (Finset.erase_subset _ _)
    · exact reports_emit rfl rfl rfl
  | memberDisconnected member =>
    change member ∈ h.session.connectedMembers at hcall
    refine ⟨_, ?_, ?_, congrArg (fun session => { h with session := session }) (if_pos hcall)⟩
    · constructor
      · exact (Finset.erase_subset _ _).trans hwf.connected
      · exact hwf.relay
      · exact hwf.disjoint.mono_left (Finset.erase_subset _ _)
    · exact reports_emit rfl rfl rfl
  | memberFallbackToRelay member reason =>
    change member ∈ h.session.expectedMembers at hcall
    refine ⟨_, ?_, ?_, congrArg (fun session => { h with session := session })
      (if_neg (not_not.mpr hcall))⟩
    · constructor
      · exact (Finset.erase_subset _ _).trans hwf.connected
      · exact Finset.insert_subset hcall hwf.relay
      · refine Finset.disjoint_insert_right.mpr ⟨Finset.notMem_erase _ _, ?_⟩
        exact hwf.disjoint.mono_left (Finset.erase_subset _ _)
    · exact reports_emit rfl rfl rfl
  | addExpectedMember member =>
    refine ⟨{ h.session with expectedMembers := insert member h.session.expectedMembers }, ?_,
      .of_eq rfl rfl, rfl⟩
    constructor
    · exact hwf.connected.trans (Finset.subset_insert _ _)
    · exact hwf.relay.trans (Finset.subset_insert _ _)
    · exact hwf.disjoint
  | removeMember member =>
    refine ⟨{ h.session with
      expectedMembers := h.session.expectedMembers.erase member
      connectedMembers := h.session.connectedMembers.erase member
      relayMembers := h.session.relayMembers.erase member
      memberSessions := h.session.memberSessions.erase member }, ?_, .of_eq rfl rfl, rfl⟩
    constructor
    · exact Finset.erase_subset_erase _ hwf.connected
    · exact Finset.erase_subset_erase _ hwf.relay
    · exact hwf.disjoint.mono (Finset.erase_subset _ _) (Finset.erase_subset _ _)

/-- **Another call** does nothing, unless it begins to establish connections, or is about the
session identifiers or the events. -/
theorem step_of_not_recalculates (hcall : ¬ Recalculates h.session call) :
    h.step call = h ∨ call = .beginEstablishing ∨
      (∃ member id, call = .setMemberSession member id) ∨ call = .drainEvents := by
  have hsame {session : GroupSession} (heq : session = h.session) :
      ({ h with session := session } : SessionHistory) = h := by rw [heq]
  cases call with
  | beginEstablishing => exact .inr (.inl rfl)
  | setMemberSession member sessionId => exact .inr (.inr (.inl ⟨member, sessionId, rfl⟩))
  | drainEvents => exact .inr (.inr (.inr rfl))
  | memberConnected member => exact .inl (hsame (if_pos hcall))
  | memberDisconnected member => exact .inl (hsame (if_neg hcall))
  | memberFallbackToRelay member reason => exact .inl (hsame (if_pos hcall))
  | addExpectedMember member => exact absurd trivial hcall
  | removeMember member => exact absurd trivial hcall

theorem step_wellFormed (hwf : h.session.WellFormed) (call : SessionCall) :
    (h.step call).session.WellFormed ∧
      (Recalculates h.session call ∨ h.session.state = h.session.connectivity →
        (h.step call).session.state = (h.step call).session.connectivity) := by
  by_cases hcall : Recalculates h.session call
  · obtain ⟨session, hsession, -, hstep⟩ := step_of_recalculates hwf hcall
    rw [hstep]
    exact ⟨hsession.recalculateState.1, fun _ => hsession.recalculateState.2⟩
  rcases step_of_not_recalculates hcall with hstep | rfl | ⟨member, id, rfl⟩ | rfl
  · rw [hstep]
    exact ⟨hwf, fun hor => hor.resolve_left hcall⟩
  · refine ⟨hwf.beginEstablishing, fun hor => ?_⟩
    have hstate := hor.resolve_left hcall
    have hsame : h.session.beginEstablishing = h.session :=
      if_neg (hstate ▸ connectivity_ne_creating)
    change h.session.beginEstablishing.state = h.session.beginEstablishing.connectivity
    rw [hsame, hstate]
  · exact ⟨hwf.congr rfl rfl rfl, fun hor => hor.resolve_left hcall⟩
  · exact ⟨hwf.congr rfl rfl rfl, fun hor => hor.resolve_left hcall⟩

/-- The last event about the state names it; before the first one, the session is being created. -/
def SessionHistory.Named (h : SessionHistory) : Prop :=
  h.session.state = (lastNamed h.emitted).getD .creating

theorem SessionHistory.Named.of_reports {session : GroupSession} (hnamed : h.Named)
    (hreports : Reports h.session session) : ({ h with session := session } : SessionHistory).Named := by
  obtain ⟨new, hevents, hstate⟩ := hreports
  have hemitted : ({ h with session := session } : SessionHistory).emitted = h.emitted ++ new := by
    change h.drained ++ session.events = h.drained ++ h.session.events ++ new
    rw [hevents, List.append_assoc]
  unfold SessionHistory.Named at hnamed ⊢
  rw [hemitted, lastNamed_append]
  dsimp only
  rw [hstate, hnamed]
  cases lastNamed new <;> rfl

theorem step_named (hwf : h.session.WellFormed) (hnamed : h.Named) (call : SessionCall) :
    (h.step call).Named := by
  by_cases hcall : Recalculates h.session call
  · obtain ⟨session, -, hreports, hstep⟩ := step_of_recalculates hwf hcall
    rw [hstep]
    exact hnamed.of_reports (hreports.trans reports_recalculateState)
  rcases step_of_not_recalculates hcall with hstep | rfl | ⟨member, id, rfl⟩ | rfl
  · rw [hstep]
    exact hnamed
  · refine hnamed.of_reports ?_
    unfold beginEstablishing
    split_ifs
    · exact reports_transition _
    · exact .of_eq rfl rfl
  · exact hnamed.of_reports (.of_eq rfl rfl)
  · unfold SessionHistory.Named SessionHistory.emitted at hnamed ⊢
    simpa [SessionHistory.step, GroupSession.drainEvents] using hnamed

end Calls

/-! ## Runs -/

def SessionHistory.new (groupId : Str) (expectedMembers : Finset Str) : SessionHistory where
  session := { groupId := groupId, expectedMembers := expectedMembers }

theorem exec_kept (groupId : Str) (expectedMembers : Finset Str) (calls : List SessionCall) :
    (sessionSystem.exec (.new groupId expectedMembers) calls).session.WellFormed ∧
      (sessionSystem.exec (.new groupId expectedMembers) calls).Named := by
  induction calls using List.reverseRecOn with
  | nil =>
    exact ⟨⟨Finset.empty_subset _, Finset.empty_subset _, Finset.disjoint_empty_left _⟩, rfl⟩
  | append_singleton calls call ih =>
    rw [System.exec_append]
    exact ⟨(step_wellFormed ih.1 call).1, step_named ih.1 ih.2 call⟩

theorem exec_accounted {h : SessionHistory} (hwf : h.session.WellFormed)
    (hstate : h.session.state = h.session.connectivity) (calls : List SessionCall) :
    (sessionSystem.exec h calls).session.state = (sessionSystem.exec h calls).session.connectivity := by
  induction calls generalizing h with
  | nil => exact hstate
  | cons call calls ih =>
    obtain ⟨hwf', hstate'⟩ := step_wellFormed hwf call
    exact ih hwf' (hstate' (.inr hstate))

/-- **The session reflects connectivity**, after any calls: the sets fit together, the last event
about the state names it, and from the first call on that recalculated the state it is what the sets
say. -/
theorem session_reflects (groupId : Str) (expectedMembers : Finset Str) (calls : List SessionCall) :
    let h := sessionSystem.exec (.new groupId expectedMembers) calls
    h.session.WellFormed ∧ h.Named ∧
      ∀ before call after, calls = before ++ call :: after →
        Recalculates (sessionSystem.exec (.new groupId expectedMembers) before).session call →
          h.session.Reflects := by
  obtain ⟨hwf, hnamed⟩ := exec_kept groupId expectedMembers calls
  refine ⟨hwf, hnamed, ?_⟩
  rintro before call after rfl hcall
  refine hwf.reflects ?_
  obtain ⟨hwfBefore, -⟩ := exec_kept groupId expectedMembers before
  obtain ⟨hwfCall, hstate⟩ := step_wellFormed hwfBefore call
  rw [System.exec_append]
  exact exec_accounted hwfCall (hstate (.inl hcall)) after

/-- Of two members one is connected, and the other is reached through the server. -/
def relayedCalls : List SessionCall :=
  [.beginEstablishing, .memberConnected "alice".toList, .memberConnected "bob".toList, .drainEvents,
    .memberDisconnected "bob".toList, .memberFallbackToRelay "bob".toList "timeout".toList, .drainEvents]

theorem session_reflects_relayed :
    let h := sessionSystem.exec (.new "friends".toList {"alice".toList, "bob".toList}) relayedCalls
    h.session.state = .degraded ∧ h.session.Reflects := by
  refine ⟨by decide, ?_⟩
  exact (session_reflects "friends".toList {"alice".toList, "bob".toList} relayedCalls).2.2
    (relayedCalls.take 5) _ [.drainEvents] rfl (by decide : "bob".toList ∈ _)

end Pirc.P2p
