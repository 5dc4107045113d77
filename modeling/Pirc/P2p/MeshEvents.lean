import Pirc.P2p.GroupMesh

/-!
# P2P: the events of a mesh

The events that a mesh reports tell who is connected. That the whole mesh became connected is
reported by every operation which looks at the state of the mesh; to remove a member without a
connection does not look at it, although the others may all be connected then.
-/

namespace Pirc.P2p

open Protocol (Str)

/-! ## Calls and events -/

/-- The calls of an application. -/
inductive MeshCall (τ : Type)
  | addMember (member : Str)
  | removeMember (member : Str)
  | memberConnected (member : Str) (transport : τ)
  | memberDegraded (member : Str) (reason : Str)
  | memberDisconnected (member : Str)

def GroupMesh.call {τ : Type} (mesh : GroupMesh τ) : MeshCall τ → GroupMesh τ
  | .addMember member => mesh.addMember member
  | .removeMember member => mesh.removeMember member
  | .memberConnected member transport => mesh.memberConnected member transport
  | .memberDegraded member reason => mesh.memberDegraded member reason
  | .memberDisconnected member => mesh.memberDisconnected member

/-- A mesh under the calls of an application. -/
def meshSystem (τ : Type) : System (GroupMesh τ) (MeshCall τ) where
  enabled _ _ := True
  step := GroupMesh.call

def replayEvent (connected : Finset Str) : GroupMeshEvent → Finset Str
  | .memberConnected member => insert member connected
  | .memberDisconnected member | .memberDegraded member _ => connected.erase member
  | .meshReady | .meshDegraded => connected

/-- **Who is connected**, by the events. -/
def replay (events : List GroupMeshEvent) : Finset Str := events.foldl replayEvent ∅

theorem replay_concat (events : List GroupMeshEvent) (event : GroupMeshEvent) :
    replay (events ++ [event]) = replayEvent (replay events) event := by
  rw [replay, List.foldl_append]
  rfl

namespace GroupMesh

variable {τ : Type} {mesh mesh' : GroupMesh τ} {member : Str}

def connectedMembers (mesh : GroupMesh τ) : List Str :=
  (mesh.members.entries.filter fun entry => entry.2.state = .connected).map Sigma.fst

/-- **It is reported that the whole mesh became connected**, if it did and has members. -/
def ReportsReady (mesh mesh' : GroupMesh τ) : Prop :=
  mesh.isFullyConnected = false → mesh'.memberCount ≠ 0 → mesh'.isFullyConnected = true →
    .meshReady ∈ mesh'.events.drop mesh.events.length

/-- **The last member without a connection is removed**, and there are others. -/
def RemovesLast (mesh : GroupMesh τ) : MeshCall τ → Prop
  | .removeMember member => mesh.trackedMembers.keys = [member] ∧ mesh.members.keys ≠ []
  | _ => False

/-- **The events and the members agree**: nobody is in both maps, those with a transport are
connected, and the events tell who they are. -/
structure Tracking (mesh : GroupMesh τ) : Prop where
  disjoint : ∀ member ∈ mesh.members, member ∉ mesh.trackedMembers
  connected : ∀ member entry, mesh.members.lookup member = some entry → entry.state = .connected
  replayed : ∀ member, member ∈ replay mesh.events ↔ member ∈ mesh.members

/-! ## The state of the mesh -/

theorem keys_eq_nil {V : Type} {map : Crypto.NickMap V} : map.keys = [] ↔ ∀ member, member ∉ map := by
  rw [List.eq_nil_iff_forall_not_mem]
  exact Iff.rfl

section Keys

variable {α : Type} [DecidableEq α] {β : α → Type} {map : AList β} {a : α}

theorem keys_erase_of_notMem (h : a ∉ map) : (map.erase a).keys = map.keys := by
  rw [AList.keys_erase]
  exact List.erase_of_not_mem h

theorem keys_erase_eq_nil : (map.erase a).keys = [] ↔ map.keys = [] ∨ map.keys = [a] := by
  rw [AList.keys_erase]
  exact List.erase_eq_nil_iff

end Keys

theorem memberCount_eq_zero :
    mesh.memberCount = 0 ↔ mesh.members.keys = [] ∧ mesh.trackedMembers.keys = [] := by
  rw [memberCount, Nat.add_eq_zero_iff, List.length_eq_zero_iff, List.length_eq_zero_iff]

theorem Tracking.mem_connectedMembers (h : mesh.Tracking) :
    member ∈ mesh.connectedMembers ↔ member ∈ mesh.members := by
  unfold connectedMembers
  constructor
  · intro hmember
    obtain ⟨entry, hentry, rfl⟩ := List.mem_map.mp hmember
    exact List.mem_map.mpr ⟨entry, (List.mem_filter.mp hentry).1, rfl⟩
  · intro hmember
    obtain ⟨entry, hentry⟩ := Option.isSome_iff_exists.mp (AList.lookup_isSome.mpr hmember)
    refine List.mem_map.mpr ⟨⟨member, entry⟩, List.mem_filter.mpr ⟨?_, ?_⟩, rfl⟩
    · exact AList.mem_lookup_iff.mp hentry
    · exact decide_eq_true (h.connected member entry hentry)

theorem Tracking.isFullyConnected_iff (h : mesh.Tracking) :
    mesh.isFullyConnected = true ↔ mesh.trackedMembers.keys = [] := by
  unfold isFullyConnected
  rw [Bool.and_eq_true, List.isEmpty_iff]
  have hall : (mesh.members.entries.all fun entry => entry.2.state = .connected) = true := by
    refine List.all_eq_true.mpr fun entry hentry => decide_eq_true ?_
    exact h.connected entry.1 entry.2 (AList.mem_lookup_iff.mpr hentry)
  rw [and_iff_left hall]
  exact List.map_eq_nil_iff.symm

@[simp] theorem checkMeshState_members : mesh.checkMeshState.members = mesh.members := by
  unfold checkMeshState
  split_ifs <;> rfl

@[simp] theorem checkMeshState_trackedMembers :
    mesh.checkMeshState.trackedMembers = mesh.trackedMembers := by
  unfold checkMeshState
  split_ifs <;> rfl

@[simp] theorem replay_checkMeshState : replay mesh.checkMeshState.events = replay mesh.events := by
  unfold checkMeshState
  split_ifs
  · rfl
  · exact replay_concat _ _
  · exact replay_concat _ _
  · rfl

@[simp] theorem isFullyConnected_checkMeshState :
    mesh.checkMeshState.isFullyConnected = mesh.isFullyConnected := by
  simp [isFullyConnected]

@[simp] theorem memberCount_checkMeshState : mesh.checkMeshState.memberCount = mesh.memberCount := by
  simp [memberCount]

theorem Tracking.checkMeshState (h : mesh.Tracking) : mesh.checkMeshState.Tracking := by
  constructor
  · simpa using h.disjoint
  · simpa using h.connected
  · simpa using h.replayed

/-- **Whoever looks at the state of the mesh** reports that it became connected. -/
theorem reportsReady_checkMeshState {event : GroupMeshEvent} (h : mesh'.events = mesh.events) :
    mesh.ReportsReady (mesh'.emit event).checkMeshState := by
  intro _ hcount hfull
  rw [memberCount_checkMeshState] at hcount
  rw [isFullyConnected_checkMeshState] at hfull
  have hready : (mesh'.emit event).checkMeshState.events = mesh.events ++ [event] ++ [.meshReady] := by
    unfold GroupMesh.checkMeshState
    rw [if_neg hcount, if_pos hfull, ← h]
    rfl
  rw [hready, List.append_assoc, List.drop_left]
  simp

theorem reportsReady_self (mesh : GroupMesh τ) : mesh.ReportsReady mesh := by
  intro hpartly _ hfull
  rw [hpartly] at hfull
  cases hfull

theorem Tracking.reportsReady (h : mesh'.Tracking) (hmember : member ∈ mesh'.trackedMembers) :
    mesh.ReportsReady mesh' := by
  intro _ _ hfull
  exact absurd hmember (keys_eq_nil.mp (h.isFullyConnected_iff.mp hfull) member)

/-! ## Operations -/

theorem Tracking.addMember (h : mesh.Tracking) (member : Str) :
    (mesh.addMember member).Tracking ∧ mesh.ReportsReady (mesh.addMember member) := by
  unfold GroupMesh.addMember
  split_ifs with hknown
  · exact ⟨h, reportsReady_self mesh⟩
  · have htracking : ({ mesh with
        trackedMembers := mesh.trackedMembers.insert member .connecting } : GroupMesh τ).Tracking := by
      refine ⟨fun other hother htracked => ?_, h.connected, h.replayed⟩
      rcases (AList.mem_insert _).mp htracked with rfl | htracked
      · exact hknown (.inl hother)
      · exact h.disjoint other hother htracked
    exact ⟨htracking, htracking.reportsReady ((AList.mem_insert _).mpr (.inl rfl))⟩

theorem Tracking.erase (h : mesh.Tracking) {tracked : Crypto.NickMap PeerConnectionState}
    {event : GroupMeshEvent} (htracked : ∀ other ∈ tracked, other = member ∨ other ∈ mesh.trackedMembers)
    (hevent : ∀ connected, replayEvent connected event = connected.erase member) :
    ({ mesh with
      members := mesh.members.erase member
      trackedMembers := tracked }.emit event : GroupMesh τ).Tracking := by
  constructor
  · intro other hother hmem
    obtain ⟨hne, hother⟩ := AList.mem_erase.mp hother
    exact h.disjoint other hother ((htracked other hmem).resolve_left hne)
  · intro other entry hentry
    rcases eq_or_ne other member with rfl | hne
    · cases (AList.lookup_erase other mesh.members).symm.trans hentry
    · exact h.connected other entry ((AList.lookup_erase_ne hne).symm.trans hentry)
  · intro other
    change other ∈ replay (mesh.events ++ [event]) ↔ other ∈ mesh.members.erase member
    rw [replay_concat, hevent, Finset.mem_erase, AList.mem_erase, h.replayed]

theorem Tracking.erase_of_notMem (h : mesh.Tracking) (hmember : member ∉ mesh.members)
    {tracked : Crypto.NickMap PeerConnectionState}
    (htracked : ∀ other ∈ tracked, other = member ∨ other ∈ mesh.trackedMembers) :
    ({ mesh with
      members := mesh.members.erase member
      trackedMembers := tracked } : GroupMesh τ).Tracking := by
  have herase : ({ mesh with
      members := mesh.members.erase member
      trackedMembers := tracked }.emit (.memberDisconnected member) : GroupMesh τ).Tracking :=
    h.erase htracked fun _ => rfl
  refine ⟨herase.disjoint, herase.connected, fun other => ?_⟩
  have hreplayed := herase.replayed other
  change other ∈ replay (mesh.events ++ [_]) ↔ _ at hreplayed
  rw [replay_concat] at hreplayed
  refine Iff.trans ?_ hreplayed
  change _ ↔ other ∈ (replay mesh.events).erase member
  rw [Finset.erase_eq_of_notMem ((h.replayed member).not.mpr hmember)]

theorem Tracking.memberConnected (h : mesh.Tracking) (member : Str) (transport : τ) :
    (mesh.memberConnected member transport).Tracking ∧
      mesh.ReportsReady (mesh.memberConnected member transport) := by
  unfold GroupMesh.memberConnected
  split_ifs with hknown
  · refine ⟨Tracking.checkMeshState ⟨?_, ?_, ?_⟩, reportsReady_checkMeshState rfl⟩
    · intro other hother hmem
      obtain ⟨hne, hmem⟩ := AList.mem_erase.mp hmem
      exact h.disjoint other (((AList.mem_insert _).mp hother).resolve_left hne) hmem
    · intro other entry hentry
      rcases eq_or_ne other member with rfl | hne
      · cases (AList.lookup_insert mesh.members).symm.trans hentry
        rfl
      · exact h.connected other entry ((AList.lookup_insert_ne hne).symm.trans hentry)
    · intro other
      change other ∈ replay (mesh.events ++ [_]) ↔ other ∈ mesh.members.insert member _
      rw [replay_concat, AList.mem_insert, ← h.replayed]
      exact Finset.mem_insert
  · exact ⟨h, reportsReady_self mesh⟩

theorem Tracking.memberDegraded (h : mesh.Tracking) (member reason : Str) :
    (mesh.memberDegraded member reason).Tracking ∧
      mesh.ReportsReady (mesh.memberDegraded member reason) := by
  unfold GroupMesh.memberDegraded
  split_ifs with hknown
  · refine ⟨(h.erase ?_ fun _ => rfl).checkMeshState, reportsReady_checkMeshState rfl⟩
    exact fun other => (AList.mem_insert _).mp
  · exact ⟨h, reportsReady_self mesh⟩

theorem Tracking.memberDisconnected (h : mesh.Tracking) (member : Str) :
    (mesh.memberDisconnected member).Tracking ∧
      mesh.ReportsReady (mesh.memberDisconnected member) := by
  have hinsert : ∀ other ∈ mesh.trackedMembers.insert member PeerConnectionState.disconnected,
      other = member ∨ other ∈ mesh.trackedMembers := fun other => (AList.mem_insert _).mp
  unfold GroupMesh.memberDisconnected
  dsimp only
  split_ifs with hknown hconnected
  · exact ⟨(h.erase hinsert fun _ => rfl).checkMeshState, reportsReady_checkMeshState rfl⟩
  · have htracking := h.erase_of_notMem (of_decide_eq_false (Bool.not_eq_true _ ▸ hconnected)) hinsert
    exact ⟨htracking, htracking.reportsReady ((AList.mem_insert _).mpr (.inl rfl))⟩
  · exact ⟨h, reportsReady_self mesh⟩

/-- **To remove a member** does not look at the state of the mesh, unless the member was
connected. -/
theorem Tracking.removeMember (h : mesh.Tracking) (member : Str) :
    (mesh.removeMember member).Tracking ∧
      (mesh.ReportsReady (mesh.removeMember member) ↔
        ¬ mesh.RemovesLast (.removeMember member)) := by
  have herase : ∀ other ∈ mesh.trackedMembers.erase member,
      other = member ∨ other ∈ mesh.trackedMembers :=
    fun other hother => .inr (AList.mem_erase.mp hother).2
  unfold GroupMesh.removeMember
  dsimp only
  split_ifs with hconnected
  · obtain ⟨entry, hentry, -⟩ := (Option.any_eq_true _ _).mp hconnected
    have hmember : member ∈ mesh.members := AList.lookup_isSome.mp (hentry ▸ rfl)
    refine ⟨(h.erase herase fun _ => rfl).checkMeshState,
      iff_of_true (reportsReady_checkMeshState rfl) ?_⟩
    rintro ⟨hlast, -⟩
    exact h.disjoint member hmember (AList.mem_keys.mpr (hlast ▸ List.mem_singleton_self member))
  · have hmember : member ∉ mesh.members := by
      intro hmem
      obtain ⟨entry, hentry⟩ := Option.isSome_iff_exists.mp (AList.lookup_isSome.mpr hmem)
      refine hconnected ?_
      rw [hentry]
      exact decide_eq_true (h.connected member entry hentry)
    have htracking := h.erase_of_notMem hmember herase
    refine ⟨htracking, ?_⟩
    have hothers : (mesh.members.erase member).keys = mesh.members.keys := keys_erase_of_notMem hmember
    -- nothing is reported, so the mesh must not have become connected
    have hsilent : mesh.ReportsReady { mesh with
        members := mesh.members.erase member
        trackedMembers := mesh.trackedMembers.erase member } ↔
        (¬ mesh.trackedMembers.keys = [] →
          ¬ (mesh.members.keys = [] ∧ (mesh.trackedMembers.erase member).keys = []) →
            ¬ (mesh.trackedMembers.erase member).keys = []) := by
      unfold ReportsReady
      rw [List.drop_length, Ne, memberCount_eq_zero, htracking.isFullyConnected_iff,
        ← Bool.not_eq_true, h.isFullyConnected_iff, hothers]
      simp only [List.not_mem_nil, imp_false]
    rw [hsilent, keys_erase_eq_nil]
    constructor
    · rintro hnone ⟨hlast, hmembers⟩
      exact hnone (by rw [hlast]; exact List.cons_ne_nil _ _) (fun hempty => hmembers hempty.1)
        (.inr hlast)
    · rintro hlast htracked hcount (hnil | hsingle)
      · exact htracked hnil
      · exact hlast ⟨hsingle, fun hempty => hcount ⟨hempty, .inr hsingle⟩⟩

/-- **When a call reports that the mesh became connected.** -/
theorem Tracking.call (h : mesh.Tracking) (call : MeshCall τ) :
    (mesh.call call).Tracking ∧ (mesh.ReportsReady (mesh.call call) ↔ ¬ mesh.RemovesLast call) := by
  cases call with
  | addMember member =>
    obtain ⟨htracking, hreports⟩ := h.addMember member
    exact ⟨htracking, iff_of_true hreports id⟩
  | removeMember member => exact h.removeMember member
  | memberConnected member transport =>
    obtain ⟨htracking, hreports⟩ := h.memberConnected member transport
    exact ⟨htracking, iff_of_true hreports id⟩
  | memberDegraded member reason =>
    obtain ⟨htracking, hreports⟩ := h.memberDegraded member reason
    exact ⟨htracking, iff_of_true hreports id⟩
  | memberDisconnected member =>
    obtain ⟨htracking, hreports⟩ := h.memberDisconnected member
    exact ⟨htracking, iff_of_true hreports id⟩

theorem tracking_empty : ({} : GroupMesh τ).Tracking where
  disjoint _ h := absurd h (AList.notMem_empty _)
  connected _ _ h := by cases h
  replayed member := iff_of_false (Finset.notMem_empty _) (AList.notMem_empty _)

end GroupMesh

/-! ## Runs -/

open GroupMesh

theorem tracking_exec {τ : Type} (calls : List (MeshCall τ)) : ((meshSystem τ).exec {} calls).Tracking := by
  induction calls using List.reverseRecOn with
  | nil => exact tracking_empty
  | append_singleton calls call ih =>
    rw [System.exec_append]
    exact (ih.call call).1

/-- **The events track the mesh** in the whole run: nobody is in both maps, the events tell who is
connected, and every call that makes a mesh with members connected reports it. -/
structure EventsTrack {τ : Type} (calls : List (MeshCall τ)) : Prop where
  disjoint : ∀ n member, ¬ (member ∈ ((meshSystem τ).exec {} (calls.take n)).members ∧
    member ∈ ((meshSystem τ).exec {} (calls.take n)).trackedMembers)
  replayed : ∀ n, replay ((meshSystem τ).exec {} (calls.take n)).events =
    ((meshSystem τ).exec {} (calls.take n)).connectedMembers.toFinset
  ready : ∀ before call after, calls = before ++ call :: after →
    ((meshSystem τ).exec {} before).ReportsReady ((meshSystem τ).exec {} (before ++ [call]))

/-- **The events track the mesh** exactly if no call removes the last member without a connection
while there are others. -/
theorem eventsTrack_iff {τ : Type} (calls : List (MeshCall τ)) :
    EventsTrack calls ↔ ∀ before call after, calls = before ++ call :: after →
      ¬ ((meshSystem τ).exec {} before).RemovesLast call := by
  have hready (before : List (MeshCall τ)) (call : MeshCall τ) :
      ((meshSystem τ).exec {} before).ReportsReady ((meshSystem τ).exec {} (before ++ [call])) ↔
        ¬ ((meshSystem τ).exec {} before).RemovesLast call := by
    rw [System.exec_append]
    exact ((tracking_exec before).call call).2
  constructor
  · intro h before call after heq
    exact (hready before call).mp (h.ready before call after heq)
  · intro h
    refine ⟨fun n member hboth => ?_, fun n => ?_, fun before call after heq => ?_⟩
    · exact (tracking_exec _).disjoint member hboth.1 hboth.2
    · ext member
      rw [(tracking_exec _).replayed, List.mem_toFinset, (tracking_exec _).mem_connectedMembers]
    · exact (hready before call).mpr (h before call after heq)

def connectOneRemoveOther : List (MeshCall Unit) :=
  [.addMember ['a'], .addMember ['b'], .memberConnected ['a'] (), .removeMember ['b']]

/-- The mesh is connected then, and this is not reported. -/
theorem not_eventsTrack_connectOneRemoveOther :
    ¬ ∀ calls : List (MeshCall Unit), EventsTrack calls := by
  intro halways
  have hlast := (halways connectOneRemoveOther).ready
    [.addMember ['a'], .addMember ['b'], .memberConnected ['a'] ()] (.removeMember ['b']) [] rfl
  have hreported := hlast (by decide) (by decide) (by decide)
  revert hreported
  decide

end Pirc.P2p
