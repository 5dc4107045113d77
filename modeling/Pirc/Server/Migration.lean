import Pirc.Lib.RoundRobin
import Pirc.Lib.Run
import Pirc.Raft.Health
import Pirc.Server.ClusterState

/-!
# Server: migration of users

`migration.rs`: when a node goes down, the leader proposes a new home for each user that the index
of home nodes has there. The nodes to choose from are those the server knew when it started. Whether
the proposals are committed is not modelled; the channel that takes them does not fail while the
node leads.
-/

namespace Pirc.Server

open Protocol
open Raft (NodeId ClusterMembership MembershipChange HealthEvent)

/-! ## The index of home nodes -/

/-- Names are in lower case here. The second map is the reverse of the first. -/
structure UserNodeIndex where
  userToNode : StrMap NodeId := ∅
  nodeToUsers : FoldMap (fun node : NodeId => node) (Finset Str) := ∅

namespace UserNodeIndex

/-- Take a user off a node's list; an empty list goes. -/
def unlist (nodeToUsers : FoldMap (fun node : NodeId => node) (Finset Str)) (node : NodeId)
    (key : Str) : FoldMap (fun node : NodeId => node) (Finset Str) :=
  match nodeToUsers.get node with
  | some users =>
    if users.erase key = ∅ then nodeToUsers.remove node
    else nodeToUsers.insert node (users.erase key)
  | none => nodeToUsers

def setHomeNode (index : UserNodeIndex) (nickname : Str) (node : NodeId) : UserNodeIndex :=
  let key := lowercase nickname
  let nodeToUsers :=
    match index.userToNode.get key with
    | some old => if old ≠ node then unlist index.nodeToUsers old key else index.nodeToUsers
    | none => index.nodeToUsers
  { userToNode := index.userToNode.insert key node
    nodeToUsers := nodeToUsers.insert node (insert key ((nodeToUsers.get node).getD ∅)) }

def removeUser (index : UserNodeIndex) (nickname : Str) : UserNodeIndex :=
  let key := lowercase nickname
  match index.userToNode.get key with
  | some node =>
    { userToNode := index.userToNode.remove key, nodeToUsers := unlist index.nodeToUsers node key }
  | none => index

def renameUser (index : UserNodeIndex) (oldNick newNick : Str) : UserNodeIndex :=
  let oldKey := lowercase oldNick
  let newKey := lowercase newNick
  match index.userToNode.get oldKey with
  | some node =>
    { userToNode := (index.userToNode.remove oldKey).insert newKey node
      nodeToUsers := index.nodeToUsers.modify node fun users => insert newKey (users.erase oldKey) }
  | none => index

/-- Who is listed on a node; the source lists them in any order. -/
def usersOnNode (index : UserNodeIndex) (node : NodeId) : Finset Str :=
  (index.nodeToUsers.get node).getD ∅

def home (index : UserNodeIndex) (key : Str) : Option NodeId := index.userToNode.get key

/-- What a command changes of the home nodes. -/
def update (index : UserNodeIndex) : ClusterCommand → UserNodeIndex
  | .userRegistered _ nickname _ _ _ _ (some node) => index.setHomeNode nickname node
  | .userMigrated nickname _ toNode => index.setHomeNode nickname toNode
  | .userQuit nickname _ | .userKilled nickname _ => index.removeUser nickname
  | .nickChanged oldNick newNick => index.renameUser oldNick newNick
  | _ => index

/-! ## Both directions agree -/

def Consistent (index : UserNodeIndex) : Prop :=
  ∀ key node, index.home key = some node → key ∈ index.usersOnNode node

variable {index : UserNodeIndex}

theorem usersOnNode_unlist (nodeToUsers : FoldMap (fun node : NodeId => node) (Finset Str))
    (old node : NodeId) (key : Str) :
    ((unlist nodeToUsers old key).get node).getD ∅ =
      if node = old then ((nodeToUsers.get node).getD ∅).erase key
      else (nodeToUsers.get node).getD ∅ := by
  unfold unlist
  by_cases hnode : node = old
  · subst hnode
    rw [if_pos rfl]
    cases husers : nodeToUsers.get node with
    | none => simp [husers]
    | some users =>
      dsimp only
      split_ifs with hempty
      · simp [FoldMap.get, FoldMap.lookup_remove, hempty]
      · simp
  · rw [if_neg hnode]
    cases nodeToUsers.get old with
    | none => rfl
    | some users =>
      dsimp only
      split_ifs
      · simp [FoldMap.get, FoldMap.lookup_remove, Ne.symm hnode]
      · simp [FoldMap.get, FoldMap.lookup_insert, Ne.symm hnode]

@[simp] theorem home_empty (key : Str) : home {} key = none := rfl

theorem home_insert (index : UserNodeIndex) (key key' : Str) (node : NodeId)
    (nodeToUsers : FoldMap (fun node : NodeId => node) (Finset Str)) :
    home ⟨index.userToNode.insert key node, nodeToUsers⟩ key' =
      if key = key' then some node else index.home key' := by
  simp only [home, FoldMap.get, FoldMap.lookup_insert]

theorem home_remove (index : UserNodeIndex) (key key' : Str)
    (nodeToUsers : FoldMap (fun node : NodeId => node) (Finset Str)) :
    home ⟨index.userToNode.remove key, nodeToUsers⟩ key' =
      if key = key' then none else index.home key' := by
  simp only [home, FoldMap.get, FoldMap.lookup_remove]

theorem consistent_setHomeNode (h : index.Consistent) (nickname : Str) (node : NodeId) :
    (index.setHomeNode nickname node).Consistent := by
  intro key node' hhome
  have hold : ∀ nodeToUsers : FoldMap (fun node : NodeId => node) (Finset Str),
      (∀ key node', key ≠ lowercase nickname → index.home key = some node' →
        key ∈ (nodeToUsers.get node').getD ∅) →
      key ∈ usersOnNode ⟨index.userToNode.insert (lowercase nickname) node,
        nodeToUsers.insert node (insert (lowercase nickname) ((nodeToUsers.get node).getD ∅))⟩
        node' := by
    intro nodeToUsers hkept
    simp only [usersOnNode, FoldMap.get, FoldMap.lookup_insert]
    simp only [setHomeNode, home_insert] at hhome
    split_ifs at hhome ⊢ with hnode hkey hkey
    · simp [hkey]
    · subst hnode
      exact Finset.mem_insert_of_mem (hkept key node (Ne.symm hkey) hhome)
    · exact absurd (Option.some.inj hhome) hnode
    · exact hkept key node' (Ne.symm hkey) hhome
  refine hold _ ?_
  intro key node' hne hhome
  cases hget : index.userToNode.get (lowercase nickname) with
  | none => exact h key node' hhome
  | some old =>
    dsimp only
    split_ifs
    · rw [usersOnNode_unlist]
      split_ifs
      · exact Finset.mem_erase.mpr ⟨hne, h key node' hhome⟩
      · exact h key node' hhome
    · exact h key node' hhome

theorem consistent_removeUser (h : index.Consistent) (nickname : Str) :
    (index.removeUser nickname).Consistent := by
  unfold removeUser
  dsimp only
  cases hget : index.userToNode.get (lowercase nickname) with
  | none => exact h
  | some node =>
    intro key node' hhome
    simp only [home_remove] at hhome
    split_ifs at hhome with hkey
    rw [usersOnNode, usersOnNode_unlist]
    split_ifs
    · exact Finset.mem_erase.mpr ⟨Ne.symm hkey, h key node' hhome⟩
    · exact h key node' hhome

theorem consistent_renameUser (h : index.Consistent) (oldNick newNick : Str) :
    (index.renameUser oldNick newNick).Consistent := by
  unfold renameUser
  dsimp only
  cases hget : index.userToNode.get (lowercase oldNick) with
  | none => exact h
  | some node =>
    -- the user is listed where it has its home, so that the list is there to change
    have hlisted := h _ _ hget
    intro key node' hhome
    have hhome' : (if lowercase newNick = key then some node
        else if lowercase oldNick = key then none else index.home key) = some node' := by
      simpa only [home, FoldMap.get, FoldMap.lookup_insert, FoldMap.lookup_remove] using hhome
    simp only [usersOnNode, FoldMap.get, FoldMap.lookup_modify] at hlisted ⊢
    cases husers : index.nodeToUsers.lookup node with
    | none => simp [husers] at hlisted
    | some users =>
      by_cases hnew : lowercase newNick = key
      · rw [if_pos hnew] at hhome'
        obtain rfl := Option.some.inj hhome'
        simp [husers, hnew]
      · rw [if_neg hnew] at hhome'
        by_cases hold : lowercase oldNick = key
        · rw [if_pos hold] at hhome'
          cases hhome'
        · rw [if_neg hold] at hhome'
          have hmem := h key node' hhome'
          simp only [usersOnNode, FoldMap.get] at hmem
          split_ifs with hnode
          · subst hnode
            rw [husers] at hmem ⊢
            exact Finset.mem_insert_of_mem (Finset.mem_erase.mpr ⟨Ne.symm hold, hmem⟩)
          · exact hmem

/-- **Every committed command keeps the directions in agreement.** -/
theorem consistent_update (h : index.Consistent) (command : ClusterCommand) :
    (index.update command).Consistent := by
  unfold update
  split
  · exact consistent_setHomeNode h _ _
  · exact consistent_setHomeNode h _ _
  · exact consistent_removeUser h _
  · exact consistent_removeUser h _
  · exact consistent_renameUser h _ _
  · exact h

end UserNodeIndex

/-! ## The service -/

/-- The nodes to choose from: those known when the server started and itself, without the one that
failed, in order. -/
def surviving (selfId : NodeId) (peerIds : List NodeId) (failedNode : NodeId) : List NodeId :=
  (peerIds.filter (· ≠ failedNode) ++
    if selfId ≠ failedNode then [selfId] else []).insertionSort (· ≤ ·)

/-- What a health event makes the leader propose. -/
def migrationProposals (isLeader : Bool) (selfId : NodeId) (peerIds : List NodeId)
    (affectedUsers : List Str) : HealthEvent → List ClusterCommand
  | .nodeDown failedNode =>
    if isLeader then
      (roundRobin (surviving selfId peerIds failedNode) affectedUsers).map fun (nickname, target) =>
        .userMigrated nickname failedNode target
    else []
  | .nodeSuspected _ | .nodeUp _ => []

theorem mem_surviving {selfId : NodeId} {peerIds : List NodeId} {failedNode n : NodeId} :
    n ∈ surviving selfId peerIds failedNode ↔ n ∈ selfId :: peerIds ∧ n ≠ failedNode := by
  simp only [surviving, List.mem_insertionSort, List.mem_append, List.mem_filter, List.mem_cons]
  split_ifs with hself
  · simp only [List.mem_singleton, decide_eq_true_eq]
    constructor
    · rintro (⟨hmem, hne⟩ | rfl)
      · exact ⟨.inr hmem, hne⟩
      · exact ⟨.inl rfl, hself⟩
    · rintro ⟨rfl | hmem, hne⟩
      · exact .inr rfl
      · exact .inl ⟨hmem, hne⟩
  · simp only [List.not_mem_nil, or_false, decide_eq_true_eq]
    constructor
    · rintro ⟨hmem, hne⟩
      exact ⟨.inr hmem, hne⟩
    · rintro ⟨rfl | hmem, hne⟩
      · exact absurd hne hself
      · exact ⟨hmem, hne⟩

theorem pairwise_surviving (selfId : NodeId) (peerIds : List NodeId) (failedNode : NodeId) :
    (surviving selfId peerIds failedNode).Pairwise (· ≤ ·) :=
  List.pairwise_insertionSort _ _

def ClusterCommand.moves (user : Str) : ClusterCommand → Bool
  | .userMigrated nickname _ _ => nickname = user
  | _ => false

/-- **Every listed user gets exactly one proposal**, as there is some node to choose. -/
theorem countP_moves {selfId : NodeId} {peerIds : List NodeId} {failedNode : NodeId}
    (hself : selfId ≠ failedNode) {affectedUsers : List Str} (hnodup : affectedUsers.Nodup)
    {user : Str} (huser : user ∈ affectedUsers) :
    (migrationProposals true selfId peerIds affectedUsers (.nodeDown failedNode)).countP
      (ClusterCommand.moves user) = 1 := by
  have hne : surviving selfId peerIds failedNode ≠ [] :=
    List.ne_nil_of_mem (mem_surviving.mpr ⟨List.mem_cons_self, hself⟩)
  simp only [migrationProposals, if_true, List.countP_map]
  have hcount := congrArg (List.count user) (RoundRobin.map_fst_roundRobin hne affectedUsers)
  rw [List.count_eq_one_of_mem hnodup huser, List.count_eq_countP, List.countP_map] at hcount
  rw [← hcount]
  refine List.countP_congr ?_
  rintro ⟨nickname, target⟩ -
  simp [ClusterCommand.moves]

/-! ## Runs of the service -/

/-- What the service of a leader works with. `down` has the nodes whose most recent health event is
`NodeDown`; `failed` and `proposed` are what the last step was about, for the proofs only. -/
structure MigrationRun where
  index : UserNodeIndex := {}
  membership : ClusterMembership
  down : Finset NodeId := ∅
  failed : Option NodeId := none
  proposed : List ClusterCommand := []

inductive MigrationEvent
  | health (e : HealthEvent) (order : List Str)
  | committed (command : ClusterCommand)
  | membership (change : MembershipChange)
  deriving DecidableEq

namespace MigrationRun

def track (down : Finset NodeId) : HealthEvent → Finset NodeId
  | .nodeDown node => insert node down
  | .nodeSuspected node | .nodeUp node => down.erase node

def failedNode? : HealthEvent → Option NodeId
  | .nodeDown node => some node
  | .nodeSuspected _ | .nodeUp _ => none

variable (selfId : NodeId) (peerIds : List NodeId)

def system : System MigrationRun MigrationEvent where
  enabled r
    | .health e order => e.node ≠ selfId ∧ order.Nodup ∧ order.toFinset = r.index.usersOnNode e.node
    | _ => True
  step r
    | .health e order =>
      { r with
        down := track r.down e
        failed := failedNode? e
        proposed := migrationProposals true selfId peerIds order e }
    | .committed command =>
      { r with index := r.index.update command, failed := none, proposed := [] }
    | .membership change =>
      { r with
        membership := (r.membership.beginChange 0 change).commitChange
        failed := none
        proposed := [] }

instance (r : MigrationRun) : ∀ e, Decidable ((system selfId peerIds).enabled r e)
  | .health _ _ => inferInstanceAs (Decidable (_ ∧ _ ∧ _))
  | .committed _ | .membership _ => .isTrue trivial

def initial : MigrationRun where
  membership := .new selfId peerIds

/-- **A step that does its duty**: no proposal names a node that is no member or is dead, and every
user homed on the node that failed gets exactly one. -/
structure Proper (r : MigrationRun) : Prop where
  alive : ∀ nickname fromNode toNode, .userMigrated nickname fromNode toNode ∈ r.proposed →
    toNode ∈ r.membership.members ∧ toNode ∉ r.down
  once : ∀ node ∈ r.failed, ∀ user, r.index.home user = some node →
    r.proposed.countP (ClusterCommand.moves user) = 1

/-- **What decides it**: of the nodes known at the start other than the failed one, those that left
or are dead come after as many others as there are users to move. -/
def Spared (r : MigrationRun) : MigrationEvent → Prop
  | .health (.nodeDown failedNode) order =>
    ∀ node ∈ selfId :: peerIds, node ≠ failedNode →
      (node ∉ r.membership.members ∨ node ∈ r.down) →
        order.length ≤ (surviving selfId peerIds failedNode).countP (· < node)
  | _ => True

instance (r : MigrationRun) : DecidablePred (r.Spared selfId peerIds)
  | .health (.nodeDown _) _ => inferInstanceAs (Decidable (∀ _ ∈ _, _))
  | .health (.nodeSuspected _) _ | .health (.nodeUp _) _ | .committed _ | .membership _ =>
    .isTrue trivial

variable {selfId peerIds}

/-- **Step lemma**: a step does its duty exactly if the users are spared the dead nodes. -/
theorem proper_step {r : MigrationRun} {e : MigrationEvent}
    (he : (system selfId peerIds).enabled r e) (hindex : r.index.Consistent) :
    ((system selfId peerIds).step r e).index.Consistent ∧
      (((system selfId peerIds).step r e).Proper ↔ r.Spared selfId peerIds e) := by
  cases e with
  | committed command =>
    refine ⟨UserNodeIndex.consistent_update hindex command, iff_of_true ⟨?_, ?_⟩ trivial⟩
    · rintro nickname fromNode toNode ⟨⟩
    · rintro node ⟨⟩
  | membership change =>
    refine ⟨hindex, iff_of_true ⟨?_, ?_⟩ trivial⟩
    · rintro nickname fromNode toNode ⟨⟩
    · rintro node ⟨⟩
  | health e order =>
    refine ⟨hindex, ?_⟩
    obtain ⟨hself, hnodup, horder⟩ := he
    cases e with
    | nodeSuspected node | nodeUp node =>
      refine iff_of_true ⟨?_, ?_⟩ trivial
      · rintro nickname fromNode toNode ⟨⟩
      · rintro node ⟨⟩
    | nodeDown failedNode =>
      have honce : ∀ node ∈ some failedNode, ∀ user, r.index.home user = some node →
          (migrationProposals true selfId peerIds order (.nodeDown failedNode)).countP
            (ClusterCommand.moves user) = 1 := by
        rintro node ⟨⟩ user hhome
        refine countP_moves (Ne.symm hself) hnodup (List.mem_toFinset.mp ?_)
        rw [horder]
        exact hindex user _ hhome
      -- a node gets a user exactly if it comes early enough in the order
      have hmem : ∀ toNode, (∃ nickname fromNode, ClusterCommand.userMigrated nickname fromNode
          toNode ∈ migrationProposals true selfId peerIds order (.nodeDown failedNode)) ↔
          (toNode ∈ selfId :: peerIds ∧ toNode ≠ failedNode) ∧
            (surviving selfId peerIds failedNode).countP (· < toNode) < order.length := by
        intro toNode
        rw [← mem_surviving, ← RoundRobin.dealt_iff (pairwise_surviving selfId peerIds failedNode)]
        simp [migrationProposals]
      constructor
      · intro hproper node hnode hne hdead
        by_contra hlt
        obtain ⟨nickname, fromNode, hprop⟩ := (hmem node).mpr ⟨⟨hnode, hne⟩, by omega⟩
        obtain ⟨hmember, halive⟩ := hproper.alive nickname fromNode node hprop
        rcases hdead with hdead | hdead
        · exact hdead hmember
        · exact halive (Finset.mem_insert_of_mem hdead)
      · intro hspared
        refine ⟨?_, honce⟩
        intro nickname fromNode toNode hprop
        obtain ⟨⟨hnode, hne⟩, hlt⟩ := (hmem toNode).mp ⟨nickname, fromNode, hprop⟩
        constructor
        · by_contra hgone
          exact absurd (hspared toNode hnode hne (.inl hgone)) (by omega)
        · intro hdown
          rcases Finset.mem_insert.mp hdown with rfl | hdown
          · exact hne rfl
          · exact absurd (hspared toNode hnode hne (.inr hdown)) (by omega)

/-- **No user is sent to a dead node, and every user is sent once, exactly as long as** every
failure spares its users the nodes that left or died before. -/
theorem proper_iff_spared (selfId : NodeId) (peerIds : List NodeId) {events : List MigrationEvent}
    (h : System.Legal (system selfId peerIds) System.Free (initial selfId peerIds) events) :
    (∀ n, ((system selfId peerIds).exec (initial selfId peerIds) (events.take n)).Proper) ↔
      System.Legal (system selfId peerIds) (fun r e => r.Spared selfId peerIds e)
        (initial selfId peerIds) events := by
  refine System.forall_take_iff_of_step (I := fun r => r.index.Consistent)
    (fun r e he hindex => (proper_step he hindex).1)
    (fun r e he hindex _ => (proper_step he hindex).2) h ?_ ⟨?_, ?_⟩
  · intro key node hhome
    cases hhome
  · rintro nickname fromNode toNode ⟨⟩
  · rintro node ⟨⟩

end MigrationRun

/-! ## Three servers -/

section Examples

def registeredAt (id : ConnId) (nickname : String) (node : NodeId) : MigrationEvent :=
  .committed (.userRegistered id nickname.toList nickname.toList [] [] 0 (some node))

/-- A single failure: the users of server 3 are shared out between servers 1 and 2. -/
def singleFailure : List MigrationEvent :=
  [registeredAt 1 "alice" 3, registeredAt 2 "bob" 3,
    .health (.nodeSuspected 3) ["alice".toList, "bob".toList],
    .health (.nodeDown 3) ["alice".toList, "bob".toList]]

theorem proper_singleFailure :
    ((MigrationRun.system 1 [2, 3]).exec (MigrationRun.initial 1 [2, 3]) singleFailure).Proper := by
  have hall := (@MigrationRun.proper_iff_spared 1 [2, 3] singleFailure (by decide +kernel)).mpr
    (by decide +kernel) singleFailure.length
  rwa [List.take_length] at hall

/-- **The second failure sends a user to the node that failed first**: server 2 is down already when
server 3 goes down, and still gets one of its two users. -/
theorem migrated_to_dead_node :
    ¬ ∀ (selfId : NodeId) (peerIds : List NodeId) (events : List MigrationEvent),
      System.Legal (MigrationRun.system selfId peerIds) System.Free
        (.initial selfId peerIds) events →
      ((MigrationRun.system selfId peerIds).exec (.initial selfId peerIds) events).Proper := by
  intro h
  have hproper := h 1 [2, 3] (.health (.nodeDown 2) [] :: singleFailure) (by decide +kernel)
  exact absurd (hproper.alive "bob".toList 3 2 (by decide +kernel)).2 (by decide +kernel)

end Examples

end Pirc.Server
