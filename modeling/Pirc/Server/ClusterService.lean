import Pirc.Raft.Cluster
import Pirc.Server.ClusterState

/-!
# Server: joining a cluster

`cluster/service.rs` and `cluster/state.rs`: a leader gives every joining server an id from a
counter of its own. The counter of a server starts at a value derived from its own id and is not
replicated. The JSON of the topology and of the persisted state is not modelled, nor is a restart.
-/

namespace Pirc.Server

open Protocol
open Raft (NodeId RaftDriver RaftNode RaftConfig MembershipError)

/-! ## Invite keys -/

inductive InviteKeyError
  | notFound
  | revoked
  | expired
  | alreadyUsed
  deriving DecidableEq

structure InviteKeyRecord where
  expiresAt : ℕ
  singleUse : Bool
  used : Bool := false
  revoked : Bool := false
  deriving DecidableEq

structure InviteKeyStore where
  keys : AList fun _ : Str => InviteKeyRecord := ∅
  deriving DecidableEq

namespace InviteKeyStore

def create (store : InviteKeyStore) (token : Str) (expiresAt : ℕ) (singleUse : Bool) :
    InviteKeyStore where
  keys := store.keys.insert token { expiresAt := expiresAt, singleUse := singleUse }

def validate (store : InviteKeyStore) (token : Str) (now : ℕ) :
    Except InviteKeyError InviteKeyStore :=
  match store.keys.lookup token with
  | none => .error .notFound
  | some record =>
    if record.revoked then .error .revoked
    else if record.expiresAt ≤ now then .error .expired
    else if record.singleUse && record.used then .error .alreadyUsed
    else .ok { keys := store.keys.insert token { record with used := true } }

end InviteKeyStore

/-! ## Servers of a cluster -/

/-- What a server keeps of the cluster across restarts; the counter is a `u64`. -/
structure PersistedClusterState where
  nodeId : NodeId
  selfAddr : SocketAddr
  peers : List (NodeId × SocketAddr)
  generation : ℕ
  nextNodeId : ℕ
  deriving DecidableEq

namespace PersistedClusterState

def newBootstrap (nodeId : NodeId) (selfAddr : SocketAddr) : PersistedClusterState where
  nodeId := nodeId
  selfAddr := selfAddr
  peers := []
  generation := 0
  nextNodeId := (nodeId + 1000) % 2 ^ 64

def newFromJoin (nodeId : NodeId) (selfAddr : SocketAddr) (peers : List (NodeId × SocketAddr)) :
    PersistedClusterState where
  nodeId := nodeId
  selfAddr := selfAddr
  peers := peers
  generation := 0
  nextNodeId := (nodeId + 1000) % 2 ^ 64

end PersistedClusterState

inductive JoinError
  | invalidKey (e : InviteKeyError)
  | notLeader
  | membershipFailed (e : MembershipError)
  deriving DecidableEq

structure JoinResult where
  assignedId : NodeId
  topology : List (NodeId × SocketAddr)
  deriving DecidableEq

/-- A server: its Raft driver and the cluster service beside it. `served` counts the requests to
join that it granted, for the proofs only. -/
structure ClusterNode (M : Type) where
  driver : RaftDriver ClusterCommand M
  inviteKeys : InviteKeyStore := {}
  sharedPeerMap : List (NodeId × SocketAddr)
  selfId : NodeId
  selfAddr : SocketAddr
  nextNodeId : ℕ
  served : ℕ := 0

namespace ClusterNode

variable {M : Type}

/-- A server with its persisted state and empty Raft storage; the service's counter starts where the
state says. -/
def start (state : PersistedClusterState) (stateMachine : M) : ClusterNode M where
  driver :=
    { node := .new { nodeId := state.nodeId, peers := state.peers.map Prod.fst } {}
      stateMachine := stateMachine }
  sharedPeerMap := state.peers
  selfId := state.nodeId
  selfAddr := state.selfAddr
  nextNodeId := state.nextNodeId

def welcomed (result : JoinResult) (selfAddr : SocketAddr) (stateMachine : M) : ClusterNode M :=
  .start (.newFromJoin result.assignedId selfAddr
    (result.topology.filter fun peer => peer.1 ≠ result.assignedId)) stateMachine

/-- The next id, which is used up whether the request is granted or not. -/
def takeId (node : ClusterNode M) : ClusterNode M :=
  { node with nextNodeId := (node.nextNodeId + 1) % 2 ^ 64 }

/-- A request to join: the key is checked, an id assigned, the membership changed and the server
made known. -/
def handleJoinRequest (node : ClusterNode M) (inviteKeyToken : Str) (joinerAddr : SocketAddr)
    (now : ℕ) : Except JoinError JoinResult × ClusterNode M :=
  if node.driver.node.state ≠ .leader then (.error .notLeader, node)
  else
    match node.inviteKeys.validate inviteKeyToken now with
    | .error e => (.error (.invalidKey e), node)
    | .ok inviteKeys =>
      let newNodeId := node.nextNodeId
      let node := { node with inviteKeys := inviteKeys }.takeId
      match node.driver.handleMembershipProposal (.addServer newNodeId)
          (.serverAdded newNodeId joinerAddr) with
      | (.error e, driver) => (.error (.membershipFailed e), { node with driver := driver })
      | (.ok _, driver) =>
        let sharedPeerMap :=
          node.sharedPeerMap.filter (·.1 ≠ newNodeId) ++ [(newNodeId, joinerAddr)]
        (.ok { assignedId := newNodeId, topology := (node.selfId, node.selfAddr) :: sharedPeerMap },
          { node with
            driver := driver, sharedPeerMap := sharedPeerMap, served := node.served + 1 })

theorem handleJoinRequest_ok {node node' : ClusterNode M} {token : Str} {addr : SocketAddr} {now : ℕ}
    {result : JoinResult} (h : node.handleJoinRequest token addr now = (.ok result, node')) :
    result.assignedId = node.nextNodeId ∧ node'.selfId = node.selfId ∧
      node'.nextNodeId = (node.nextNodeId + 1) % 2 ^ 64 ∧ node'.served = node.served + 1 := by
  unfold handleJoinRequest at h
  split at h
  · cases h
  · split at h
    · cases h
    · dsimp only at h
      split at h
      · cases h
      · obtain ⟨hresult, hnode⟩ := Prod.mk.inj h
        obtain rfl := Except.ok.inj hresult
        subst hnode
        exact ⟨rfl, rfl, rfl, rfl⟩

end ClusterNode

/-! ## Runs of a cluster -/

/-- The servers of a cluster: the one that bootstrapped it, then those that joined, in order. -/
structure JoinRun (M : Type) where
  nodes : List (ClusterNode M)

/-- What happens at the server in some place. -/
inductive JoinEvent
  | raft (i : ℕ) (e : Raft.Event ClusterCommand)
  | createKey (i : ℕ) (token : Str) (expiresAt : ℕ) (singleUse : Bool)
  | join (i : ℕ) (token : Str) (joinerAddr : SocketAddr) (now : ℕ)
  deriving DecidableEq

namespace JoinRun

variable {M : Type}

def At (r : JoinRun M) (i : ℕ) (p : ClusterNode M → Prop) : Prop := r.nodes[i]?.elim False p

instance decidableElim {α : Type} (p : α → Prop) [DecidablePred p] :
    ∀ a : Option α, Decidable (a.elim False p)
  | some a => inferInstanceAs (Decidable (p a))
  | none => inferInstanceAs (Decidable False)

instance (r : JoinRun M) (i : ℕ) (p : ClusterNode M → Prop) [DecidablePred p] :
    Decidable (r.At i p) :=
  decidableElim p r.nodes[i]?

/-- A message arrives only where it was sent to; nothing else of Raft is restrained. -/
def Arrives (r : JoinRun M) (node : ClusterNode M) : Raft.Event ClusterCommand → Prop
  | .deliver src dst msg => dst = node.selfId ∧
    ∃ sender ∈ r.nodes, sender.selfId = src ∧ (dst, msg) ∈ sender.driver.node.outbound
  | _ => True

instance (r : JoinRun M) (node : ClusterNode M) : DecidablePred (r.Arrives node)
  | .deliver _ _ _ => inferInstanceAs (Decidable (_ ∧ _))
  | .startElection _ | .clientRequest _ _ | .replicateToPeer _ _ | .advanceCommitIndex _
  | .applyCommitted _ | .createSnapshot _ => .isTrue trivial

def Granted (node : ClusterNode M) (token : Str) (joinerAddr : SocketAddr) (now : ℕ) : Prop :=
  (node.handleJoinRequest token joinerAddr now).1.isOk = true

instance (node : ClusterNode M) (token : Str) (joinerAddr : SocketAddr) (now : ℕ) :
    Decidable (Granted node token joinerAddr now) :=
  inferInstanceAs (Decidable (_ = true))

/-- The cluster after a request: the server that was welcomed comes last. -/
def join (r : JoinRun M) (stateMachine : M) (i : ℕ) (token : Str) (joinerAddr : SocketAddr)
    (now : ℕ) : JoinRun M :=
  match r.nodes[i]? with
  | none => r
  | some node =>
    match node.handleJoinRequest token joinerAddr now with
    | (.ok result, node) =>
      { nodes := r.nodes.set i node ++ [.welcomed result joinerAddr stateMachine] }
    | (.error _, node) => { nodes := r.nodes.set i node }

/-- A cluster whose servers join through whichever server leads. -/
def system [Raft.StateMachine ClusterCommand M] (stateMachine : M) :
    System (JoinRun M) JoinEvent where
  enabled r
    | .raft i e => r.At i fun node => r.Arrives node e
    | .createKey i _ _ _ => r.At i fun _ => True
    | .join i token joinerAddr now => r.At i fun node => Granted node token joinerAddr now
  step r
    | .raft i e =>
      { nodes := r.nodes.modify i fun node => { node with driver := e.act node.driver } }
    | .createKey i token expiresAt singleUse =>
      { nodes := r.nodes.modify i fun node =>
          { node with inviteKeys := node.inviteKeys.create token expiresAt singleUse } }
    | .join i token joinerAddr now => r.join stateMachine i token joinerAddr now

instance [Raft.StateMachine ClusterCommand M] (stateMachine : M) (r : JoinRun M) :
    ∀ e, Decidable ((system stateMachine).enabled r e)
  | .raft _ _ | .createKey _ _ _ _ | .join _ _ _ _ => inferInstanceAs (Decidable (r.At _ _))

def bootstrap (nodeId : NodeId) (selfAddr : SocketAddr) (stateMachine : M) : JoinRun M where
  nodes := [.start (.newBootstrap nodeId selfAddr) stateMachine]

def ids (r : JoinRun M) : List NodeId := r.nodes.map (·.selfId)

/-! ## Ranges of ids -/

/-- **What decides whether an id is fresh**: a server that granted `n` requests has handed out the
`n` ids from its own plus 1000 on. Where the leader is in its range, no other has been, and neither
is the id of the server that bootstrapped. -/
def Fresh (bootstrapId : NodeId) (r : JoinRun M) (leader : ClusterNode M) : Prop :=
  (leader.selfId + 1000 + leader.served) % 2 ^ 64 ≠ bootstrapId ∧
    ∀ node ∈ r.nodes, ∀ k < node.served,
      (leader.selfId + leader.served) % 2 ^ 64 ≠ (node.selfId + k) % 2 ^ 64

instance (bootstrapId : NodeId) (r : JoinRun M) : DecidablePred (r.Fresh bootstrapId) :=
  fun _ => inferInstanceAs (Decidable (_ ∧ _))

def FreshJoin (bootstrapId : NodeId) (r : JoinRun M) : JoinEvent → Prop
  | .join i _ _ _ => r.At i (r.Fresh bootstrapId)
  | _ => True

instance (bootstrapId : NodeId) (r : JoinRun M) : DecidablePred (r.FreshJoin bootstrapId)
  | .join _ _ _ _ => inferInstanceAs (Decidable (r.At _ _))
  | .raft _ _ | .createKey _ _ _ _ => .isTrue trivial

/-- The counters stand where the grants left them, and the ids of those who joined are the ranges
handed out. -/
structure Inv (bootstrapId : NodeId) (r : JoinRun M) : Prop where
  counter_eq : ∀ node ∈ r.nodes, node.nextNodeId = (node.selfId + 1000 + node.served) % 2 ^ 64
  head_eq : r.ids.head? = some bootstrapId
  mem_tail : ∀ id, id ∈ r.ids.tail ↔
    ∃ node ∈ r.nodes, ∃ k < node.served, id = (node.selfId + 1000 + k) % 2 ^ 64

variable {bootstrapId : NodeId} {r : JoinRun M}

theorem mem_ids (h : r.Inv bootstrapId) {id : NodeId} :
    id ∈ r.ids ↔ id = bootstrapId ∨
      ∃ node ∈ r.nodes, ∃ k < node.served, id = (node.selfId + 1000 + k) % 2 ^ 64 := by
  rw [← h.mem_tail, ← List.cons_head?_tail h.head_eq, List.mem_cons, List.tail_cons]

theorem seed_add_mod (a k b l : ℕ) :
    (a + 1000 + k) % 2 ^ 64 = (b + 1000 + l) % 2 ^ 64 ↔ (a + k) % 2 ^ 64 = (b + l) % 2 ^ 64 := by
  omega

theorem fresh_iff (h : r.Inv bootstrapId) {leader : ClusterNode M} (hmem : leader ∈ r.nodes) :
    r.Fresh bootstrapId leader ↔ leader.nextNodeId ∉ r.ids := by
  rw [mem_ids h, h.counter_eq leader hmem, not_or]
  refine and_congr Iff.rfl ?_
  simp only [seed_add_mod, not_exists, not_and]

theorem Inv.modify (h : r.Inv bootstrapId) (i : ℕ) {f : ClusterNode M → ClusterNode M}
    (hf : ∀ node, (f node).selfId = node.selfId ∧ (f node).nextNodeId = node.nextNodeId ∧
      (f node).served = node.served) :
    (⟨r.nodes.modify i f⟩ : JoinRun M).Inv bootstrapId ∧
      (⟨r.nodes.modify i f⟩ : JoinRun M).ids = r.ids := by
  have hmap : ∀ {β : Type} (g : ClusterNode M → β), (∀ node, g (f node) = g node) →
      ∀ (nodes : List (ClusterNode M)) (i : ℕ), (nodes.modify i f).map g = nodes.map g := by
    intro β g hg nodes
    induction nodes with
    | nil => intro i; cases i <;> rfl
    | cons node nodes ih =>
      intro i
      cases i with
      | zero => simp [hg]
      | succ i => simp [ih i]
  -- all that the invariant reads of a server
  have hprofiles := hmap (fun node => (node.selfId, node.nextNodeId, node.served))
    (fun node => by rw [(hf node).1, (hf node).2.1, (hf node).2.2]) r.nodes i
  have hids : (⟨r.nodes.modify i f⟩ : JoinRun M).ids = r.ids :=
    hmap (·.selfId) (fun node => (hf node).1) r.nodes i
  have hall : ∀ p : NodeId × ℕ × ℕ → Prop,
      (∃ node ∈ r.nodes.modify i f, p (node.selfId, node.nextNodeId, node.served)) ↔
        ∃ node ∈ r.nodes, p (node.selfId, node.nextNodeId, node.served) := by
    intro p
    have hmem := congrArg (fun l => ∃ x ∈ l, p x) hprofiles
    simpa using hmem
  refine ⟨⟨?_, ?_, ?_⟩, hids⟩
  · intro node hnode
    obtain ⟨node', hnode', heq⟩ := (hall fun x =>
      x = (node.selfId, node.nextNodeId, node.served)).mp ⟨node, hnode, rfl⟩
    obtain ⟨hid, hnext, hserved⟩ : _ ∧ _ ∧ _ := by simpa using heq
    rw [← hid, ← hnext, ← hserved]
    exact h.counter_eq node' hnode'
  · rw [hids]
    exact h.head_eq
  · intro id
    rw [hids, h.mem_tail]
    exact (hall fun x => ∃ k < x.2.2, id = (x.1 + 1000 + k) % 2 ^ 64).symm

theorem Inv.grant (h : r.Inv bootstrapId) {i : ℕ} {node node' added : ClusterNode M}
    (hnode : r.nodes[i]? = some node) (hid : node'.selfId = node.selfId)
    (hnext : node'.nextNodeId = (node.nextNodeId + 1) % 2 ^ 64)
    (hserved : node'.served = node.served + 1) (hadded : added.selfId = node.nextNodeId)
    (haddedNext : added.nextNodeId = (added.selfId + 1000) % 2 ^ 64) (hzero : added.served = 0) :
    (⟨r.nodes.set i node' ++ [added]⟩ : JoinRun M).Inv bootstrapId ∧
      (⟨r.nodes.set i node' ++ [added]⟩ : JoinRun M).ids = r.ids ++ [node.nextNodeId] := by
  have hmem : node ∈ r.nodes := List.mem_of_getElem? hnode
  have hcounter := h.counter_eq node hmem
  obtain ⟨hi, hget⟩ := List.getElem?_eq_some_iff.mp hnode
  have hids : (⟨r.nodes.set i node' ++ [added]⟩ : JoinRun M).ids = r.ids ++ [node.nextNodeId] := by
    have hset : (r.nodes.map (·.selfId)).set i node'.selfId = r.nodes.map (·.selfId) := by
      have hi' : i < (r.nodes.map (·.selfId)).length := by simpa using hi
      have hsame : node'.selfId = (r.nodes.map (·.selfId))[i] := by
        rw [List.getElem_map, hget, hid]
      rw [hsame, List.set_getElem_self hi']
    simp [ids, List.map_set, hset, hadded]
  have hne : r.ids ≠ [] := by
    intro hnil
    have hhead := h.head_eq
    rw [hnil] at hhead
    cases hhead
  refine ⟨⟨?_, ?_, ?_⟩, hids⟩
  · intro m hm
    rcases List.mem_append.mp hm with hm | hm
    · rcases List.mem_or_eq_of_mem_set hm with hm | rfl
      · exact h.counter_eq m hm
      · rw [hnext, hid, hserved, hcounter, Nat.mod_add_mod]
        rfl
    · obtain rfl := List.mem_singleton.mp hm
      rw [haddedNext, hzero]
  · rw [hids, List.head?_append_of_ne_nil _ hne]
    exact h.head_eq
  · intro id
    rw [hids, List.tail_append_of_ne_nil hne, List.mem_append, h.mem_tail, List.mem_singleton]
    constructor
    · rintro (⟨m, hm, k, hk, rfl⟩ | rfl)
      · by_cases hmi : r.nodes[i]? = some m
        · -- the leader kept the range that it had
          obtain rfl := Option.some.inj (hnode.symm.trans hmi)
          refine ⟨node', List.mem_append_left _ (List.mem_set hi _), k, by omega, ?_⟩
          rw [hid]
        · obtain ⟨j, hj, hjm⟩ := List.mem_iff_getElem.mp hm
          refine ⟨m, List.mem_append_left _ (List.mem_iff_getElem?.mpr ⟨j, ?_⟩), k, hk, rfl⟩
          have hij : i ≠ j := by
            rintro rfl
            exact hmi (List.getElem?_eq_some_iff.mpr ⟨hj, hjm⟩)
          rw [List.getElem?_set_ne hij]
          exact List.getElem?_eq_some_iff.mpr ⟨hj, hjm⟩
      · refine ⟨node', List.mem_append_left _ (List.mem_set hi _), node.served, by omega, ?_⟩
        rw [hid, hcounter]
    · rintro ⟨m, hm, k, hk, rfl⟩
      rcases List.mem_append.mp hm with hm | hm
      · rcases List.mem_or_eq_of_mem_set hm with hm | rfl
        · exact .inl ⟨m, hm, k, hk, rfl⟩
        · -- the last id of the leader's range is the new one
          rcases Nat.lt_succ_iff_lt_or_eq.mp (hserved ▸ hk) with hlt | rfl
          · exact .inl ⟨node, hmem, k, hlt, by rw [hid]⟩
          · exact .inr (by rw [hid, hcounter])
      · obtain rfl := List.mem_singleton.mp hm
        omega

theorem inv_bootstrap (nodeId : NodeId) (selfAddr : SocketAddr) (stateMachine : M) :
    (bootstrap nodeId selfAddr stateMachine).Inv nodeId where
  counter_eq := by
    intro node hnode
    obtain rfl := List.mem_singleton.mp hnode
    rfl
  head_eq := rfl
  mem_tail := by
    intro id
    simp [bootstrap, ids, ClusterNode.start]

section Runs

variable [Raft.StateMachine ClusterCommand M] {stateMachine : M}

/-- **Step lemma**: the invariant stays, and the ids stay distinct exactly if the join was fresh. -/
theorem step_inv (h : r.Inv bootstrapId) {e : JoinEvent} (he : (system stateMachine).enabled r e) :
    ((system stateMachine).step r e).Inv bootstrapId ∧
      (r.ids.Nodup → (((system stateMachine).step r e).ids.Nodup ↔ r.FreshJoin bootstrapId e)) := by
  cases e with
  | raft i e =>
    obtain ⟨hinv, hids⟩ := h.modify i (f := fun node => { node with driver := e.act node.driver })
      fun node => ⟨rfl, rfl, rfl⟩
    exact ⟨hinv, fun hnodup => iff_of_true (hids ▸ hnodup) trivial⟩
  | createKey i token expiresAt singleUse =>
    obtain ⟨hinv, hids⟩ := h.modify i
      (f := fun node => { node with inviteKeys := node.inviteKeys.create token expiresAt singleUse })
      fun node => ⟨rfl, rfl, rfl⟩
    exact ⟨hinv, fun hnodup => iff_of_true (hids ▸ hnodup) trivial⟩
  | join i token joinerAddr now =>
    simp only [system, At, FreshJoin] at he ⊢
    rcases hnode : r.nodes[i]? with - | node
    · rw [hnode] at he
      exact he.elim
    · rw [hnode] at he
      simp only [Option.elim] at he ⊢
      rcases hgrant : node.handleJoinRequest token joinerAddr now with ⟨result, node'⟩
      rw [Granted, hgrant] at he
      cases result with
      | error e => cases he
      | ok result =>
        obtain ⟨hassigned, hid, hnext, hserved⟩ := ClusterNode.handleJoinRequest_ok hgrant
        have hjoin : r.join stateMachine i token joinerAddr now =
            ⟨r.nodes.set i node' ++ [.welcomed result joinerAddr stateMachine]⟩ := by
          simp only [join, hnode, hgrant]
        obtain ⟨hinv, hids⟩ :=
          @Inv.grant _ _ _ h _ _ _ (.welcomed result joinerAddr stateMachine) hnode hid hnext
            hserved hassigned rfl rfl
        rw [hjoin]
        refine ⟨hinv, fun hnodup => ?_⟩
        rw [hids, fresh_iff h (List.mem_of_getElem? hnode), List.nodup_append_comm,
          List.singleton_append, List.nodup_cons]
        exact and_iff_left hnodup

/-- **The ids of a cluster are distinct exactly as long as every join is fresh**, whatever Raft
does: who leads, when, and how often it changes. -/
theorem nodup_iff_fresh (nodeId : NodeId) (selfAddr : SocketAddr) {events : List JoinEvent}
    (h : System.Legal (system stateMachine) System.Free (bootstrap nodeId selfAddr stateMachine)
      events) :
    (∀ n, ((system stateMachine).exec (bootstrap nodeId selfAddr stateMachine)
        (events.take n)).ids.Nodup) ↔
      System.Legal (system stateMachine) (fun r e => r.FreshJoin nodeId e)
        (bootstrap nodeId selfAddr stateMachine) events := by
  refine System.forall_take_iff_of_step (I := fun r => r.Inv nodeId) (P := fun r => r.ids.Nodup)
    (fun r e he hinv => (step_inv hinv he).1) (fun r e he hinv => (step_inv hinv he).2) h
    (inv_bootstrap nodeId selfAddr stateMachine) ?_
  simp [bootstrap, ids]

end Runs

end JoinRun

/-! ## Two leaders -/

section Examples

structure Forgetful where
  deriving DecidableEq

instance : Raft.StateMachine ClusterCommand Forgetful where
  apply sm _ := sm
  snapshot _ := []
  restore sm _ := (.ok (), sm)

def port (n : ℕ) : SocketAddr := ⟨"10.0.0.1".toList, n⟩

/-- A leader's `AppendEntries` arrives at the server in place `i`. -/
def appended (i : ℕ) (src dst : NodeId) (term prevIndex prevTerm commit : ℕ)
    (entries : List (Raft.LogEntry ClusterCommand)) : JoinEvent :=
  .raft i (.deliver src dst (.appendEntries ⟨term, src, prevIndex, prevTerm, entries, commit⟩))

def answered (i : ℕ) (src dst : NodeId) (term : ℕ) (success : Bool) (matchIndex : ℕ) : JoinEvent :=
  .raft i (.deliver src dst (.appendEntriesResponse ⟨term, success, matchIndex⟩))

def elected (i : ℕ) (candidate : NodeId) (term lastIndex lastTerm : ℕ) : List JoinEvent :=
  [.raft i (.startElection candidate),
    .raft 0 (.deliver candidate 1 (.requestVote ⟨term, candidate, lastIndex, lastTerm⟩)),
    .raft i (.deliver 1 candidate (.requestVoteResponse ⟨term, true⟩)),
    .raft i (.clientRequest candidate (.noop []))]

def noop (term index : ℕ) : Raft.LogEntry ClusterCommand := ⟨term, index, .noop []⟩

def added (term index : ℕ) (id : NodeId) (n : ℕ) : Raft.LogEntry ClusterCommand :=
  ⟨term, index, .serverAdded id (port n)⟩

/-- Server 1 bootstraps, leads, and lets 1001 and 1002 join, which catch up. -/
def firstJoins : List JoinEvent :=
  [.raft 0 (.startElection 1), .raft 0 (.clientRequest 1 (.noop [])),
    .raft 0 (.advanceCommitIndex 1), .createKey 0 ['k'] 100 false,
    .join 0 ['k'] (port 2) 0,
    appended 1 1 1001 1 2 1 1 [], answered 0 1001 1 1 false 0,
    .raft 0 (.replicateToPeer 1 1001),
    appended 1 1 1001 1 1 1 1 [added 1 2 1001 2], answered 0 1001 1 1 false 0,
    .raft 0 (.replicateToPeer 1 1001),
    appended 1 1 1001 1 0 0 1 [noop 1 1, added 1 2 1001 2], answered 0 1001 1 1 true 2,
    .join 0 ['k'] (port 3) 0,
    appended 2 1 1002 1 3 1 2 [], answered 0 1002 1 1 false 0,
    .raft 0 (.replicateToPeer 1 1002),
    appended 2 1 1002 1 2 1 2 [added 1 3 1002 3], answered 0 1002 1 1 false 0,
    .raft 0 (.replicateToPeer 1 1002),
    appended 2 1 1002 1 1 1 2 [added 1 2 1001 2, added 1 3 1002 3], answered 0 1002 1 1 false 0,
    .raft 0 (.replicateToPeer 1 1002),
    appended 2 1 1002 1 0 0 2 [noop 1 1, added 1 2 1001 2, added 1 3 1002 3],
    answered 0 1002 1 1 true 3]

def secondLeader : List JoinEvent :=
  elected 2 1002 2 3 1 ++
  [appended 0 1002 1 2 3 1 2 [noop 2 4], answered 2 1 1002 2 true 4, .createKey 2 ['k'] 100 false,
    .join 2 ['k'] (port 4) 0,
    appended 0 1002 1 2 4 2 4 [added 2 5 2002 4],
    appended 1 1002 1001 2 3 1 4 [noop 2 4, added 2 5 2002 4], answered 2 1001 1002 2 false 0,
    .raft 2 (.replicateToPeer 1002 1001),
    appended 1 1002 1001 2 2 1 4 [added 1 3 1002 3, noop 2 4, added 2 5 2002 4]]

/-- Server 1001 leads, which never learnt of 2002, and lets servers join as 2001 and 2002. -/
def thirdLeader : List JoinEvent :=
  elected 1 1001 3 5 2 ++
  [appended 0 1001 1 3 5 2 4 [noop 3 6], answered 1 1 1001 3 true 6, .createKey 1 ['k'] 100 false,
    .join 1 ['k'] (port 5) 0,
    appended 0 1001 1 3 6 3 6 [added 3 7 2001 5], answered 1 1 1001 3 true 7,
    .join 1 ['k'] (port 6) 0]

/-- While one server leads, the ids are distinct. -/
theorem nodup_firstJoins :
    ((JoinRun.system (M := Forgetful) {}).exec (.bootstrap 1 (port 1) {}) firstJoins).ids.Nodup := by
  have hall := (@JoinRun.nodup_iff_fresh Forgetful _ {} 1 (port 1) firstJoins (by decide +kernel)).mpr
    (by decide +kernel) firstJoins.length
  rwa [List.take_length] at hall

/-- **Two leaders hand out one id**: both 1001 and 1002 let a server join as 2002. -/
theorem ids_collide :
    ¬ ∀ (nodeId : NodeId) (selfAddr : SocketAddr) (events : List JoinEvent),
      System.Legal (JoinRun.system (M := Forgetful) {}) System.Free
        (.bootstrap nodeId selfAddr {}) events →
      ((JoinRun.system (M := Forgetful) {}).exec (.bootstrap nodeId selfAddr {}) events).ids.Nodup := by
  intro h
  have hnodup := h 1 (port 1) (firstJoins ++ secondLeader ++ thirdLeader) (by decide +kernel)
  exact absurd hnodup (by decide +kernel)

end Examples

end Pirc.Server
