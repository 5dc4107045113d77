import Pirc.Server.InviteKeys

/-!
# Server: what a failed join leaves of an invite key

A request to join passes through several hands: the server asks what it last heard of its own role,
takes the key, and then sends the change of the membership to its Raft driver, which by then may
have lost the lead, have another change pending, or be gone. The key is consumed when it is
accepted, whatever comes after.
-/

namespace Pirc.Server

open Protocol
open Raft (NodeId RaftDriver)

/-- **What a request to join meets on its way**: whether the server is known to lead when it comes
in, the driver when the change of the membership gets there, if it still runs, and the topology as
text. -/
structure JoinCircumstances (M : Type) where
  leads : Bool
  driver : Option (RaftDriver ClusterCommand M)
  toJson : List (NodeId × SocketAddr) → Option Str

inductive JoinFailure
  | refused (e : JoinError)
  | protocol
  deriving DecidableEq

namespace ClusterNode

variable {M : Type}

/-- The part of a request that comes after its key: an id is assigned, the membership changed, the
server made known and the welcome written. -/
def acceptJoiner (node : ClusterNode M) (seen : JoinCircumstances M) (joinerAddr : SocketAddr) :
    Except JoinFailure JoinResult × ClusterNode M :=
  let newNodeId := node.nextNodeId
  let node := node.takeId
  match seen.driver with
  | none => (.error (.refused (.membershipFailed .notLeader)), node)
  | some driver =>
    match driver.handleMembershipProposal (.addServer newNodeId)
        (.serverAdded newNodeId joinerAddr) with
    | (.error e, driver) => (.error (.refused (.membershipFailed e)), { node with driver := driver })
    | (.ok _, driver) =>
      let sharedPeerMap :=
        node.sharedPeerMap.filter (·.1 ≠ newNodeId) ++ [(newNodeId, joinerAddr)]
      let node := { node with driver := driver, sharedPeerMap := sharedPeerMap }
      let topology := (node.selfId, node.selfAddr) :: sharedPeerMap
      match seen.toJson topology with
      | none => (.error .protocol, node)
      | some _ =>
        (.ok { assignedId := newNodeId, topology := topology },
          { node with served := node.served + 1 })

/-- A join request, in given circumstances. -/
def handleJoinRequestIn (node : ClusterNode M) (seen : JoinCircumstances M) (inviteKeyToken : Str)
    (joinerAddr : SocketAddr) (now : ℕ) : Except JoinFailure JoinResult × ClusterNode M :=
  if ¬ seen.leads then (.error (.refused .notLeader), node)
  else
    match node.inviteKeys.validate inviteKeyToken now with
    | .error e => (.error (.refused (.invalidKey e)), node)
    | .ok inviteKeys => { node with inviteKeys := inviteKeys }.acceptJoiner seen joinerAddr

variable {seen : JoinCircumstances M} {joinerAddr : SocketAddr}

theorem inviteKeys_acceptJoiner (node : ClusterNode M) (seen : JoinCircumstances M)
    (joinerAddr : SocketAddr) :
    (node.acceptJoiner seen joinerAddr).2.inviteKeys = node.inviteKeys := by
  unfold acceptJoiner
  dsimp only
  split
  · rfl
  · split
    · rfl
    · split
      · rfl
      · rfl

theorem acceptJoiner_error {node : ClusterNode M} {e : JoinFailure}
    (h : (node.acceptJoiner seen joinerAddr).1 = .error e) :
    e ≠ .refused .notLeader ∧ ∀ k, e ≠ .refused (.invalidKey k) := by
  unfold acceptJoiner at h
  dsimp only at h
  split at h
  · cases h
    exact ⟨nofun, nofun⟩
  · split at h
    · cases h
      exact ⟨nofun, nofun⟩
    · split at h
      · cases h
        exact ⟨nofun, nofun⟩
      · cases h

end ClusterNode

/-! ## What a failed join leaves -/

/-- The stores have the same records. -/
def SameKeys (store store' : InviteKeyStore) : Prop :=
  ∀ token, store'.keys.lookup token = store.keys.lookup token

/-- **The key is accepted**: it has this record, and is not revoked, expired or consumed. -/
def Accepted (store : InviteKeyStore) (token : Str) (now : ℕ) (record : InviteKeyRecord) : Prop :=
  store.keys.lookup token = some record ∧ record.revoked = false ∧ record.isExpired now = false ∧
    record.consumed = false

section Keys

variable {M : Type} {node node' : ClusterNode M} {seen : JoinCircumstances M} {token : Str}
  {joinerAddr : SocketAddr} {now : ℕ} {record : InviteKeyRecord} {e : JoinFailure}

theorem handleJoinRequestIn_of_accepted (hleads : seen.leads = true)
    (haccepted : Accepted node.inviteKeys token now record) :
    node.handleJoinRequestIn seen token joinerAddr now =
      { node with
        inviteKeys.keys := node.inviteKeys.keys.insert token
          { record with used := true } }.acceptJoiner seen joinerAddr := by
  obtain ⟨hlookup, hrevoked, hexpired, hconsumed⟩ := haccepted
  have hvalidate := InviteKeyStore.validate_eq_ok.mpr
    ⟨record, hlookup, hrevoked, hexpired, hconsumed, rfl⟩
  rw [ClusterNode.handleJoinRequestIn, hleads, if_neg (by simp), hvalidate]

theorem handleJoinRequestIn_of_not_accepted (joinerAddr : SocketAddr)
    (h : ¬ (seen.leads = true ∧ ∃ record, Accepted node.inviteKeys token now record)) :
    (node.handleJoinRequestIn seen token joinerAddr now).2 = node := by
  unfold ClusterNode.handleJoinRequestIn
  cases hleads : seen.leads with
  | false => rfl
  | true =>
    rw [if_neg (by simp)]
    cases hvalidate : node.inviteKeys.validate token now with
    | error e => rfl
    | ok store =>
      obtain ⟨record, hlookup, hrevoked, hexpired, hconsumed, -⟩ :=
        InviteKeyStore.validate_eq_ok.mp hvalidate
      exact absurd ⟨hleads, record, hlookup, hrevoked, hexpired, hconsumed⟩ h

theorem exists_validate_of_lookup {store : InviteKeyStore}
    (hlookup : store.keys.lookup token = some record) :
    (∃ store', store.validate token now = .ok store') ↔
      record.revoked = false ∧ record.isExpired now = false ∧ record.consumed = false := by
  constructor
  · rintro ⟨store', hvalidate⟩
    obtain ⟨record', hlookup', hrevoked, hexpired, hconsumed, -⟩ :=
      InviteKeyStore.validate_eq_ok.mp hvalidate
    obtain rfl := Option.some.inj (hlookup.symm.trans hlookup')
    exact ⟨hrevoked, hexpired, hconsumed⟩
  · rintro ⟨hrevoked, hexpired, hconsumed⟩
    exact ⟨_, InviteKeyStore.validate_eq_ok.mpr ⟨record, hlookup, hrevoked, hexpired, hconsumed, rfl⟩⟩

/-- **What a join that fails does to the keys**: a server that does not lead, or refuses the key,
leaves them as they were. A key that was accepted is marked as used, whatever fails later, and no
other is changed; so the keys are the same only if it was marked before. For another try the key is
still good unless it is expired by then or for a single use. -/
theorem inviteKeys_of_error
    (h : node.handleJoinRequestIn seen token joinerAddr now = (.error e, node')) :
    ((e = .refused .notLeader ∨ ∃ k, e = .refused (.invalidKey k)) →
        node'.inviteKeys = node.inviteKeys) ∧
      (∀ other, other ≠ token →
        node'.inviteKeys.keys.lookup other = node.inviteKeys.keys.lookup other) ∧
      (SameKeys node.inviteKeys node'.inviteKeys ↔
        ∀ record, seen.leads = true → Accepted node.inviteKeys token now record →
          record.used = true) ∧
      (∀ record, seen.leads = true → Accepted node.inviteKeys token now record → ∀ later,
        (∃ store, node'.inviteKeys.validate token later = .ok store) ↔
          record.isExpired later = false ∧ record.singleUse = false) := by
  by_cases hreached : seen.leads = true ∧ ∃ record, Accepted node.inviteKeys token now record
  · obtain ⟨hleads, record, haccepted⟩ := hreached
    rw [handleJoinRequestIn_of_accepted hleads haccepted] at h
    have hkeys := ClusterNode.inviteKeys_acceptJoiner
      { node with
        inviteKeys.keys := node.inviteKeys.keys.insert token { record with used := true } } seen joinerAddr
    rw [h] at hkeys
    have hself : node'.inviteKeys.keys.lookup token = some { record with used := true } := by
      rw [hkeys]
      exact AList.lookup_insert _
    have hother : ∀ other, other ≠ token →
        node'.inviteKeys.keys.lookup other = node.inviteKeys.keys.lookup other := by
      intro other hne
      rw [hkeys]
      exact AList.lookup_insert_ne hne
    have hunique : ∀ record', Accepted node.inviteKeys token now record' → record' = record :=
      fun record' h' => Option.some.inj (h'.1.symm.trans haccepted.1)
    refine ⟨?_, hother, ?_, ?_⟩
    · obtain ⟨hleader, hinvalid⟩ := ClusterNode.acceptJoiner_error (congrArg Prod.fst h)
      rintro (heq | ⟨k, heq⟩)
      · exact absurd heq hleader
      · exact absurd heq (hinvalid k)
    · constructor
      · intro hsame record' _ h'
        obtain rfl := hunique record' h'
        have heq := hsame token
        rw [hself, haccepted.1] at heq
        exact (congrArg InviteKeyRecord.used (Option.some.inj heq)).symm
      · intro hused other
        by_cases hne : other = token
        · subst hne
          rw [hself, haccepted.1, ← hused record hleads haccepted]
        · exact hother other hne
    · intro record' _ h' later
      obtain rfl := hunique record' h'
      rw [exists_validate_of_lookup hself]
      simp [InviteKeyRecord.isExpired, InviteKeyRecord.consumed, haccepted.2.1]
  · have hnode := handleJoinRequestIn_of_not_accepted joinerAddr hreached
    rw [h] at hnode
    subst hnode
    refine ⟨fun _ => rfl, fun other _ => rfl, ?_, ?_⟩
    · refine iff_of_true (fun other => rfl) fun record hleads haccepted => ?_
      exact absurd ⟨hleads, record, haccepted⟩ hreached
    · intro record hleads haccepted
      exact absurd ⟨hleads, record, haccepted⟩ hreached

end Keys

section Examples

def hostNode : ClusterNode Unit :=
  { ClusterNode.start (.newBootstrap 1 (port 1)) () with
    inviteKeys := InviteKeyStore.create {} "k".toList 100 true }

/-- The server was known to lead, but leads no more when the change of the membership arrives. -/
def lostLead : JoinCircumstances Unit where
  leads := true
  driver := some hostNode.driver
  toJson _ := some []

def joinedNode : ClusterNode Unit :=
  (hostNode.handleJoinRequestIn lostLead "k".toList (port 2) 0).2

theorem lostLead_fails :
    hostNode.handleJoinRequestIn lostLead "k".toList (port 2) 0 =
      (.error (.refused (.membershipFailed .notLeader)), joinedNode) :=
  Prod.ext rfl rfl

/-- The join fails, and the key is used up. -/
theorem lostLead_burns_key : ¬ ∀ (node node' : ClusterNode Unit) (seen : JoinCircumstances Unit)
    (token : Str) (joinerAddr : SocketAddr) (now : ℕ) (e : JoinFailure),
    node.handleJoinRequestIn seen token joinerAddr now = (.error e, node') →
      SameKeys node.inviteKeys node'.inviteKeys := by
  intro halways
  have hsame := congrArg (Option.map (·.used))
    (halways hostNode joinedNode lostLead "k".toList (port 2) 0 _ lostLead_fails "k".toList)
  have hused : (joinedNode.inviteKeys.keys.lookup "k".toList).map (·.used) = some true := by decide
  have hunused : (hostNode.inviteKeys.keys.lookup "k".toList).map (·.used) = some false := by decide
  exact absurd (hused.symm.trans (hsame.trans hunused)) (by decide)

/-- The key is not good for another try. -/
theorem lostLead_key_spent :
    ¬ ∃ store, joinedNode.inviteKeys.validate "k".toList 5 = .ok store := by
  have haccepted : Accepted hostNode.inviteKeys "k".toList 0 ⟨100, true, false, false⟩ :=
    ⟨by decide, rfl, by decide, rfl⟩
  have hlater := (inviteKeys_of_error lostLead_fails).2.2.2 _ rfl haccepted 5
  rw [hlater]
  exact nofun

end Examples

end Pirc.Server
