import Pirc.Crypto.GroupKey

/-!
# P2P: the mesh of a group

`group_mesh.rs`: the connections to the members of a group. A member is tracked from when it is
added until it is removed; what is reported about the connection of anybody else is ignored.
-/

namespace Pirc.P2p

open Protocol

inductive PeerConnectionState
  | connecting
  | connected
  | relayFallback
  | disconnected
  deriving DecidableEq

inductive GroupMeshEvent
  | memberConnected (member : Str)
  | memberDisconnected (member : Str)
  | memberDegraded (member : Str) (reason : Str)
  | meshReady
  | meshDegraded
  deriving DecidableEq

structure MemberTransport (τ : Type) where
  transport : τ
  state : PeerConnectionState

/-- The mesh, for transports of type `τ`. A member is tracked without a transport, or has one. -/
structure GroupMesh (τ : Type) where
  members : Crypto.NickMap (MemberTransport τ) := ∅
  trackedMembers : Crypto.NickMap PeerConnectionState := ∅
  events : List GroupMeshEvent := []

namespace GroupMesh

variable {τ : Type} (mesh : GroupMesh τ) (member : Str)

/-! ## Queries -/

/-- The state of a member. -/
def memberState : Option PeerConnectionState :=
  match mesh.members.lookup member with
  | some entry => some entry.state
  | none => mesh.trackedMembers.lookup member

/-- How to reach a member that is connected. -/
def getTransport : Option τ :=
  (mesh.members.lookup member).bind fun entry =>
    if entry.state = .connected then some entry.transport else none

def memberCount : ℕ := mesh.members.keys.length + mesh.trackedMembers.keys.length

def isFullyConnected : Bool :=
  mesh.trackedMembers.entries.isEmpty &&
    mesh.members.entries.all fun entry => entry.2.state = .connected

def isDegraded : Bool := mesh.trackedMembers.entries.any fun entry => entry.2 = .relayFallback

/-! ## Operations -/

def emit (event : GroupMeshEvent) : GroupMesh τ := { mesh with events := mesh.events ++ [event] }

def checkMeshState : GroupMesh τ :=
  if mesh.memberCount = 0 then mesh
  else if mesh.isFullyConnected then mesh.emit .meshReady
  else if mesh.isDegraded then mesh.emit .meshDegraded
  else mesh

def addMember : GroupMesh τ :=
  if member ∈ mesh.members ∨ member ∈ mesh.trackedMembers then mesh
  else { mesh with trackedMembers := mesh.trackedMembers.insert member .connecting }

def removeMember : GroupMesh τ :=
  let wasConnected := (mesh.members.lookup member).any fun entry => entry.state = .connected
  let mesh := { mesh with
    members := mesh.members.erase member
    trackedMembers := mesh.trackedMembers.erase member }
  if wasConnected then (mesh.emit (.memberDisconnected member)).checkMeshState else mesh

def memberConnected (transport : τ) : GroupMesh τ :=
  if member ∈ mesh.members ∨ member ∈ mesh.trackedMembers then
    ({ mesh with
      members := mesh.members.insert member ⟨transport, .connected⟩
      trackedMembers := mesh.trackedMembers.erase member }.emit
        (.memberConnected member)).checkMeshState
  else mesh

def memberDegraded (reason : Str) : GroupMesh τ :=
  if member ∈ mesh.members ∨ member ∈ mesh.trackedMembers then
    ({ mesh with
      members := mesh.members.erase member
      trackedMembers := mesh.trackedMembers.insert member .relayFallback }.emit
        (.memberDegraded member reason)).checkMeshState
  else mesh

def memberDisconnected : GroupMesh τ :=
  if member ∈ mesh.members ∨ member ∈ mesh.trackedMembers then
    let wasConnected := decide (member ∈ mesh.members)
    let mesh := { mesh with
      members := mesh.members.erase member
      trackedMembers := mesh.trackedMembers.insert member .disconnected }
    if wasConnected then (mesh.emit (.memberDisconnected member)).checkMeshState else mesh
  else mesh

end GroupMesh

end Pirc.P2p
