import Pirc.Raft.State

/-!
# Raft: health of peers

`raft/health.rs`: a monitor keeps a status for each peer it tracks, from the time since the peer
last answered, and tells of every change.

## Main results

* `NodeHealthMonitor.tracks_recordResponse`, `NodeHealthMonitor.tracks_evaluate`: whoever is tracked
  stays so
-/

namespace Pirc.Raft

inductive PeerStatus
  | online
  | suspected
  | down
  deriving DecidableEq

/-- A change of a peer's status. -/
inductive HealthEvent
  | nodeSuspected (node : NodeId)
  | nodeDown (node : NodeId)
  | nodeUp (node : NodeId)
  deriving DecidableEq

def HealthEvent.node : HealthEvent → NodeId
  | nodeSuspected node | nodeDown node | nodeUp node => node

/-- How long a peer may be silent. -/
structure HealthConfig where
  suspectThreshold : ℕ
  failureThreshold : ℕ
  deriving DecidableEq

def HealthConfig.fromHeartbeatInterval (heartbeat : ℕ) : HealthConfig where
  suspectThreshold := heartbeat * 3
  failureThreshold := heartbeat * 6

structure PeerState where
  status : PeerStatus
  lastSeen : ℕ
  deriving DecidableEq

/-- The monitor; `eventTx` is everything it ever told. -/
structure NodeHealthMonitor where
  config : HealthConfig
  peers : NodeMap PeerState
  eventTx : List HealthEvent := []
  dirty : Bool := false
  deriving DecidableEq

namespace NodeHealthMonitor

def new (peerIds : List NodeId) (config : HealthConfig) (now : ℕ) : NodeHealthMonitor where
  config := config
  peers := peerIds.foldl (fun m peer => m.insert peer { status := .online, lastSeen := now }) ∅

def recordResponse (monitor : NodeHealthMonitor) (peerId : NodeId) (now : ℕ) : NodeHealthMonitor :=
  match monitor.peers.lookup peerId with
  | none => monitor
  | some peer =>
    let peers := monitor.peers.insert peerId { status := .online, lastSeen := now }
    if peer.status ≠ .online then
      { monitor with
        peers := peers, dirty := true, eventTx := monitor.eventTx ++ [.nodeUp peerId] }
    else { monitor with peers := peers }

def statusAfter (config : HealthConfig) (elapsed : ℕ) : PeerStatus :=
  if config.failureThreshold ≤ elapsed then .down
  else if config.suspectThreshold ≤ elapsed then .suspected
  else .online

def eventFor (status : PeerStatus) (peerId : NodeId) : HealthEvent :=
  match status with
  | .down => .nodeDown peerId
  | .suspected => .nodeSuspected peerId
  | .online => .nodeUp peerId

def evaluatePeer (now : ℕ) (monitor : NodeHealthMonitor) (peerId : NodeId) : NodeHealthMonitor :=
  match monitor.peers.lookup peerId with
  | none => monitor
  | some peer =>
    let status := statusAfter monitor.config (now - peer.lastSeen)
    if status ≠ peer.status then
      { monitor with
        peers := monitor.peers.insert peerId { peer with status := status }
        dirty := true
        eventTx := monitor.eventTx ++ [eventFor status peerId] }
    else monitor

/-- Look at all peers; the source takes them in any order. -/
def evaluate (monitor : NodeHealthMonitor) (now : ℕ) : NodeHealthMonitor :=
  monitor.peers.keys.foldl (evaluatePeer now) monitor

def clearDirty (monitor : NodeHealthMonitor) : NodeHealthMonitor := { monitor with dirty := false }

def Tracks (monitor : NodeHealthMonitor) (peerId : NodeId) : Prop := peerId ∈ monitor.peers

variable {monitor : NodeHealthMonitor} {p : NodeId}

theorem tracks_new (peerIds : List NodeId) (config : HealthConfig) (now : ℕ) :
    (new peerIds config now).Tracks p ↔ p ∈ peerIds := by
  have hall : ∀ (peerIds : List NodeId) (m : NodeMap PeerState),
      p ∈ peerIds.foldl (fun m peer => m.insert peer { status := .online, lastSeen := now }) m ↔
        p ∈ peerIds ∨ p ∈ m := by
    intro peerIds
    induction peerIds with
    | nil => intro m; simp
    | cons peer peerIds ih =>
      intro m
      rw [List.foldl_cons, ih, AList.mem_insert, List.mem_cons]
      tauto
  have hempty : p ∉ (∅ : NodeMap PeerState) := AList.notMem_empty p
  exact (hall peerIds ∅).trans (or_iff_left hempty)

theorem mem_insert_of_lookup {m : NodeMap PeerState} {peerId : NodeId} {peer state : PeerState}
    (h : m.lookup peerId = some peer) : p ∈ m.insert peerId state ↔ p ∈ m := by
  have hmem : peerId ∈ m := AList.lookup_isSome.mp (by rw [h]; rfl)
  rw [AList.mem_insert]
  constructor
  · rintro (rfl | hp)
    · exact hmem
    · exact hp
  · exact .inr

@[simp] theorem tracks_recordResponse (peerId : NodeId) (now : ℕ) :
    (monitor.recordResponse peerId now).Tracks p ↔ monitor.Tracks p := by
  unfold recordResponse Tracks
  cases hpeer : monitor.peers.lookup peerId with
  | none => rfl
  | some peer =>
    dsimp only
    split_ifs
    · exact mem_insert_of_lookup hpeer
    · exact mem_insert_of_lookup hpeer

theorem tracks_evaluatePeer (now : ℕ) (peerId : NodeId) :
    (evaluatePeer now monitor peerId).Tracks p ↔ monitor.Tracks p := by
  unfold evaluatePeer Tracks
  cases hpeer : monitor.peers.lookup peerId with
  | none => rfl
  | some peer =>
    dsimp only
    split_ifs
    · exact mem_insert_of_lookup hpeer
    · rfl

@[simp] theorem tracks_evaluate (now : ℕ) :
    (monitor.evaluate now).Tracks p ↔ monitor.Tracks p := by
  have hall : ∀ (peerIds : List NodeId) (m : NodeHealthMonitor),
      (peerIds.foldl (evaluatePeer now) m).Tracks p ↔ m.Tracks p := by
    intro peerIds
    induction peerIds with
    | nil => intro m; rfl
    | cons peer peerIds ih =>
      intro m
      rw [List.foldl_cons, ih, tracks_evaluatePeer]
  exact hall _ monitor

@[simp] theorem tracks_clearDirty : monitor.clearDirty.Tracks p ↔ monitor.Tracks p := Iff.rfl

end NodeHealthMonitor

end Pirc.Raft
