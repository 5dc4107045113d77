import Mathlib.Tactic

/-!
# Raft: identifiers, log entries and configuration

The types of `raft/types.rs`. Node ids, terms and log indices are `u64` newtypes in the source and
natural numbers here. A node takes over any term it receives, and the source's `increment` of
`u64::MAX` panics in a debug build and wraps to 0 in a release build: the model is the code's as
long as no election starts in that term, which a result about arbitrary requests has to say. Log
indices count from 1, and 0 means no entries.
-/

namespace Pirc.Raft

abbrev NodeId := ℕ

inductive RaftState
  | follower
  | candidate
  | leader
  deriving DecidableEq

structure LogEntry (T : Type) where
  term : ℕ
  index : ℕ
  command : T
  deriving DecidableEq

/-- The part of the configuration the consensus logic reads; the timeouts are not modelled. -/
structure RaftConfig where
  nodeId : NodeId
  peers : List NodeId
  snapshotThreshold : ℕ := 1000
  snapshotChunkSize : ℕ := 65536
  deriving DecidableEq

end Pirc.Raft
