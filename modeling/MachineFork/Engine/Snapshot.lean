import MachineFork.Blob.Stream
import MachineFork.Engine.Error

/-!
This module contains snapshots, the saved states of single paths: a register blob and a node of the
lineage.
-/

namespace MachineFork

structure Snapshot where
  id : SnapshotId
  blob : Stream
  node : NodeId
  frozen : Bool := false
  restored : Bool := false
  lastSavedLength : Option Nat := none
  /-- Number of successful saves since the blob's length changed last. -/
  stableSaves : Nat := 0

inductive Phase where
  /-- Made by a fork and not restored yet. -/
  | created
  | active
  /-- Restored at some time, but not active now. -/
  | suspended
  | frozen
  deriving DecidableEq, Repr

instance : ToString Phase where
  toString
    | .created => "Created"
    | .active => "Active"
    | .suspended => "Suspended"
    | .frozen => "Frozen"

namespace Snapshot

def phase (s : Snapshot) (active : Option SnapshotId) : Phase :=
  if s.frozen then .frozen
  else if active = some s.id then .active
  else if s.restored then .suspended
  else .created

def maxStableSaves : Nat := UInt32.size - 1

/--
Take note of a successful save. When enough saves in a row have had the same length, capacity that
neither the blob nor the configuration asks for is given back.
-/
def noteSave (s : Snapshot) (config : Config) : Snapshot :=
  let length := s.blob.length
  let s :=
    if s.lastSavedLength = some length then
      { s with stableSaves := min (s.stableSaves + 1) maxStableSaves }
    else
      { s with lastSavedLength := some length, stableSaves := 0 }
  if config.shrinkAfter = 0 ∨ s.stableSaves < config.shrinkAfter then
    s
  else
    { s with blob := s.blob.shrink (max length config.preferredSize) }

end Snapshot

end MachineFork
