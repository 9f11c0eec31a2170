import MachineFork.Blob.Error
import MachineFork.Disk.Error
import MachineFork.Engine.Config

/-!
This module contains the identities of snapshots and the ways in which an engine can fail.
-/

namespace MachineFork

/--
A snapshot of an engine. Snapshots are numbered as they are made and no number is used twice.
-/
structure SnapshotId where
  number : Nat
  deriving DecidableEq, Repr

instance : ToString SnapshotId where
  toString id := s!"S{id.number}"

inductive EngineError where
  | blob (error : BlobError)
  | disk (error : DiskError)
  | noSnapshot (id : SnapshotId)
  /-- The live devices hold the state of another snapshot, or of none. -/
  | notActive (id : SnapshotId)
  | frozen (id : SnapshotId)
  | rootExists
  | notInitialized
  | depthLimit (depth limit : Nat)
  | invalidConfig (error : ConfigError)
  deriving DecidableEq, Repr

namespace EngineError

def message : EngineError → String
  | blob error => error.message
  | disk error => error.message
  | noSnapshot id => s!"no snapshot {id}"
  | notActive id => s!"snapshot {id} does not mirror live device state"
  | frozen id => s!"snapshot {id} has been forked and is read-only"
  | rootExists => "root snapshot already created"
  | notInitialized => "device registry has not been initialized"
  | depthLimit depth limit => s!"fork depth {depth} exceeds the configured limit of {limit}"
  | invalidConfig error => s!"invalid configuration: {error.message}"

/--
Whether the whole engine must stop. Damaged blobs and exhausted memory threaten what all snapshots
share; failing media and the misuse of one snapshot do not.
-/
def isFatal : EngineError → Bool
  | blob error => error.isFatal
  | disk error => !error.isRecoverable
  | noSnapshot .. | notActive .. | frozen .. | rootExists | notInitialized | depthLimit .. => false
  | invalidConfig .. => true

end EngineError

end MachineFork
