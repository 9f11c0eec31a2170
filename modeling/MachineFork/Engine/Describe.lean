import MachineFork.Engine.Basic

/-!
This module contains the descriptions of engines and snapshots for debugging: a type's name, and the
names and values of its fields in braces.
-/

namespace MachineFork

namespace Describe

def record (name : String) (fields : List (String × String)) : String :=
  let fields := fields.map fun (field, value) => s!"{field}: {value}"
  name ++ " \x7b " ++ ", ".intercalate fields ++ " \x7d"

def option (value? : Option String) : String :=
  match value? with
  | none => "None"
  | some value => s!"Some({value})"

end Describe

open Describe

def SnapshotId.describe (id : SnapshotId) : String := s!"SnapshotId({id.number})"

def Config.describe (config : Config) : String :=
  record "EngineConfig" [
    ("preferred_state_size", toString config.preferredSize),
    ("shrink_stable_saves", toString config.shrinkAfter),
    ("max_fork_depth", option (config.maxForkDepth.map toString))]

def Stats.describe (stats : Stats) : String :=
  record "LineageStats" [
    ("live_nodes", toString stats.liveNodes),
    ("overlay_sectors", toString stats.overlaySectors),
    ("overlay_bytes", toString stats.overlayBytes),
    ("forks", toString stats.forks),
    ("released_nodes", toString stats.releasedNodes)]

def NodeId.describe (id : NodeId) : String :=
  record "LineageId" [("index", toString id.slot), ("generation", toString id.generation)]

def Engine.describe {ι : Type} (e : Engine ι) : String :=
  record "DeviceStateEngine" [
    ("config", e.config.describe),
    ("devices", toString e.registry.size),
    ("active", option (e.active.map SnapshotId.describe)),
    ("lineage", e.stats.describe)]

def Snapshot.describe (s : Snapshot) (active : Option SnapshotId) : String :=
  record "DeviceStateSnapshot" [
    ("id", s.id.describe),
    ("state", toString (s.phase active)),
    ("node", s.node.describe),
    ("blob_len", toString s.blob.length)]

end MachineFork
