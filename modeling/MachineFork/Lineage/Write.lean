import MachineFork.Lineage.Trail

/-!
This module contains the writing of sectors into a node's own overlay.
-/

namespace MachineFork

namespace Lineage

def store (l : Lineage) (id : NodeId) (node : Node) (key : DiskHandle × UInt64) (sector : Sector) :
    Lineage :=
  let fresh := !node.overlay.contains key
  let l := l.setNode id { node with overlay := node.overlay.insert key sector }
  if fresh then
    { l with stats := { l.stats with
      overlaySectors := l.stats.overlaySectors + 1
      overlayBytes := l.stats.overlayBytes + sectorSize } }
  else
    l

def write (l : Lineage) (id : NodeId) (disk : DiskHandle) (index : UInt64) (data : Bytes) :
    Except DiskError Unit × Lineage :=
  match l.requireSector disk index with
  | .error e => (.error e, l)
  | .ok () =>
    match Sector.ofBytes? data with
    | none => (.error (.unaligned data.length), l)
    | some sector =>
      match l.node? id with
      | none => (.error (.staleNode id), l)
      | some node =>
        if node.frozen then
          (.error (.frozenNode id), l)
        else
          (.ok (), l.store id node (disk, index) sector)

def writeEach (l : Lineage) (id : NodeId) (disk : DiskHandle) :
    (count : Nat) → (index : UInt64) → (data : Bytes) → Except DiskError Unit × Lineage
  | 0, _, _ => (.ok (), l)
  | count + 1, index, data =>
    match l.write id disk index (data.take sectorSize) with
    | (.error e, l) => (.error e, l)
    | (.ok (), l) => l.writeEach id disk count (index + 1) (data.drop sectorSize)

/--
Write a run of whole sectors from `first` on. The run as a whole is checked before any of it is
stored.
-/
def writeRun (l : Lineage) (id : NodeId) (disk : DiskHandle) (first : UInt64) (data : Bytes) :
    Except DiskError Unit × Lineage :=
  match l.requireRun disk first data.length with
  | .error e => (.error e, l)
  | .ok () =>
    match l.isFrozen id with
    | .error e => (.error e, l)
    | .ok true => (.error (.frozenNode id), l)
    | .ok false => l.writeEach id disk (data.length / sectorSize) first data

end Lineage

end MachineFork
