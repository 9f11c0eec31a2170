import MachineFork.Lineage.Basic

/-!
This module contains the operations that make a lineage smaller: the release of nodes and the
detachment of disks.
-/

namespace MachineFork

namespace Slot

def dropDisk (disk : DiskHandle) (slot : Slot) : Slot :=
  { slot with node := slot.node.map fun node =>
      { node with overlay := node.overlay.filterKeys (·.1 ≠ disk) } }

def heldSectors (slot : Slot) : Nat :=
  match slot.node with
  | some node => node.overlay.size
  | none => 0

end Slot

namespace Lineage

def heldSectors (l : Lineage) : Nat :=
  l.slots.foldr (·.heldSectors + ·) 0

def forgetSectors (stats : Stats) (count : Nat) : Stats :=
  { stats with
    overlaySectors := stats.overlaySectors - count
    overlayBytes := stats.overlayBytes - count * sectorSize }

def freeNode (l : Lineage) (id : NodeId) (node : Node) : Lineage :=
  let stats := forgetSectors l.stats node.overlay.size
  { l with
    slots := l.slots.modify id.slot fun slot =>
      { slot with generation := slot.generation + 1, node := none }
    free := id.slot :: l.free
    stats := { stats with
      liveNodes := stats.liveNodes - 1
      releasedNodes := stats.releasedNodes + 1 } }

/--
Drop a reference to the node `id?`, if there is one. A node without references is freed and drops
its own reference to its parent in turn. Every round but the last frees a node, so as many rounds as
there are slots, and one more, are enough.
-/
def releaseUp (l : Lineage) (id? : Option NodeId) : (rounds : Nat) → Except DiskError Unit × Lineage
  | 0 => (.ok (), l)
  | rounds + 1 =>
    match id? with
    | none => (.ok (), l)
    | some id =>
      match l.node? id with
      | none => (.error (.staleNode id), l)
      | some node =>
        let refcount := node.refcount - 1
        if 0 < refcount then
          (.ok (), l.setNode id { node with refcount })
        else
          (l.freeNode id node).releaseUp node.parent rounds

/--
Drop one reference to `id`. A release goes up the tree as far as nodes are left without references,
and never down: a node that is in use keeps all its ancestors.
-/
def release (l : Lineage) (id : NodeId) : Except DiskError Unit × Lineage :=
  l.releaseUp (some id) (l.slots.size + 1)

def detach (l : Lineage) (disk : DiskHandle) : Except DiskError Unit × Lineage :=
  match l.disk? disk with
  | none => (.error (.missingDisk disk), l)
  | some _ =>
    let kept := { l with
      disks := l.disks.setIfInBounds disk.number none
      slots := l.slots.map (Slot.dropDisk disk) }
    (.ok (), { kept with stats := forgetSectors l.stats (l.heldSectors - kept.heldSectors) })

end Lineage

end MachineFork
