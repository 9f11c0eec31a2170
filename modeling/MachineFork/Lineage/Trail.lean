import MachineFork.Lineage.Basic

/-!
This module contains the way from a node up to its root, and what a node sees along it: the nearest
node that holds a sector provides it.
-/

namespace MachineFork

inductive Trail where
  | root
  | broken (id : NodeId)
  | step (id : NodeId) (node : Node) (up : Trail)

namespace Trail

def lookup (key : DiskHandle × UInt64) : Trail → Except DiskError (Option (NodeId × Sector))
  | root => .ok none
  | broken id => .error (.staleNode id)
  | step id node up =>
    match node.overlay.find? key with
    | some sector => .ok (some (id, sector))
    | none => up.lookup key

def isClear (disk : DiskHandle) : Trail → Bool
  | root => true
  | broken _ => false
  | step _ node up => node.overlay.keys.all (·.1 ≠ disk) && up.isClear disk

def ids : Trail → List NodeId
  | root => []
  | broken _ => []
  | step id _ up => id :: up.ids

end Trail

namespace Lineage

def trailFrom (l : Lineage) : (rounds : Nat) → (id? : Option NodeId) → Trail
  | _, none => .root
  | 0, some id => .broken id
  | rounds + 1, some id =>
    match l.node? id with
    | none => .broken id
    | some node => .step id node (l.trailFrom rounds node.parent)

/--
The way up from `id`. No trail visits a slot twice, so there are enough rounds for all of it.
-/
def trail (l : Lineage) (id : NodeId) : Trail :=
  l.trailFrom (l.slots.size + 1) (some id)

def requireSector (l : Lineage) (disk : DiskHandle) (index : UInt64) : Except DiskError Unit :=
  match l.sectorCount disk with
  | .error e => .error e
  | .ok sectorCount =>
    if index < sectorCount then .ok () else .error (.outOfBounds disk index sectorCount)

/--
Refuse a run of `length` bytes from sector `first` on that is no whole number of sectors, or that
reaches behind the end of the disk. The last sector of a run that would leave the range of indices
counts as the greatest index.
-/
def requireRun (l : Lineage) (disk : DiskHandle) (first : UInt64) (length : Nat) :
    Except DiskError Unit :=
  if length % sectorSize ≠ 0 then
    .error (.unaligned length)
  else if length = 0 then
    (l.sectorCount disk).map fun _ => ()
  else
    let last := min (first.toNat + (length / sectorSize - 1)) (UInt64.size - 1)
    l.requireSector disk (.ofNat last)

def owner? (l : Lineage) (id : NodeId) (disk : DiskHandle) (index : UInt64) :
    Except DiskError (Option NodeId) :=
  match l.requireSector disk index with
  | .error e => .error e
  | .ok () => ((l.trail id).lookup (disk, index)).map fun found => found.map (·.1)

/--
Whether `id` sees the base image of `disk` and nothing else, so that sectors can be transferred
without looking at the lineage.
-/
def canTransfer (l : Lineage) (id : NodeId) (disk : DiskHandle) : Bool :=
  (l.disk? disk).isSome && (l.trail id).isClear disk

end Lineage

end MachineFork
