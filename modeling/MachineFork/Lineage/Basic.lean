import MachineFork.Disk.Error
import MachineFork.Table

/-!
This module contains lineages: trees of machine states in which every node holds the sectors that
were written while it was a leaf. A node is forked into two children, which start out empty and see
what their ancestors hold; from then on it is frozen. Nodes are counted references, one for the node
itself and one for each child, and live in slots that are reused when they are freed.
-/

namespace MachineFork

abbrev Overlay := Table (DiskHandle × UInt64) Sector

structure Node where
  parent : Option NodeId
  depth : Nat
  overlay : Overlay := ∅
  refcount : Nat := 1
  frozen : Bool := false

structure Slot where
  generation : UInt32 := 0
  node : Option Node := none

structure Disk where
  name : String
  sectorCount : UInt64
  deriving DecidableEq, Repr

structure Stats where
  liveNodes : Nat := 0
  overlaySectors : Nat := 0
  overlayBytes : Nat := 0
  forks : Nat := 0
  releasedNodes : Nat := 0
  deriving DecidableEq, Repr

structure Lineage where
  slots : Array Slot := #[]
  /-- The vacant slots, the one to be used next in front. -/
  free : List Nat := []
  /-- By number; a detached disk leaves a gap. -/
  disks : Array (Option Disk) := #[]
  stats : Stats := {}

namespace Lineage

def empty : Lineage := {}

instance : Inhabited Lineage := ⟨empty⟩

/--
There are fewer slots, and at most as many disks, as there are numbers of 32 bits.
-/
def maxIndex : Nat := UInt32.size - 1

/-! Disks. -/

def disk? (l : Lineage) (disk : DiskHandle) : Option Disk :=
  l.disks[disk.number]?.join

def sectorCount (l : Lineage) (disk : DiskHandle) : Except DiskError UInt64 :=
  match l.disk? disk with
  | some found => .ok found.sectorCount
  | none => .error (.missingDisk disk)

def diskName? (l : Lineage) (disk : DiskHandle) : Option String :=
  (l.disk? disk).map (·.name)

def attach (l : Lineage) (name : String) (sectorCount : UInt64) :
    Except DiskError DiskHandle × Lineage :=
  if maxIndex < l.disks.size then
    (.error (.outOfMemory (l.disks.size + 1)), l)
  else
    (.ok ⟨l.disks.size⟩, { l with disks := l.disks.push (some { name, sectorCount }) })

/-! Nodes. -/

def node? (l : Lineage) (id : NodeId) : Option Node :=
  match l.slots[id.slot]? with
  | some slot => if slot.generation = id.generation then slot.node else none
  | none => none

def node (l : Lineage) (id : NodeId) : Except DiskError Node :=
  match l.node? id with
  | some node => .ok node
  | none => .error (.staleNode id)

def isLive (l : Lineage) (id : NodeId) : Bool :=
  (l.node? id).isSome

def parent (l : Lineage) (id : NodeId) : Except DiskError (Option NodeId) :=
  (l.node id).map (·.parent)

def depth (l : Lineage) (id : NodeId) : Except DiskError Nat :=
  (l.node id).map (·.depth)

def refcount (l : Lineage) (id : NodeId) : Except DiskError Nat :=
  (l.node id).map (·.refcount)

def isFrozen (l : Lineage) (id : NodeId) : Except DiskError Bool :=
  (l.node id).map (·.frozen)

def overlaySize (l : Lineage) (id : NodeId) : Except DiskError Nat :=
  (l.node id).map (·.overlay.size)

def setNode (l : Lineage) (id : NodeId) (node : Node) : Lineage :=
  { l with slots := l.slots.modify id.slot fun slot => { slot with node := some node } }

def requireRoom (l : Lineage) (count : Nat) : Except DiskError Unit :=
  let needed := l.slots.size + (count - l.free.length)
  if maxIndex < needed then .error (.outOfMemory needed) else .ok ()

def insertNode (l : Lineage) (node : Node) : NodeId × Lineage :=
  let stats := { l.stats with liveNodes := l.stats.liveNodes + 1 }
  match l.free with
  | slot :: free =>
    let generation := (l.slots.getD slot {}).generation
    let l := { l with free, stats }
    (⟨slot, generation⟩, l.setNode ⟨slot, generation⟩ node)
  | [] =>
    (⟨l.slots.size, 0⟩, { l with slots := l.slots.push { node := some node }, stats })

def addRoot (l : Lineage) : Except DiskError NodeId × Lineage :=
  match l.requireRoom 1 with
  | .error e => (.error e, l)
  | .ok () =>
    let (id, l) := l.insertNode { parent := none, depth := 0 }
    (.ok id, l)

def fork (l : Lineage) (id : NodeId) : Except DiskError (NodeId × NodeId) × Lineage :=
  match l.requireRoom 2 with
  | .error e => (.error e, l)
  | .ok () =>
    match l.node? id with
    | none => (.error (.staleNode id), l)
    | some node =>
      if maxIndex < node.refcount + 2 then
        (.error .tooManyReferences, l)
      else
        let child : Node := { parent := some id, depth := node.depth + 1 }
        let l := l.setNode id { node with refcount := node.refcount + 2, frozen := true }
        let (left, l) := l.insertNode child
        let (right, l) := l.insertNode child
        (.ok (left, right), { l with stats.forks := l.stats.forks + 1 })

end Lineage

end MachineFork
