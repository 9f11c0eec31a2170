import MachineFork.Disk.Sector

/-!
This module contains the names of disks and of the nodes of a lineage, and the ways in which sector
storage can fail.
-/

namespace MachineFork

/--
An attached disk. Disks are numbered in the order in which they are attached and no number is used
twice.
-/
structure DiskHandle where
  number : Nat
  deriving DecidableEq, Repr

instance : ToString DiskHandle where
  toString disk := s!"disk{disk.number}"

/--
A node of a lineage. Slots are reused; the generation tells a slot's occupants apart.
-/
structure NodeId where
  slot : Nat
  generation : UInt32
  deriving DecidableEq, Repr

instance : ToString NodeId where
  toString id := s!"node{id.slot}.{id.generation}"

inductive DiskError where
  | missingDisk (disk : DiskHandle)
  | outOfBounds (disk : DiskHandle) (index sectorCount : UInt64)
  | unaligned (length : Nat)
  /-- A node that has been released, or never was. -/
  | staleNode (node : NodeId)
  /-- A node that has children, which is never written again. -/
  | frozenNode (node : NodeId)
  | tooManyReferences
  | outOfMemory (requested : Nat)
  | io (reason : String)
  deriving DecidableEq, Repr

namespace DiskError

def message : DiskError → String
  | missingDisk disk => s!"no disk attached as {disk}"
  | outOfBounds disk index sectorCount =>
    s!"sector {index} out of bounds for {disk} ({sectorCount} sectors)"
  | unaligned length =>
    s!"unaligned buffer length {length} (expected multiple of {sectorSize})"
  | staleNode node => s!"lineage node {node} has been released"
  | frozenNode node => s!"lineage node {node} has children and is read-only"
  | tooManyReferences => "lineage reference count overflow"
  | outOfMemory requested => s!"out of memory allocating {requested} bytes"
  | io reason => s!"io error: {reason}"

/--
Whether a machine can go on after the error, for instance by reporting bad media to the guest.
-/
def isRecoverable : DiskError → Bool
  | missingDisk .. | outOfBounds .. | unaligned .. | io .. => true
  | staleNode .. | frozenNode .. | tooManyReferences | outOfMemory .. => false

def beyondImage (index sectorCount : UInt64) : DiskError :=
  io s!"sector {index} beyond end of image ({sectorCount} sectors)"

end DiskError

end MachineFork
