import MachineFork.Lineage.Trail

/-!
This module contains the reading of sectors as a node sees them. What no node on the trail holds
comes from a fallback, in general the base image.
-/

namespace MachineFork

/--
Where sectors come from that nobody has written. A fallback is given the buffer to fill and a state
of its own, and may change both even if it fails.
-/
abbrev Fallback (τ : Type) :=
  DiskHandle → UInt64 → Sector → τ → Except DiskError Unit × Sector × τ

namespace Lineage

variable {τ : Type}

def read (l : Lineage) (id : NodeId) (disk : DiskHandle) (index : UInt64) (buffer : Bytes)
    (fallback : Fallback τ) (state : τ) : Except DiskError Unit × Bytes × τ :=
  match l.requireSector disk index with
  | .error e => (.error e, buffer, state)
  | .ok () =>
    match Sector.ofBytes? buffer with
    | none => (.error (.unaligned buffer.length), buffer, state)
    | some old =>
      match (l.trail id).lookup (disk, index) with
      | .error e => (.error e, buffer, state)
      | .ok (some (_, sector)) => (.ok (), sector.bytes, state)
      | .ok none =>
        let (result, sector, state) := fallback disk index old state
        (result, sector.bytes, state)

def readEach (l : Lineage) (id : NodeId) (disk : DiskHandle) (fallback : Fallback τ) :
    (count : Nat) → (index : UInt64) → (buffer : Bytes) → (state : τ) →
      Except DiskError Unit × Bytes × τ
  | 0, _, buffer, state => (.ok (), buffer, state)
  | count + 1, index, buffer, state =>
    let rest := buffer.drop sectorSize
    match l.read id disk index (buffer.take sectorSize) fallback state with
    | (.error e, sector, state) => (.error e, sector ++ rest, state)
    | (.ok (), sector, state) =>
      let (result, rest, state) := l.readEach id disk fallback count (index + 1) rest state
      (result, sector ++ rest, state)

def readRun (l : Lineage) (id : NodeId) (disk : DiskHandle) (first : UInt64) (buffer : Bytes)
    (fallback : Fallback τ) (state : τ) : Except DiskError Unit × Bytes × τ :=
  match l.requireRun disk first buffer.length with
  | .error e => (.error e, buffer, state)
  | .ok () => l.readEach id disk fallback (buffer.length / sectorSize) first buffer state

end Lineage

end MachineFork
