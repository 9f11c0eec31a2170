import MachineFork.Engine.Basic
import MachineFork.Lineage.Read
import MachineFork.Lineage.Write

/-!
This module contains the sectors of a machine as its snapshots see them.
-/

namespace MachineFork

variable {ι : Type}

namespace Engine

def withNode (e : Engine ι) (id : SnapshotId)
    (write : Lineage → NodeId → Except DiskError Unit × Lineage) :
    Except EngineError Unit × Engine ι :=
  match e.snapshot? id with
  | none => (.error (.noSnapshot id), e)
  | some s =>
    if s.frozen then
      (.error (.frozen id), e)
    else
      let e := e.settle
      let (result, lineage) := write e.lineage s.node
      (result.mapError .disk, { e with lineage })

def write (e : Engine ι) (id : SnapshotId) (disk : DiskHandle) (index : UInt64)
    (data : Bytes) : Except EngineError Unit × Engine ι :=
  e.withNode id fun lineage node => lineage.write node disk index data

def writeRun (e : Engine ι) (id : SnapshotId) (disk : DiskHandle) (first : UInt64)
    (data : Bytes) : Except EngineError Unit × Engine ι :=
  e.withNode id fun lineage node => lineage.writeRun node disk first data

def fetchBase (e : Engine ι) (disk : DiskHandle) (index : UInt64) : Except DiskError Sector :=
  match e.images.find? disk with
  | none => .error (.missingDisk disk)
  | some image => image.fetch index

def baseFallback (e : Engine ι) : Fallback Unit := fun disk index buffer _ =>
  match e.fetchBase disk index with
  | .error error => (.error error, buffer, ())
  | .ok sector => (.ok (), sector, ())

/--
Read a sector into `buffer`. The fallback may use the engine, whose lineage stands still until the
read is over.
-/
def readInto {τ : Type} (e : Engine ι) (id : SnapshotId) (disk : DiskHandle)
    (index : UInt64) (buffer : Bytes) (fallback : Fallback (Engine ι × τ)) (state : τ) :
    Except EngineError Unit × Bytes × Engine ι × τ :=
  match e.snapshot? id with
  | none => (.error (.noSnapshot id), buffer, e, state)
  | some s =>
    let e := e.settle
    let reading := { e with readers := e.readers + 1 }
    let (result, buffer, e, state) :=
      e.lineage.read s.node disk index buffer fallback (reading, state)
    (result.mapError .disk, buffer, { e with readers := e.readers - 1 }, state)

def read {τ : Type} (e : Engine ι) (id : SnapshotId) (disk : DiskHandle) (index : UInt64)
    (fallback : Fallback (Engine ι × τ)) (state : τ) : Except EngineError Bytes × Engine ι × τ :=
  let (result, buffer, e, state) :=
    e.readInto id disk index Sector.zero.bytes fallback state
  (result.map fun () => buffer, e, state)

def readThrough (e : Engine ι) (id : SnapshotId) (disk : DiskHandle) (index : UInt64) :
    Except EngineError Bytes :=
  match e.snapshot? id with
  | none => .error (.noSnapshot id)
  | some s =>
    let e := e.settle
    let (result, buffer, ()) :=
      e.lineage.read s.node disk index Sector.zero.bytes e.baseFallback ()
    (result.map fun () => buffer).mapError .disk

def readRunThrough (e : Engine ι) (id : SnapshotId) (disk : DiskHandle) (first : UInt64)
    (buffer : Bytes) : Except EngineError Unit × Bytes :=
  match e.snapshot? id with
  | none => (.error (.noSnapshot id), buffer)
  | some s =>
    let e := e.settle
    let (result, buffer, ()) := e.lineage.readRun s.node disk first buffer e.baseFallback ()
    (result.mapError .disk, buffer)

def canTransfer (e : Engine ι) (id : SnapshotId) (disk : DiskHandle) : Except EngineError Bool :=
  match e.snapshot? id with
  | none => .error (.noSnapshot id)
  | some s => .ok (e.settle.lineage.canTransfer s.node disk)

end Engine

end MachineFork
