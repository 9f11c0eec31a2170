import MachineFork.Disk.Image
import MachineFork.Engine.Snapshot
import MachineFork.Lineage.Release
import MachineFork.Lineage.Trail
import MachineFork.Registry

/-!
This module contains engines: the snapshots of one machine, with the registry of its devices, the
lineage of its disks and their base images. At most one snapshot is active, the one whose state the
live devices hold.

While a sector is being read the lineage stands still. A snapshot that is destroyed in the meantime
leaves its node to be released when the lineage is used next.
-/

namespace MachineFork

structure Engine (ι : Type) where
  config : Config
  registry : Registry ι := {}
  lineage : Lineage := {}
  /-- Nodes of destroyed snapshots that are still to be released, the oldest in front. -/
  pending : List NodeId := []
  images : Table DiskHandle BaseImage := ∅
  active : Option SnapshotId := none
  nextId : Nat := 0
  rootCreated : Bool := false
  snapshots : Table SnapshotId Snapshot := ∅
  readers : Nat := 0

variable {ι : Type} {M : Machine ι}

namespace Engine

def new (config : Config) : Except EngineError (Engine ι) :=
  match config.validate with
  | .error e => .error (.invalidConfig e)
  | .ok () => .ok { config }

/-! The lineage. -/

def releaseAll (l : Lineage) (nodes : List NodeId) : Lineage :=
  nodes.foldl (fun l node => (l.release node).2) l

/--
Carry out the releases that have been put off, unless a read is still going on.
-/
def settle (e : Engine ι) : Engine ι :=
  if e.readers = 0 then
    { e with lineage := releaseAll e.lineage e.pending, pending := [] }
  else
    e

def stats (e : Engine ι) : Stats :=
  e.settle.lineage.stats

/-! Devices. -/

def startUp (e : Engine ι) (body : Registry ι → Except BlobError Unit × Registry ι) :
    Except EngineError Bool × Engine ι :=
  let (result, registry) := e.registry.startUp body
  (result.mapError .blob, { e with registry })

def register [DecidableEq ι] (e : Engine ι) (devices : Devices M) (id : DeviceId) (i : ι) :
    Except EngineError Unit × Engine ι :=
  let (result, registry) := e.registry.register devices id i
  (result.mapError .blob, { e with registry })

/-! Disks. -/

def attach (e : Engine ι) (name : String) (image : BaseImage) :
    Except EngineError DiskHandle × Engine ι :=
  let e := e.settle
  match e.lineage.attach name image.sectorCount with
  | (.error error, lineage) => (.error (.disk error), { e with lineage })
  | (.ok disk, lineage) =>
    (.ok disk, { e with lineage, images := e.images.insert disk image })

def detach (e : Engine ι) (disk : DiskHandle) : Except EngineError Unit × Engine ι :=
  let e := e.settle
  match e.lineage.detach disk with
  | (.error error, lineage) => (.error (.disk error), { e with lineage })
  | (.ok (), lineage) => (.ok (), { e with lineage, images := e.images.erase disk })

def sectorCount (e : Engine ι) (disk : DiskHandle) : Except EngineError UInt64 :=
  (e.settle.lineage.sectorCount disk).mapError .disk

/-! Snapshots. -/

def snapshot? (e : Engine ι) (id : SnapshotId) : Option Snapshot :=
  e.snapshots.find? id

def setSnapshot (e : Engine ι) (s : Snapshot) : Engine ι :=
  { e with snapshots := e.snapshots.insert s.id s }

def addSnapshot (e : Engine ι) (blob : Stream) (node : NodeId) : Snapshot × Engine ι :=
  let s : Snapshot := { id := ⟨e.nextId⟩, blob, node }
  (s, { e.setSnapshot s with nextId := e.nextId + 1 })

def deactivate (e : Engine ι) (id : SnapshotId) : Engine ι :=
  if e.active = some id then { e with active := none } else e

/--
Make the snapshot that everything starts from. The live devices hold its state from the start, so it
is active, though its blob is empty until the first save.
-/
def addRoot (e : Engine ι) : Except EngineError Snapshot × Engine ι :=
  if !e.registry.isInitialized then
    (.error .notInitialized, e)
  else if e.rootCreated then
    (.error .rootExists, e)
  else
    match Stream.withCapacity e.config.preferredSize with
    | .error error => (.error (.blob error), e)
    | .ok blob =>
      let e := e.settle
      match e.lineage.addRoot with
      | (.error error, lineage) => (.error (.disk error), { e with lineage })
      | (.ok node, lineage) =>
        let (s, e) := { e with lineage, rootCreated := true }.addSnapshot blob node
        (.ok s, { e with active := some s.id })

def destroy (e : Engine ι) (id : SnapshotId) : Except EngineError Unit × Engine ι :=
  match e.snapshot? id with
  | none => (.error (.noSnapshot id), e)
  | some s =>
    let e := { e.deactivate id with snapshots := e.snapshots.erase id }
    if e.readers = 0 then
      let e := e.settle
      (.ok (), { e with lineage := (e.lineage.release s.node).2 })
    else
      (.ok (), { e with pending := e.pending ++ [s.node] })

def depth (e : Engine ι) (id : SnapshotId) : Except EngineError Nat :=
  match e.snapshot? id with
  | none => .error (.noSnapshot id)
  | some s => (e.settle.lineage.depth s.node).mapError .disk

end Engine

end MachineFork
