import MachineFork.Bench.Board
import MachineFork.Bench.Report
import MachineFork.Bench.Rolls
import MachineFork.Engine.Path
import MachineFork.Engine.Sectors

/-!
This module contains the steps of a benchmark: a tree of paths grows by restoring one of them,
letting it run for a while, saving it and forking it; now and then a path is given up.
-/

namespace MachineFork.Bench

structure Session where
  engine : Engine Part
  devices : Devices board
  disk : DiskHandle
  /-- The snapshots that have not been forked. -/
  paths : List SnapshotId
  rolls : Rolls
  sectorCount : UInt64
  restores : Nat := 0
  forks : Nat := 0
  depthLimited : Nat := 0

namespace Failure

def ofEngine (error : EngineError) : Failure := ⟨error.message, []⟩

end Failure

def registerParts (registry : Registry Part) : Except BlobError Unit × Registry Part :=
  match registry.register powerOn Part.pic.id .pic with
  | (.error e, registry) => (.error e, registry)
  | (.ok (), registry) => registry.register powerOn Part.uart.id .uart

def swapRemove {α : Type} (list : List α) (place : Nat) : List α :=
  match list.getLast? with
  | none => []
  | some last => (list.set place last).dropLast

namespace Session

def start (engine : Engine Part) (image : BaseImage) (rolls : Rolls) : Except Failure Session := do
  if image.sectorCount = 0 then
    throw ⟨"base disk has no sectors", []⟩
  let (result, engine) := engine.attach "hda" image
  let disk ← result.mapError .ofEngine
  let (result, engine) := engine.addRoot
  let root ← result.mapError .ofEngine
  let (result, engine) := engine.save powerOn root.id
  result.mapError .ofEngine
  return { engine, disk, rolls
           devices := powerOn
           paths := [root.id]
           sectorCount := image.sectorCount }

def choose (s : Session) : Nat × Session :=
  let (place, rolls) := s.rolls.below s.paths.length
  (place, { s with rolls })

def path (s : Session) (place : Nat) : SnapshotId :=
  s.paths.getD place ⟨0⟩

def restore (s : Session) (place : Nat) : Except Failure Session :=
  match s.engine.restore s.devices (s.path place) with
  | (.error e, _) => .error (.ofEngine e)
  | (.ok (), engine, devices) => .ok { s with engine, devices, restores := s.restores + 1 }

def emulate (s : Session) : Session :=
  let (line, rolls) := s.rolls.below 8
  let (mask, rolls) := rolls.byte
  let (byte, rolls) := rolls.byte
  let pic : Pic := s.devices.state .pic
  let uart : Uart := s.devices.state .uart
  let devices := s.devices.set .pic (pic.emulate line mask)
  let devices := devices.set .uart (uart.emulate byte)
  { s with rolls, devices }

def write (s : Session) (place : Nat) : (count : Nat) → Except Failure Session
  | 0 => .ok s
  | count + 1 =>
    let (index, rolls) := s.rolls.below s.sectorCount.toNat
    let (byte, rolls) := rolls.byte
    let data := byte :: List.replicate (sectorSize - 1) 0
    match s.engine.write (s.path place) s.disk (.ofNat index) data with
    | (.error e, _) => .error (.ofEngine e)
    | (.ok (), engine) => { s with rolls, engine }.write place count

def save (s : Session) (place : Nat) : Except Failure Session :=
  match s.engine.save s.devices (s.path place) with
  | (.error e, _) => .error (.ofEngine e)
  | (.ok (), engine) => .ok { s with engine }

def exercise (s : Session) (place writes : Nat) : Except Failure Session := do
  let s ← s.emulate.write place writes
  s.save place

def drop (s : Session) (place : Nat) : Session :=
  let (_, engine) := s.engine.destroy (s.path place)
  { s with engine, paths := swapRemove s.paths place }

/--
Fork a path and go on with its children in its place. The result tells whether the depth limit
allowed that.
-/
def fork (s : Session) (place : Nat) : Except Failure (Bool × Session) :=
  match s.engine.fork (s.path place) with
  | (.ok (left, right), engine) =>
    let s := { s with engine, forks := s.forks + 1 }.drop place
    .ok (true, { s with paths := s.paths ++ [left.id, right.id] })
  | (.error (.depthLimit ..), engine) =>
    .ok (false, { s with engine, depthLimited := s.depthLimited + 1 })
  | (.error e, _) => .error (.ofEngine e)

/--
Give up one path in every fourth case, so that the tree has dead branches to release. Two paths are
always kept.
-/
def retire (s : Session) : Session :=
  if s.paths.length ≤ 2 then
    s
  else
    let (chance, rolls) := s.rolls.below 4
    if chance ≠ 0 then
      { s with rolls }
    else
      let (place, rolls) := rolls.below s.paths.length
      { s with rolls }.drop place

def destroyAll (s : Session) : Engine Part :=
  s.paths.foldl (fun engine id => (engine.destroy id).2) s.engine

def report (s : Session) (seed forkTime restoreTime : Nat) : Except Failure Report := do
  let depths ← s.paths.mapM fun id => (s.engine.depth id).mapError .ofEngine
  let blobs := s.paths.filterMap fun id => (s.engine.snapshot? id).map (·.blob.length)
  let stats := s.engine.stats
  return {
    seed
    diskSectors := s.sectorCount.toNat
    forks := s.forks
    depthLimitedForks := s.depthLimited
    livePaths := s.paths.length
    maxDepth := depths.foldl max 0
    registerBlobBytes := blobs.foldl (· + ·) 0
    liveNodes := stats.liveNodes
    overlaySectors := stats.overlaySectors
    overlayBytes := stats.overlayBytes
    releasedNodes := stats.releasedNodes
    meanForkNs := meanTime forkTime (s.forks + s.depthLimited)
    meanRestoreNs := meanTime restoreTime s.restores
    releasedCleanly := s.destroyAll.stats.liveNodes = 0 }

end Session

end MachineFork.Bench
