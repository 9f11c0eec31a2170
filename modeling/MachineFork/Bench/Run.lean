import MachineFork.Bench.Options
import MachineFork.Bench.Session
import MachineFork.Disk.File

/-!
This module contains a whole run of the benchmark. What it needs of its surroundings is given to it:
environment variables, files and a clock.
-/

namespace MachineFork.Bench

structure Host (m : Type → Type) where
  lookup : String → Option String
  file : String → m HostFile
  clock : m Nat

structure Timing where
  fork : Nat := 0
  restore : Nat := 0

def configure (options : Options) (lookup : String → Option String) :
    Except Failure (Engine Part) := do
  let invalid (context : String) (e : ConfigError) : Failure :=
    .inContext context (.ofEngine (.invalidConfig e))
  let config ← (Config.ofLookup lookup).mapError (invalid "read PATHFORK_* configuration")
  let maxForkDepth := options.maxForkDepth <|> config.maxForkDepth
  let engine ← (Engine.new { config with maxForkDepth }).mapError fun e =>
    .inContext "create engine" (.ofEngine e)
  let (result, engine) := engine.startUp registerParts
  let _ ← result.mapError .ofEngine
  return engine

variable {m : Type → Type} [Monad m]

def openDisk (options : Options) (host : Host m) : ExceptT Failure m BaseImage := do
  match options.image with
  | none => return .zero options.sectors
  | some path =>
    match FileImage.ofFile (← host.file path) with
    | .ok image => return image.toBase
    | .error e => throw (.inContext s!"open image {path}" ⟨e.message, []⟩)

def timed {α : Type} (host : Host m) (step : Unit → Except Failure α) :
    ExceptT Failure m (α × Nat) := do
  let started ← host.clock
  match step () with
  | .error failure => throw failure
  | .ok value =>
    let stopped ← host.clock
    return (value, stopped - started)

def round (host : Host m) (writes : Nat) (s : Session) (timing : Timing) :
    ExceptT Failure m (Session × Timing) := do
  let (place, s) := s.choose
  let (s, restoreTime) ← timed host fun () => s.restore place
  let s ← s.exercise place writes
  let ((forked, s), forkTime) ← timed host fun () => s.fork place
  let s := if forked then s.retire else s
  return (s, ⟨timing.fork + forkTime, timing.restore + restoreTime⟩)

def rounds (host : Host m) (writes : Nat) :
    (count : Nat) → Session → Timing → ExceptT Failure m (Session × Timing)
  | 0, s, timing => return (s, timing)
  | count + 1, s, timing => do
    let (s, timing) ← round host writes s timing
    rounds host writes count s timing

def run (options : Options) (host : Host m) (rolls : Rolls) : ExceptT Failure m Report := do
  let engine ← configure options host.lookup
  let image ← openDisk options host
  let s ← Session.start engine image rolls
  let (s, timing) ← rounds host options.writesPerPath options.forks s {}
  s.report options.seed.toNat timing.fork timing.restore

structure Ending where
  output : String := ""
  errors : String := ""
  status : UInt32 := 0
  deriving DecidableEq, Repr

/--
How the command ends after a run. A report is printed even if nodes have leaked.
-/
def ending (options : Options) : Except Failure Report → Ending
  | .error failure => { errors := failure.describe, status := 1 }
  | .ok report =>
    let output := if options.json then report.json ++ "\n" else report.summary
    if report.releasedCleanly then
      { output }
    else
      let leak : Failure := ⟨"lineage nodes leaked after all paths were destroyed", []⟩
      { output, errors := leak.describe, status := 1 }

end MachineFork.Bench
