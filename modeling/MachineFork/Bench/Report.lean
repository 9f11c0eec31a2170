/-!
This module contains the outcome of a benchmark: a report in two forms, or the chain of messages of
a failure.
-/

namespace MachineFork.Bench

structure Report where
  seed : Nat
  diskSectors : Nat
  forks : Nat
  depthLimitedForks : Nat
  livePaths : Nat
  maxDepth : Nat
  registerBlobBytes : Nat
  liveNodes : Nat
  overlaySectors : Nat
  overlayBytes : Nat
  releasedNodes : Nat
  meanForkNs : Nat
  meanRestoreNs : Nat
  releasedCleanly : Bool
  deriving DecidableEq, Repr

def meanTime (total count : Nat) : Nat :=
  if count = 0 then 0 else min (total / count) (UInt64.size - 1)

namespace Report

def summaryLines (r : Report) : List String :=
  let limited := s!"  {r.depthLimitedForks} forks refused at depth limit"
  let released := if r.releasedCleanly then "fully released" else "LEAKED"
  [s!"{r.forks} forks over {r.diskSectors} sectors (seed {r.seed})"]
    ++ (if 0 < r.depthLimitedForks then [limited] else [])
    ++ [s!"  {r.livePaths} live paths, max depth {r.maxDepth}, "
        ++ s!"{r.registerBlobBytes} register blob bytes",
      s!"  {r.liveNodes} lineage nodes, "
        ++ s!"{r.overlaySectors} overlay sectors ({r.overlayBytes} bytes)",
      s!"  mean fork {r.meanForkNs} ns, mean restore {r.meanRestoreNs} ns",
      s!"  lineage {released}"]

def summary (r : Report) : String :=
  String.join (r.summaryLines.map (· ++ "\n"))

def members (r : Report) : List (String × String) :=
  [("seed", toString r.seed),
    ("diskSectors", toString r.diskSectors),
    ("forks", toString r.forks),
    ("depthLimitedForks", toString r.depthLimitedForks),
    ("livePaths", toString r.livePaths),
    ("maxDepth", toString r.maxDepth),
    ("registerBlobBytes", toString r.registerBlobBytes),
    ("liveNodes", toString r.liveNodes),
    ("overlaySectors", toString r.overlaySectors),
    ("overlayBytes", toString r.overlayBytes),
    ("releasedNodes", toString r.releasedNodes),
    ("meanForkNs", toString r.meanForkNs),
    ("meanRestoreNs", toString r.meanRestoreNs),
    ("releasedCleanly", if r.releasedCleanly then "true" else "false")]

def json (r : Report) : String :=
  let lines := r.members.map fun (name, value) => "  \"" ++ name ++ "\": " ++ value
  "\x7b\n" ++ ",\n".intercalate lines ++ "\n\x7d"

end Report

structure Failure where
  message : String
  causes : List String := []
  deriving DecidableEq, Repr

namespace Failure

def inContext (context : String) (failure : Failure) : Failure :=
  ⟨context, failure.message :: failure.causes⟩

def chain (failure : Failure) : String :=
  ": ".intercalate (failure.message :: failure.causes)

def describe (failure : Failure) : String :=
  let numbered := failure.causes.zipIdx.map fun (cause, i) => s!"    {i}: {cause}\n"
  let head := s!"Error: {failure.message}\n"
  match failure.causes with
  | [] => head
  | [cause] => head ++ s!"\nCaused by:\n    {cause}\n"
  | _ => head ++ "\nCaused by:\n" ++ String.join numbered

end Failure

end MachineFork.Bench
