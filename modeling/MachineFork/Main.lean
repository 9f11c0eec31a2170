import MachineFork.Bench.Run

/-!
This module contains the benchmark as a command.
-/

namespace MachineFork.Bench

def reasonOf : IO.Error → String
  | .noFileOrDirectory _ code details => s!"{details} (os error {code})"
  | .permissionDenied _ code details => s!"{details} (os error {code})"
  | .inappropriateType _ code details => s!"{details} (os error {code})"
  | .resourceExhausted _ code details => s!"{details} (os error {code})"
  | .invalidArgument _ code details => s!"{details} (os error {code})"
  | .noSuchThing _ code details => s!"{details} (os error {code})"
  | error => toString error

def readHostFile (path : String) : IO HostFile := do
  match ← (IO.FS.Handle.mk path .read).toBaseIO with
  | .error e => return .unopenable (reasonOf e)
  | .ok handle =>
    match ← handle.readBinToEnd.toBaseIO with
    -- How long a directory is cannot be asked for here.
    | .error _ => return .directory 4096
    | .ok content => return .regular content

def environment : IO (String → Option String) := do
  let keys := [Config.sizeKey, Config.shrinkKey, Config.depthKey]
  let values ← keys.mapM fun key => return (key, ← IO.getEnv key)
  return fun key => (values.lookup key).join

def mix (word : UInt64) : UInt64 :=
  let word := (word ^^^ (word >>> 30)) * 0xbf58476d1ce4e5b9
  let word := (word ^^^ (word >>> 27)) * 0x94d049bb133111eb
  word ^^^ (word >>> 31)

def Rolls.ofSeed (seed : UInt64) : Rolls where
  word position := mix (seed + .ofNat (position + 1) * 0x9e3779b97f4a7c15)

def usage : String :=
  "Usage: [--sectors SECTORS] [--image PATH] [--forks FORKS] [--writes-per-path N] [--seed SEED] "
    ++ "[--max-fork-depth DEPTH] [--json]"

end MachineFork.Bench

open MachineFork.Bench in
def main (words : List String) : IO UInt32 := do
  match Options.parse words with
  | .error .help =>
    IO.println usage
    return 0
  | .error .usage =>
    IO.eprintln usage
    return 2
  | .ok options =>
    let host : Host IO := {
      lookup := ← environment
      file := readHostFile
      clock := IO.monoNanosNow }
    let result ← (run options host (.ofSeed options.seed)).run
    let ended := ending options result
    IO.print ended.output
    IO.eprint ended.errors
    return ended.status
