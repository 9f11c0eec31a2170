import MachineFork.Text.Blank
import MachineFork.Text.Decimal
import MachineFork.Text.Quoted

/-!
This module contains the configuration of an engine and how it is read from environment variables.
-/

namespace MachineFork

structure Config where
  /-- Capacity that a blob starts with and that is never taken from it. -/
  preferredSize : Nat := 16384
  /-- Number of saves of one length after which spare capacity is given back; zero for never. -/
  shrinkAfter : Nat := 4
  maxForkDepth : Option Nat := none
  deriving DecidableEq, Repr

inductive ConfigError where
  | unparsable (key value : String)
  | sizeTooLarge (size : Nat)
  | zeroDepth
  deriving DecidableEq, Repr

namespace Config

def maxPreferredSize : Nat := 64 * 1024 * 1024

end Config

def ConfigError.message : ConfigError → String
  | unparsable key value =>
    let quoted := String.ofList (Text.quote value.toList)
    s!"{key}: cannot parse {quoted}"
  | sizeTooLarge size => s!"preferred_state_size {size} exceeds {Config.maxPreferredSize} bytes"
  | zeroDepth => "max_fork_depth must be at least 1"

namespace Config

def sizeKey : String := "PATHFORK_STATE_BUFFER_SIZE"

def shrinkKey : String := "PATHFORK_SHRINK_STABLE_SAVES"

def depthKey : String := "PATHFORK_MAX_FORK_DEPTH"

def validate (config : Config) : Except ConfigError Unit :=
  if maxPreferredSize < config.preferredSize then
    .error (.sizeTooLarge config.preferredSize)
  else if config.maxForkDepth = some 0 then
    .error .zeroDepth
  else
    .ok ()

/--
The number below `limit` that a variable holds, white space around it apart, or `default` if the
variable is not set.
-/
def parse {α : Type} (lookup : String → Option String) (key : String) (limit : Nat)
    (default : α) (inject : Nat → α) : Except ConfigError α :=
  match lookup key with
  | none => .ok default
  | some value =>
    match Text.Decimal.unsigned? limit (Text.trim value.toList) with
    | some n => .ok (inject n)
    | none => .error (.unparsable key value)

/--
The defaults, as overridden by the variables. A variable that cannot be parsed is reported before
any value that is out of range.
-/
def ofLookup (lookup : String → Option String) : Except ConfigError Config := do
  let defaults : Config := {}
  let preferredSize ← parse lookup sizeKey UInt64.size defaults.preferredSize id
  let shrinkAfter ← parse lookup shrinkKey UInt32.size defaults.shrinkAfter id
  let maxForkDepth ← parse lookup depthKey UInt32.size defaults.maxForkDepth some
  let config : Config := { preferredSize, shrinkAfter, maxForkDepth }
  config.validate
  return config

end Config

end MachineFork
