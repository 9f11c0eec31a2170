import MachineFork.Text.Decimal

/-!
This module contains the command line of the benchmark.
-/

namespace MachineFork.Bench

structure Options where
  sectors : UInt64 := 2 * 1024 * 1024
  image : Option String := none
  forks : Nat := 256
  writesPerPath : Nat := 8
  seed : UInt64 := 0
  /-- Takes the place of the configured limit. -/
  maxForkDepth : Option Nat := none
  json : Bool := false
  deriving DecidableEq, Repr

inductive Refusal where
  | usage
  | help
  deriving DecidableEq, Repr

inductive Setting where
  | sectors
  | image
  | forks
  | writesPerPath
  | seed
  | maxForkDepth
  deriving DecidableEq, Repr

namespace Setting

def ofName? : String → Option Setting
  | "sectors" => some sectors
  | "image" => some image
  | "forks" => some forks
  | "writes-per-path" => some writesPerPath
  | "seed" => some seed
  | "max-fork-depth" => some maxForkDepth
  | _ => none

def assign? (setting : Setting) (options : Options) (value : String) : Option Options :=
  let word := Text.Decimal.unsigned? UInt64.size value.toList
  let half := Text.Decimal.signed? UInt32.size value.toList
  match setting with
  | sectors => word.map fun n => { options with sectors := .ofNat n }
  | image => if value.isEmpty then none else some { options with image := some value }
  | forks => half.map fun n => { options with forks := n }
  | writesPerPath => half.map fun n => { options with writesPerPath := n }
  | seed => word.map fun n => { options with seed := .ofNat n }
  | maxForkDepth => half.map fun n => { options with maxForkDepth := some n }

end Setting

namespace Options

def splitOption (text : List Char) : String × Option String :=
  let name := String.ofList (text.takeWhile (· ≠ '='))
  match text.dropWhile (· ≠ '=') with
  | [] => (name, none)
  | _ :: value => (name, some (String.ofList value))

def isValue (word : String) : Bool :=
  match word.toList with
  | '-' :: _ :: _ => false
  | _ => true

/--
Read the words of a command line from left to right, given the options so far and the settings
that have been made. The first word in error, or the first that asks for help, ends the reading.
-/
def parseFrom (options : Options) (made : List Setting) : List String → Except Refusal Options
  | [] => .ok options
  | word :: rest =>
    let set (setting : Setting) (value : String) : Option Options :=
      if setting ∈ made then none else setting.assign? options value
    match word.toList with
    | ['-', '-'] => if rest.isEmpty then .ok options else .error .usage
    | '-' :: '-' :: text =>
      match splitOption text with
      | ("help", none) => .error .help
      | ("json", none) =>
        if options.json then .error .usage else parseFrom { options with json := true } made rest
      | (name, value?) =>
        match Setting.ofName? name, value?, rest with
        | some setting, some value, rest =>
          match set setting value with
          | some options => parseFrom options (setting :: made) rest
          | none => .error .usage
        | some setting, none, value :: rest =>
          if isValue value then
            match set setting value with
            | some options => parseFrom options (setting :: made) rest
            | none => .error .usage
          else
            .error .usage
        | _, _, _ => .error .usage
    | '-' :: 'h' :: _ => .error .help
    | _ => .error .usage

def parse (words : List String) : Except Refusal Options :=
  parseFrom {} [] words

end Options

end MachineFork.Bench
