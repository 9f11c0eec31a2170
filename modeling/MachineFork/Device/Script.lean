import MachineFork.Blob.Field
import MachineFork.Device.Model

/-!
This module contains devices that are given as data: a list of fields, and for saving and restoring
either the fields in order or a script of steps.
-/

namespace MachineFork

namespace Script

inductive Step where
  | put (index : Nat)
  | get (index : Nat)
  | skip (field : Field)
  | const (field : Field)
  | reset
  | truncate
  | shrink (floor : Nat)
  | fail (device : DeviceId) (reason : String)
  deriving Repr

def putAll : List Field → Program Unit Unit
  | [] => return
  | field :: rest => do
    field.put
    putAll rest

def getFrom (fields : List Field) (index : Nat) : (rest : List Field) → Program (List Field) Unit
  | [] => return
  | field :: rest => do
    let fields := fields.set index (← field.get)
    .assign fields (getFrom fields (index + 1) rest)

def save (fields : List Field) : List Step → Program Unit Unit
  | [] => return
  | step :: rest =>
    match step with
    | .put index => do
      if let some field := fields[index]? then
        field.put
      save fields rest
    | .get _ => save fields rest
    | .skip _ => save fields rest
    | .const field => do
      field.put
      save fields rest
    | .reset => .reset (save fields rest)
    | .truncate => .truncate (save fields rest)
    | .shrink floor => .shrink floor (save fields rest)
    | .fail device reason => .fail (.deviceFailed device reason)

def restore (fields : List Field) : List Step → Program (List Field) Unit
  | [] => return
  | step :: rest =>
    match step with
    | .put _ => restore fields rest
    | .get index =>
      match fields[index]? with
      | some field => do
        let fields := fields.set index (← field.get)
        .assign fields (restore fields rest)
      | none => restore fields rest
    | .skip field => do
      let _ ← field.get
      restore fields rest
    | .const field => do
      field.put
      restore fields rest
    | .reset => .reset (restore fields rest)
    | .truncate => .truncate (restore fields rest)
    | .shrink floor => .shrink floor (restore fields rest)
    | .fail device reason => .fail (.deviceFailed device reason)

/--
The device with the given scripts; without a script, all fields are written or read in order.
-/
def model (save? restore? : Option (List Step)) : DeviceModel (List Field) where
  save fields :=
    match save? with
    | some steps => save fields steps
    | none => putAll fields
  restore fields :=
    match restore? with
    | some steps => restore fields steps
    | none => getFrom fields 0 fields

end Script

end MachineFork
