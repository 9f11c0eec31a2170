import MachineFork.Device.Id

/-!
This module contains the ways in which writing or reading a register blob can fail.
-/

namespace MachineFork

inductive BlobError where
  | outOfMemory (requested : Nat)
  | underrun (requested remaining : Nat)
  | overrun (device : DeviceId) (requested remaining : Nat)
  /-- A read inside the section, of bytes that were cut off after the section was entered. -/
  | cutOff (requested written : Nat)
  | lengthMismatch (device : DeviceId) (expected consumed : Nat)
  | unexpectedSection (expected found : DeviceId)
  | trailingBytes (remaining : Nat)
  | duplicate (device : DeviceId)
  | invalidField (reason : String)
  | deviceFailed (device : DeviceId) (reason : String)
  deriving DecidableEq, Repr

namespace BlobError

def message : BlobError → String
  | outOfMemory requested => s!"out of memory growing register blob to {requested} bytes"
  | underrun requested remaining =>
    s!"buffer underrun: requested {requested} bytes, {remaining} remaining"
  | overrun device requested remaining =>
    s!"buffer overrun in {device} section: requested {requested} bytes, {remaining} remaining"
  | cutOff requested written =>
    s!"section bytes cut off: requested {requested} bytes, {written} written"
  | lengthMismatch device expected consumed =>
    s!"{device} section length mismatch (expected {expected} bytes, consumed {consumed})"
  | unexpectedSection expected found =>
    s!"unexpected section: expected {expected}, found {found}"
  | trailingBytes remaining =>
    s!"register blob has {remaining} trailing bytes after the last device section"
  | duplicate device => s!"device {device} registered twice with different callbacks"
  | invalidField reason => s!"invalid field encoding: {reason}"
  | deviceFailed device reason => s!"device {device} failed: {reason}"

/--
Whether no path can go on from the device state the error leaves behind. Only a failure that a
device itself reports is left to the caller's judgement.
-/
def isFatal : BlobError → Bool
  | deviceFailed .. => false
  | _ => true

end BlobError

end MachineFork
