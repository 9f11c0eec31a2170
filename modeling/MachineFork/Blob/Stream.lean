import MachineFork.Blob.Error

/-!
This module contains the stream that register blobs are written to and read from: a growable string
of bytes with one cursor for both. A write lays bytes over those at the cursor and extends the
stream when it reaches past the end; a read never goes past the end, nor past the end of the device
section that has been entered. There is always memory for the bytes that are written; only an
explicit reservation can be refused.
-/

namespace MachineFork

structure Section where
  device : DeviceId
  start : Nat
  stop : Nat
  deriving DecidableEq, Repr

structure Stream where
  bytes : Bytes := []
  cursor : Nat := 0
  capacity : Nat := 0
  entered : Option Section := none
  deriving DecidableEq, Repr

namespace Stream

def empty : Stream := {}

def withCapacity (capacity : Nat) : Except BlobError Stream :=
  if capacity < Bytes.addressSpace then
    .ok { capacity }
  else
    .error (.outOfMemory capacity)

def ofBytes (bytes : Bytes) : Stream :=
  { bytes, capacity := bytes.length }

def clone (s : Stream) : Stream :=
  ofBytes s.bytes

def length (s : Stream) : Nat := s.bytes.length

def isEmpty (s : Stream) : Bool := s.bytes.isEmpty

def readEnd (s : Stream) : Nat :=
  match s.entered with
  | some entered => entered.stop
  | none => s.length

def remaining (s : Stream) : Nat :=
  s.readEnd - s.cursor

/--
Move the cursor back to the start. This also lifts the confinement to a section.
-/
def reset (s : Stream) : Stream :=
  { s with cursor := 0, entered := none }

def truncate (s : Stream) : Stream :=
  { s with bytes := s.bytes.take s.cursor }

def shrink (floor : Nat) (s : Stream) : Stream :=
  { s with capacity := min s.capacity (max s.length floor) }

def grow (capacity needed : Nat) : Nat :=
  if needed ≤ capacity then capacity else max (max (2 * capacity) needed) 8

def put (new : Bytes) (s : Stream) : Stream :=
  let stop := s.cursor + new.length
  { s with
    bytes := s.bytes.overwrite s.cursor new
    cursor := stop
    capacity := grow s.capacity stop }

def take (count : Nat) (s : Stream) : Except BlobError (Bytes × Stream) :=
  if s.remaining < count then
    match s.entered with
    | some entered => .error (.overrun entered.device count s.remaining)
    | none => .error (.underrun count s.remaining)
  else if s.length < s.cursor + count then
    .error (.cutOff count (s.length - s.cursor))
  else
    .ok ((s.bytes.drop s.cursor).take count, { s with cursor := s.cursor + count })

def takeInto (buffer : Bytes) (s : Stream) : Except BlobError Unit × Bytes × Stream :=
  match s.take buffer.length with
  | .error e => (.error e, buffer, s)
  | .ok (bytes, s) => (.ok (), bytes, s)

end Stream

end MachineFork
