import MachineFork.Blob.Stream

/-!
This module contains programs over a stream: what a device may do while it saves or restores itself.
A program reads and writes the stream through the stream's public operations only and may put a new
state in place of its device's at any point. A program that fails leaves the stream, and the state,
as they are at that point.
-/

namespace MachineFork

inductive Program (σ α : Type) where
  | done (value : α)
  | fail (error : BlobError)
  /-- Read the next `count` bytes; the program learns of a failure and may go on. -/
  | take (count : Nat) (next : Except BlobError Bytes → Program σ α)
  | put (bytes : Bytes) (next : Program σ α)
  | reset (next : Program σ α)
  | truncate (next : Program σ α)
  | shrink (floor : Nat) (next : Program σ α)
  | look (next : Stream → Program σ α)
  | assign (state : σ) (next : Program σ α)

namespace Program

variable {σ α β : Type}

def run : Program σ α → σ → Stream → Except BlobError α × σ × Stream
  | done value, state, s => (.ok value, state, s)
  | fail error, state, s => (.error error, state, s)
  | take count next, state, s =>
    match s.take count with
    | .ok (bytes, s) => (next (.ok bytes)).run state s
    | .error error => (next (.error error)).run state s
  | put bytes next, state, s => next.run state (s.put bytes)
  | reset next, state, s => next.run state s.reset
  | truncate next, state, s => next.run state s.truncate
  | shrink floor next, state, s => next.run state (s.shrink floor)
  | look next, state, s => (next s).run state s
  | assign state next, _, s => next.run state s

protected def bind : Program σ α → (α → Program σ β) → Program σ β
  | done value, f => f value
  | fail error, _ => fail error
  | take count next, f => take count fun bytes => (next bytes).bind f
  | put bytes next, f => put bytes (next.bind f)
  | reset next, f => reset (next.bind f)
  | truncate next, f => truncate (next.bind f)
  | shrink floor next, f => shrink floor (next.bind f)
  | look next, f => look fun s => (next s).bind f
  | assign state next, f => assign state (next.bind f)

instance : Monad (Program σ) where
  pure := done
  bind := Program.bind

theorem run_bind (p : Program σ α) (f : α → Program σ β) (state : σ) (s : Stream) :
    (p >>= f).run state s =
      match p.run state s with
      | (.ok value, state, s) => (f value).run state s
      | (.error error, state, s) => (.error error, state, s) := by
  show (Program.bind p f).run state s = _
  induction p generalizing state s with
  | done value => rfl
  | fail error => rfl
  | take count next ih =>
    simp only [Program.bind, run]
    split <;> exact ih _ _ _
  | put bytes next ih => exact ih _ _
  | reset next ih => exact ih _ _
  | truncate next ih => exact ih _ _
  | shrink floor next ih => exact ih _ _
  | look next ih => exact ih _ _ _
  | assign state next ih => exact ih _ _

def get (count : Nat) : Program σ Bytes :=
  take count fun
    | .ok bytes => done bytes
    | .error error => fail error

def getNat (width : Nat) : Program σ Nat := do
  let bytes ← get width
  return Bytes.ofLittleEndian bytes

def getU8 : Program σ UInt8 := do
  let value ← getNat 1
  return .ofNat value

def getU16 : Program σ UInt16 := do
  let value ← getNat 2
  return .ofNat value

def getU32 : Program σ UInt32 := do
  let value ← getNat 4
  return .ofNat value

def getU64 : Program σ UInt64 := do
  let value ← getNat 8
  return .ofNat value

def getBool : Program σ Bool := do
  match ← getU8 with
  | 0 => return false
  | 1 => return true
  | _ => fail (.invalidField "bool")

def getPrefixed (limit : Nat) : Program σ Bytes := do
  let length ← getU32
  if limit < length.toNat then
    fail (.invalidField "length prefix too large")
  else
    get length.toNat

def putBytes (bytes : Bytes) : Program σ Unit :=
  put bytes (done ())

def putNat (width value : Nat) : Program σ Unit :=
  putBytes (Bytes.littleEndian width value)

def putU8 (value : UInt8) : Program σ Unit := putNat 1 value.toNat

def putU16 (value : UInt16) : Program σ Unit := putNat 2 value.toNat

def putU32 (value : UInt32) : Program σ Unit := putNat 4 value.toNat

def putU64 (value : UInt64) : Program σ Unit := putNat 8 value.toNat

def putBool (value : Bool) : Program σ Unit := putNat 1 value.toNat

def putPrefixed (bytes : Bytes) : Program σ Unit :=
  if UInt32.size ≤ bytes.length then
    fail (.invalidField "length does not fit in u32")
  else do
    putNat 4 bytes.length
    putBytes bytes

end Program

end MachineFork
