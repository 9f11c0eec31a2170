import MachineFork.Blob.Program

/-!
This module contains the typed fields that device states are made of and how each is written and
read.
-/

namespace MachineFork

inductive Field where
  | u8 (value : UInt8)
  | u16 (value : UInt16)
  | u32 (value : UInt32)
  | u64 (value : UInt64)
  | bool (value : Bool)
  /-- Bytes without a length of their own: what is read is as long as what was there. -/
  | raw (bytes : Bytes)
  /-- Bytes behind their length, which may be at most `limit` when they are read. -/
  | prefixed (bytes : Bytes) (limit : Nat)
  deriving DecidableEq, Repr

namespace Field

variable {σ : Type}

def put : Field → Program σ Unit
  | u8 value => .putU8 value
  | u16 value => .putU16 value
  | u32 value => .putU32 value
  | u64 value => .putU64 value
  | bool value => .putBool value
  | raw bytes => .putBytes bytes
  | prefixed bytes _ => .putPrefixed bytes

def get : Field → Program σ Field
  | u8 _ => return u8 (← .getU8)
  | u16 _ => return u16 (← .getU16)
  | u32 _ => return u32 (← .getU32)
  | u64 _ => return u64 (← .getU64)
  | bool _ => return bool (← .getBool)
  | raw bytes => return raw (← .get bytes.length)
  | prefixed _ limit => return prefixed (← .getPrefixed limit) limit

end Field

end MachineFork
