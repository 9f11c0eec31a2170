import MachineFork.Bytes

/-!
This module contains the identity of a device: a four byte kind and a number that tells devices of
one kind apart.
-/

namespace MachineFork

structure Kind where
  first : UInt8
  second : UInt8
  third : UInt8
  fourth : UInt8
  deriving DecidableEq, Repr

namespace Kind

def toBytes (kind : Kind) : Bytes :=
  [kind.first, kind.second, kind.third, kind.fourth]

def ofBytes (bytes : Bytes) : Kind :=
  ⟨bytes.getD 0 0, bytes.getD 1 0, bytes.getD 2 0, bytes.getD 3 0⟩

@[simp]
theorem length_toBytes (kind : Kind) : kind.toBytes.length = 4 := rfl

@[simp]
theorem ofBytes_toBytes (kind : Kind) : ofBytes kind.toBytes = kind := rfl

end Kind

structure DeviceId where
  kind : Kind
  number : UInt16
  deriving DecidableEq, Repr

namespace DeviceId

def singleton (kind : Kind) : DeviceId := ⟨kind, 0⟩

/--
Identities are ordered by their kinds, byte by byte, and then by their numbers. That is the order of
the numbers in which the bytes of the kind are the most significant ones.
-/
def sortKey (id : DeviceId) : Nat :=
  Bytes.ofLittleEndian id.kind.toBytes.reverse * UInt16.size + id.number.toNat

def le (a b : DeviceId) : Bool :=
  decide (a.sortKey ≤ b.sortKey)

def isGraphic (byte : UInt8) : Bool :=
  0x21 ≤ byte && byte ≤ 0x7e

def showByte (byte : UInt8) : List Char :=
  if isGraphic byte then
    [Char.ofNat byte.toNat]
  else
    ['\\', 'x', Nat.digitChar (byte.toNat / 16), Nat.digitChar (byte.toNat % 16)]

def toChars (id : DeviceId) : List Char :=
  id.kind.toBytes.flatMap showByte ++ '#' :: Nat.toDigits 10 id.number.toNat

instance : ToString DeviceId where
  toString id := String.ofList id.toChars

end DeviceId

end MachineFork
