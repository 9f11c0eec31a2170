import MachineFork.Bytes

/-!
This module contains sectors, the unit in which disks are read and written.
-/

namespace MachineFork

def sectorSize : Nat := 512

structure Sector where
  bytes : Bytes
  length_eq : bytes.length = sectorSize
  deriving DecidableEq

namespace Sector

def fill (byte : UInt8) : Sector := ⟨List.replicate sectorSize byte, List.length_replicate⟩

def zero : Sector := fill 0

instance : Inhabited Sector := ⟨zero⟩

def ofBytes? (bytes : Bytes) : Option Sector :=
  if h : bytes.length = sectorSize then some ⟨bytes, h⟩ else none

def padded (bytes : Bytes) : Sector where
  bytes := bytes.take sectorSize ++ List.replicate (sectorSize - bytes.length) 0
  length_eq := by
    simp only [List.length_append, List.length_take, List.length_replicate]
    omega

@[simp]
theorem ofBytes?_bytes (sector : Sector) : ofBytes? sector.bytes = some sector := by
  simp [ofBytes?, sector.length_eq]

theorem bytes_of_ofBytes?_eq_some {bytes : Bytes} {sector : Sector}
    (h : ofBytes? bytes = some sector) : sector.bytes = bytes := by
  simp only [ofBytes?, Option.dite_none_right_eq_some, Option.some.injEq] at h
  obtain ⟨_, rfl⟩ := h
  rfl

end Sector

end MachineFork
