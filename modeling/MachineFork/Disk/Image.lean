import MachineFork.Disk.Error

/-!
This module contains base images: read-only sources of the sectors that nobody has written yet. An
image in memory and an image of zeroes stand beside the general interface.
-/

namespace MachineFork

structure BaseImage where
  sectorCount : UInt64
  fetch : UInt64 → Except DiskError Sector

namespace BaseImage

def readInto (image : BaseImage) (index : UInt64) (buffer : Bytes) :
    Except DiskError Unit × Bytes :=
  if buffer.length ≠ sectorSize then
    (.error (.unaligned buffer.length), buffer)
  else
    match image.fetch index with
    | .error e => (.error e, buffer)
    | .ok sector => (.ok (), sector.bytes)

def ofSectors (sectorCount : UInt64) (sector : UInt64 → Except DiskError Sector) : BaseImage where
  sectorCount
  fetch index :=
    if index < sectorCount then sector index else .error (.beyondImage index sectorCount)

def zero (sectorCount : UInt64) : BaseImage :=
  ofSectors sectorCount fun _ => .ok .zero

end BaseImage

structure MemoryImage where
  bytes : Bytes
  aligned : sectorSize ∣ bytes.length

namespace MemoryImage

def ofBytes (bytes : Bytes) : Except DiskError MemoryImage :=
  if h : sectorSize ∣ bytes.length then
    .ok ⟨bytes, h⟩
  else
    .error (.unaligned bytes.length)

def zeroed (sectorCount : UInt64) : Except DiskError MemoryImage :=
  let length := sectorCount.toNat * sectorSize
  if UInt64.size ≤ length then
    .error (.outOfMemory (UInt64.size - 1))
  else if Bytes.addressSpace ≤ length then
    .error (.outOfMemory length)
  else
    .ok ⟨List.replicate length 0, by
      rw [List.length_replicate]
      exact Nat.dvd_mul_left ..⟩

def sectorCount (image : MemoryImage) : UInt64 :=
  .ofNat (image.bytes.length / sectorSize)

def toBase (image : MemoryImage) : BaseImage :=
  .ofSectors image.sectorCount fun index =>
    .ok (.padded (image.bytes.drop (index.toNat * sectorSize)))

end MemoryImage

end MachineFork
