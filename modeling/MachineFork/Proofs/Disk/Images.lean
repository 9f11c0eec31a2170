import MachineFork.Disk.File

/-!
This module contains that it makes no difference whether an image is held in memory, is in a file or
is made up of zeroes. However a sector is put together from the reads of a file, it ends up as the
bytes that the file holds there, followed by zeroes where the file does not reach.
-/

namespace MachineFork

namespace Bytes

def padToSectors (bytes : Bytes) : Bytes :=
  bytes ++ List.replicate ((sectorSize - bytes.length % sectorSize) % sectorSize) 0

def byteAt (bytes : Bytes) (position : Nat) : UInt8 := bytes[position]?.getD 0

theorem length_padToSectors (bytes : Bytes) :
    bytes.padToSectors.length = (bytes.length + (sectorSize - 1)) / sectorSize * sectorSize := by
  unfold padToSectors sectorSize
  rw [List.length_append, List.length_replicate]
  omega

theorem byteAt_padToSectors (bytes : Bytes) (position : Nat) :
    bytes.padToSectors.byteAt position = bytes.byteAt position := by
  unfold byteAt padToSectors
  rw [List.getElem?_append]
  split
  · rfl
  · next hbehind =>
    rw [List.getElem?_replicate, List.getElem?_eq_none (Nat.le_of_not_lt hbehind)]
    split
    · rfl
    · rfl

end Bytes

namespace Sector

def ofImage (bytes : Bytes) (index : UInt64) : Sector :=
  ⟨(List.range sectorSize).map fun k => bytes.byteAt (index.toNat * sectorSize + k), by simp⟩

theorem ext_byteAt {sector other : Sector}
    (h : ∀ k, k < sectorSize → sector.bytes.byteAt k = other.bytes.byteAt k) : sector = other := by
  obtain ⟨bytes, hbytes⟩ := sector
  obtain ⟨otherBytes, hother⟩ := other
  rw [mk.injEq]
  apply List.ext_getElem
  · rw [hbytes, hother]
  · intro k hk hk'
    have hbyte := h k (by omega)
    unfold Bytes.byteAt at hbyte
    rw [List.getElem?_eq_getElem hk, List.getElem?_eq_getElem hk'] at hbyte
    exact hbyte

theorem byteAt_padded (bytes : Bytes) {k : Nat} (hk : k < sectorSize) :
    (padded bytes).bytes.byteAt k = bytes.byteAt k := by
  unfold padded Bytes.byteAt
  rw [List.getElem?_append, List.length_take, List.getElem?_take, if_pos hk]
  rw [List.getElem?_replicate]
  split
  · rfl
  · next hbehind =>
    rw [List.getElem?_eq_none (by omega)]
    split
    · rfl
    · rfl

theorem byteAt_ofImage (bytes : Bytes) (index : UInt64) {k : Nat} (hk : k < sectorSize) :
    (ofImage bytes index).bytes.byteAt k = bytes.byteAt (index.toNat * sectorSize + k) := by
  rw [Bytes.byteAt, ofImage, List.getElem?_map, List.getElem?_range hk]
  rfl

/-! What is read from an image. -/

theorem padded_drop (bytes : Bytes) (index : UInt64) :
    padded (bytes.drop (index.toNat * sectorSize)) = ofImage bytes index := by
  apply ext_byteAt
  intro k hk
  rw [byteAt_padded _ hk, byteAt_ofImage _ _ hk]
  rw [Bytes.byteAt, Bytes.byteAt, List.getElem?_drop]

theorem padded_take (bytes : Bytes) : padded (bytes.take sectorSize) = padded bytes := by
  apply ext_byteAt
  intro k hk
  rw [byteAt_padded _ hk, byteAt_padded _ hk]
  rw [Bytes.byteAt, Bytes.byteAt, List.getElem?_take, if_pos hk]

theorem ofImage_padToSectors (bytes : Bytes) (index : UInt64) :
    ofImage bytes.padToSectors index = ofImage bytes index := by
  unfold ofImage
  simp only [Bytes.byteAt_padToSectors]

theorem ofImage_replicate (length : Nat) (index : UInt64) :
    ofImage (List.replicate length 0) index = zero := by
  apply ext_byteAt
  intro k hk
  rw [byteAt_ofImage _ _ hk]
  unfold Bytes.byteAt zero fill
  rw [List.getElem?_replicate, List.getElem?_replicate, if_pos hk]
  split
  · rfl
  · rfl

end Sector

/-! Reads of a file. -/

def HostFile.bytesOf (content : ByteArray) : Bytes := content.data.toList

theorem HostFile.slice_eq (content : ByteArray) (offset count : Nat) :
    slice content offset count = ((HostFile.bytesOf content).drop offset).take count := by
  unfold slice
  rw [ByteArray.data_extract, Array.toList_extract, List.extract_eq_take_drop]
  rw [Nat.add_sub_cancel_left, bytesOf]

theorem take_append_take (bytes : Bytes) {first count : Nat} (h : first ≤ count) :
    let got := bytes.take first
    got ++ (bytes.drop got.length).take (count - got.length) = bytes.take count := by
  dsimp only
  cases Nat.le_total first bytes.length with
  | inl hshort =>
    rw [List.length_take_of_le hshort]
    rw [← List.take_add, Nat.add_sub_cancel' h]
  | inr hlong =>
    rw [List.take_of_length_le hlong, List.drop_length, List.take_nil, List.append_nil]
    rw [List.take_of_length_le (Nat.le_trans hlong h)]

theorem readAt_eq (content : ByteArray) (events : List ReadEvent) (offset count : Nat) :
    readAt content events offset count = ((HostFile.bytesOf content).drop offset).take count := by
  induction events generalizing offset count with
  | nil => apply HostFile.slice_eq
  | cons event events ih =>
    cases event with
    | interrupted => apply ih
    | short limit =>
      unfold readAt
      dsimp only
      rw [HostFile.slice_eq, ih]
      split
      · next hempty =>
        -- At least one byte would have been delivered if one were there.
        rw [List.isEmpty_iff, List.take_eq_nil_iff] at hempty
        cases hempty with
        | inl hcount =>
          have hcount : count = 0 := by omega
          rw [hcount, List.take_zero]
        | inr hdrop => rw [hdrop, List.take_nil]
      · rw [← List.drop_drop]
        exact take_append_take _ (Nat.min_le_left ..)

namespace BaseImage

structure Interchangeable (image other : BaseImage) : Prop where
  sectorCount_eq : image.sectorCount = other.sectorCount
  readInto_eq : ∀ index buffer, image.readInto index buffer = other.readInto index buffer

variable {count : UInt64} {sector other : UInt64 → Except DiskError Sector}

theorem Interchangeable.symm {image other : BaseImage} (h : image.Interchangeable other) :
    other.Interchangeable image :=
  ⟨h.sectorCount_eq.symm, fun index buffer => (h.readInto_eq index buffer).symm⟩

theorem interchangeable_ofSectors (h : ∀ index, index < count → sector index = other index) :
    Interchangeable (ofSectors count sector) (ofSectors count other) := by
  refine ⟨rfl, ?_⟩
  intro index buffer
  have hfetch : (ofSectors count sector).fetch index = (ofSectors count other).fetch index := by
    unfold ofSectors
    dsimp only
    split
    · next hindex => rw [h index hindex]
    · rfl
  unfold readInto
  rw [hfetch]

theorem readInto_ofSectors {index : UInt64} {buffer : Bytes} {found : Sector}
    (hbuffer : buffer.length = sectorSize) (hindex : index < count)
    (hsector : sector index = .ok found) :
    (ofSectors count sector).readInto index buffer = (.ok (), found.bytes) := by
  have hfetch : (ofSectors count sector).fetch index = .ok found := by
    unfold ofSectors
    dsimp only
    rw [if_pos hindex, hsector]
  unfold readInto
  rw [if_neg (not_not_intro hbuffer), hfetch]

end BaseImage

namespace MemoryImage

theorem toBase_eq (image : MemoryImage) :
    image.toBase = .ofSectors image.sectorCount fun index => .ok (.ofImage image.bytes index) := by
  unfold toBase
  apply congrArg
  funext index
  rw [Sector.padded_drop]

theorem ofBytes_padToSectors (bytes : Bytes) :
    ∃ image, ofBytes bytes.padToSectors = .ok image ∧ image.bytes = bytes.padToSectors := by
  have haligned : sectorSize ∣ bytes.padToSectors.length := by
    rw [Bytes.length_padToSectors]
    apply Nat.dvd_mul_left
  refine ⟨⟨bytes.padToSectors, haligned⟩, ?_, rfl⟩
  rw [ofBytes, dif_pos haligned]

theorem exists_zeroed_iff {count : UInt64} :
    (∃ image, zeroed count = .ok image) ↔ count.toNat * sectorSize < Bytes.addressSpace := by
  have hspace : Bytes.addressSpace < UInt64.size := by decide
  unfold zeroed
  dsimp only
  split
  · next hlength => simp [Nat.not_lt.mpr (Nat.le_trans (Nat.le_of_lt hspace) hlength)]
  · split
    · next hlength => simp [Nat.not_lt.mpr hlength]
    · next hlength => simp [Nat.not_le.mp hlength]

theorem bytes_of_zeroed {count : UInt64} {image : MemoryImage} (h : zeroed count = .ok image) :
    image.bytes = List.replicate (count.toNat * sectorSize) 0 := by
  unfold zeroed at h
  dsimp only at h
  split at h
  · cases h
  · split at h
    · cases h
    · cases h
      rfl

theorem interchangeable_zeroed {count : UInt64} {image : MemoryImage}
    (h : zeroed count = .ok image) : image.toBase.Interchangeable (.zero count) := by
  have hbytes := bytes_of_zeroed h
  have hcount : image.sectorCount = count := by
    unfold sectorCount
    rw [hbytes, List.length_replicate, Nat.mul_div_cancel _ (by decide)]
    apply UInt64.ofNat_toNat
  rw [toBase_eq, hcount, hbytes]
  apply BaseImage.interchangeable_ofSectors
  intro index _
  rw [Sector.ofImage_replicate]

end MemoryImage

namespace FileImage

def refill (image : FileImage) (content : ByteArray) : FileImage :=
  { image with file := .regular content }

variable {image : FileImage} {content : ByteArray}

theorem toBase_refill (image : FileImage) (content : ByteArray)
    (events : UInt64 → List ReadEvent) :
    (image.refill content).toBase events
      =
    .ofSectors image.sectorCount fun index => .ok (.ofImage (HostFile.bytesOf content) index) := by
  unfold toBase
  apply congrArg
  funext index
  unfold refill fetch
  dsimp only
  rw [readAt_eq, Sector.padded_take, Sector.padded_drop]

theorem refill_of_ofFile (h : ofFile (.regular content) = .ok image) :
    image.refill content = image := by
  cases h
  rfl

theorem sectorCount_of_ofFile (h : ofFile (.regular content) = .ok image) :
    image.sectorCount
      =
    .ofNat (((HostFile.bytesOf content).length + (sectorSize - 1)) / sectorSize) := by
  cases h
  rfl

theorem interchangeable_ofBytes {memory : MemoryImage}
    (hfile : ofFile (.regular content) = .ok image)
    (hmemory : memory.bytes = (HostFile.bytesOf content).padToSectors)
    (events : UInt64 → List ReadEvent) :
    (image.toBase events).Interchangeable memory.toBase := by
  have hcount : memory.sectorCount = image.sectorCount := by
    rw [sectorCount_of_ofFile hfile]
    unfold MemoryImage.sectorCount
    rw [hmemory, Bytes.length_padToSectors, Nat.mul_div_cancel _ (by decide)]
  rw [MemoryImage.toBase_eq, hcount, hmemory, ← refill_of_ofFile hfile, toBase_refill]
  apply BaseImage.interchangeable_ofSectors
  intro index _
  rw [Sector.ofImage_padToSectors]

end FileImage

/--
Images of the same bytes cannot be told apart: a file of any content can be opened, and however its
reads go, it cannot be told from its bytes in memory, filled up to whole sectors with zeroes. An
image of zeroes cannot be told from zeroes in memory, which there are as long as there are addresses
for them. A file that comes to hold something else later
on is an image of what it then holds, but of as many sectors as it had when it was opened.
-/
theorem images_interchangeable (content : ByteArray) :
    (∃ file memory, FileImage.ofFile (.regular content) = .ok file ∧
      MemoryImage.ofBytes (HostFile.bytesOf content).padToSectors = .ok memory ∧
      (∀ events, (file.toBase events).Interchangeable memory.toBase) ∧
      ∀ content' events, ((file.refill content').toBase events).sectorCount = file.sectorCount ∧
        ∀ index buffer, buffer.length = sectorSize → index < file.sectorCount →
          ((file.refill content').toBase events).readInto index buffer
            = (.ok (), (Sector.ofImage (HostFile.bytesOf content') index).bytes)) ∧
    ∀ count,
      ((∃ image, MemoryImage.zeroed count = .ok image)
        ↔
      count.toNat * sectorSize < Bytes.addressSpace) ∧
      ∀ image, MemoryImage.zeroed count = .ok image →
        (BaseImage.zero count).Interchangeable image.toBase := by
  constructor
  · obtain ⟨memory, hmemory, hbytes⟩ := MemoryImage.ofBytes_padToSectors (HostFile.bytesOf content)
    obtain ⟨file, hfile⟩ : ∃ file, FileImage.ofFile (.regular content) = .ok file := ⟨_, rfl⟩
    refine ⟨file, memory, hfile, hmemory, FileImage.interchangeable_ofBytes hfile hbytes, ?_⟩
    intro content' events
    rw [FileImage.toBase_refill]
    refine ⟨rfl, ?_⟩
    intro index buffer hbuffer hindex
    exact BaseImage.readInto_ofSectors hbuffer hindex rfl
  · intro count
    refine ⟨MemoryImage.exists_zeroed_iff, ?_⟩
    intro image hzeroed
    exact (MemoryImage.interchangeable_zeroed hzeroed).symm

theorem images_interchangeable_shrunk :
    (∃ file, FileImage.ofFile (.regular ⟨#[1, 2, 3]⟩) = .ok file ∧ file.sectorCount = 1 ∧
      ∀ events, ((file.refill ⟨#[7]⟩).toBase events).readInto 0 (List.replicate sectorSize 9)
        = (.ok (), 7 :: List.replicate 511 0)) ∧
    ∃ zeroes, MemoryImage.zeroed 3 = .ok zeroes ∧
      zeroes.toBase.readInto 2 (List.replicate sectorSize 9) = (.ok (), Sector.zero.bytes) := by
  obtain ⟨⟨file, memory, hfile, -, -, hrefill⟩, hzeroed⟩ := images_interchangeable ⟨#[1, 2, 3]⟩
  constructor
  · have hcount : file.sectorCount = 1 := by
      rw [FileImage.sectorCount_of_ofFile hfile]
      rfl
    refine ⟨file, hfile, hcount, ?_⟩
    intro events
    obtain ⟨-, hread⟩ := hrefill ⟨#[7]⟩ events
    rw [hread 0 _ List.length_replicate (by rw [hcount]; decide)]
    have hbytes : (Sector.ofImage (HostFile.bytesOf ⟨#[7]⟩) 0).bytes
        = 7 :: List.replicate 511 0 := by decide +kernel
    rw [hbytes]
  · obtain ⟨hroom, hsame⟩ := hzeroed 3
    obtain ⟨zeroes, hzeroes⟩ := hroom.mpr (by decide)
    refine ⟨zeroes, hzeroes, ?_⟩
    rw [← (hsame zeroes hzeroes).readInto_eq]
    exact BaseImage.readInto_ofSectors List.length_replicate (by decide) rfl

end MachineFork
