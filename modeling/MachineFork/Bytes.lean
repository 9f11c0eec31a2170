/-!
This module contains byte strings, the little endian numbers written into them and the operation
that overwrites a run of bytes in place.
-/

namespace MachineFork

abbrev Bytes := List UInt8

namespace Bytes

/--
The number of bytes that a process can address, 128 TiB. As many cannot be reserved at once.
-/
def addressSpace : Nat := 128 * 1024 * 1024 * 1024 * 1024

def littleEndian : (width : Nat) → (n : Nat) → Bytes
  | 0, _ => []
  | width + 1, n => UInt8.ofNat n :: littleEndian width (n / 256)

def ofLittleEndian : Bytes → Nat
  | [] => 0
  | byte :: rest => byte.toNat + 256 * ofLittleEndian rest

@[simp]
theorem length_littleEndian (width n : Nat) : (littleEndian width n).length = width := by
  induction width generalizing n with
  | zero => rfl
  | succ width ih => simp [littleEndian, ih]

theorem ofLittleEndian_littleEndian {width n : Nat} (h : n < UInt8.size.pow width) :
    ofLittleEndian (littleEndian width n) = n := by
  induction width generalizing n with
  | zero => simp_all [littleEndian, ofLittleEndian]
  | succ width ih =>
    have hdiv : n / 256 < UInt8.size.pow width := by
      have h : n < UInt8.size.pow width * 256 := h
      omega
    simp only [littleEndian, ofLittleEndian, ih hdiv, UInt8.toNat_ofNat']
    omega

theorem ofLittleEndian_lt (bytes : Bytes) : ofLittleEndian bytes < UInt8.size.pow bytes.length := by
  induction bytes with
  | nil => simp [ofLittleEndian]
  | cons byte rest ih =>
    have := byte.toNat_lt
    have hpow : UInt8.size.pow (byte :: rest).length = UInt8.size.pow rest.length * 256 := rfl
    simp only [ofLittleEndian, hpow]
    omega

theorem littleEndian_ofLittleEndian (bytes : Bytes) :
    littleEndian bytes.length (ofLittleEndian bytes) = bytes := by
  induction bytes with
  | nil => rfl
  | cons byte rest ih =>
    have hlt := byte.toNat_lt
    have hdiv : (byte.toNat + 256 * ofLittleEndian rest) / 256 = ofLittleEndian rest := by omega
    have hmod : UInt8.ofNat (byte.toNat + 256 * ofLittleEndian rest) = byte := by
      apply UInt8.toNat_inj.mp
      simp only [UInt8.toNat_ofNat']
      omega
    simp [littleEndian, ofLittleEndian, hdiv, hmod, ih]

/--
Lay `new` over `bytes` from position `start` on, extending `bytes` when `new` reaches past its end.
-/
def overwrite (bytes : Bytes) (start : Nat) (new : Bytes) : Bytes :=
  bytes.take start ++ new ++ bytes.drop (start + new.length)

theorem length_overwrite {bytes : Bytes} {start : Nat} (new : Bytes) (h : start ≤ bytes.length) :
    (overwrite bytes start new).length = max bytes.length (start + new.length) := by
  simp only [overwrite, List.length_append, List.length_take, List.length_drop]
  omega

theorem eq_nil_of_overwrite {bytes new : Bytes} {start : Nat} (hstart : start ≤ bytes.length)
    (h : overwrite bytes start new = []) : bytes = [] := by
  have hlength := length_overwrite new hstart
  rw [h, List.length_nil] at hlength
  exact List.length_eq_zero_iff.mp (by omega)

theorem overwrite_end (bytes new : Bytes) : overwrite bytes bytes.length new = bytes ++ new := by
  simp [overwrite]

theorem take_overwrite {bytes : Bytes} {start : Nat} (new : Bytes) (h : start ≤ bytes.length) :
    (overwrite bytes start new).take start = bytes.take start := by
  simp [overwrite, Nat.min_eq_left h]

theorem drop_overwrite {bytes : Bytes} {start : Nat} (new : Bytes) (h : start ≤ bytes.length) :
    (overwrite bytes start new).drop (start + new.length) = bytes.drop (start + new.length) := by
  simp [overwrite, List.drop_append, Nat.min_eq_left h]

end Bytes

end MachineFork
