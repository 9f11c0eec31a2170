import MachineFork.Blob.Field
import MachineFork.Proofs.Blob.Puts
import MachineFork.Proofs.Blob.Sections

/-!
This module contains the bytes that fields are written as. Nothing else is read as a field: whatever
a field has been read from is what it is written as again.
-/

namespace MachineFork

namespace Stream

variable {s t u : Stream} {a b : Bytes} {count : Nat}

structure Takes (s : Stream) (taken : Bytes) (t : Stream) : Prop where
  front : taken <+: s.bytes.drop s.cursor
  stream : t = { s with cursor := s.cursor + taken.length }

namespace Takes

theorem refl : s.Takes [] s where
  front := List.nil_prefix
  stream := rfl

theorem trans (hst : s.Takes a t) (htu : t.Takes b u) : s.Takes (a ++ b) u where
  front := by
    have hb := htu.front
    obtain ⟨rest, hrest⟩ := hst.front
    rw [hst.stream, ← List.drop_drop, ← hrest, List.drop_left] at hb
    rw [← hrest, List.prefix_append_right_inj]
    exact hb
  stream := by
    rw [htu.stream, hst.stream, List.length_append, Nat.add_assoc]

theorem of_take (h : s.take count = .ok (a, t)) : s.Takes a t where
  front := by
    obtain ⟨-, -, hbytes, -⟩ := take_eq_ok_iff.mp h
    rw [hbytes]
    apply List.take_prefix
  stream := by
    rw [length_of_take h]
    exact (take_eq_ok_iff.mp h).2.2.2

end Takes

end Stream

namespace Program

variable {σ α β : Type} {state state' : σ} {s t : Stream} {bytes : Bytes}

theorem run_bind_eq_ok {p : Program σ α} {f : α → Program σ β} {value : β}
    (h : (p >>= f).run state s = (.ok value, state', t)) :
    ∃ a state₁ u, p.run state s = (.ok a, state₁, u) ∧
      (f a).run state₁ u = (.ok value, state', t) := by
  rw [run_bind] at h
  rcases hp : p.run state s with ⟨e | a, state₁, u⟩
  · simp [hp] at h
  · rw [hp] at h
    exact ⟨a, state₁, u, rfl, h⟩

theorem run_pure_eq_ok {a value : α}
    (h : (pure a : Program σ α).run state s = (.ok value, state', t)) :
    value = a ∧ state' = state ∧ t = s := by
  have h : (Except.ok a, state, s) = (.ok value, state', t) := h
  simp only [Prod.mk.injEq, Except.ok.injEq] at h
  exact ⟨h.1.symm, h.2.1.symm, h.2.2.symm⟩

/--
Whether a program that succeeds has read just the encoding of its result, and done nothing else.
-/
def Decodes (p : Program σ α) (encode : α → Bytes) : Prop :=
  ∀ state s value state' t, p.run state s = (.ok value, state', t) →
    s.Takes (encode value) t ∧ state' = state

theorem Decodes.map {p : Program σ α} {encode : α → Bytes} {encode' : β → Bytes} {f : α → β}
    (h : p.Decodes encode) (hsame : ∀ a, encode' (f a) = encode a) :
    (p >>= fun a => pure (f a)).Decodes encode' := by
  intro state s value state' t hrun
  obtain ⟨a, _, _, hp, hpure⟩ := run_bind_eq_ok hrun
  obtain ⟨rfl, rfl, rfl⟩ := run_pure_eq_ok hpure
  rw [hsame]
  apply h state s a _ _ hp

theorem run_get_eq_ok {count : Nat} (h : (get count).run state s = (.ok bytes, state', t)) :
    s.take count = .ok (bytes, t) ∧ state' = state := by
  unfold get run at h
  cases htake : s.take count with
  | error e => simp [htake, run] at h
  | ok taken =>
    simp only [htake, run, Prod.mk.injEq, Except.ok.injEq] at h
    obtain ⟨rfl, rfl, rfl⟩ := h
    exact ⟨rfl, rfl⟩

theorem decodes_get (count : Nat) : (get (σ := σ) count).Decodes id := by
  intro state s bytes state' t hrun
  obtain ⟨htake, rfl⟩ := run_get_eq_ok hrun
  exact ⟨.of_take htake, rfl⟩

theorem decodes_getNat (width : Nat) :
    (getNat (σ := σ) width).Decodes (Bytes.littleEndian width) := by
  intro state s value state' t hrun
  obtain ⟨bytes, _, _, hget, hpure⟩ := run_bind_eq_ok hrun
  obtain ⟨rfl, rfl, rfl⟩ := run_pure_eq_ok hpure
  obtain ⟨htake, rfl⟩ := run_get_eq_ok hget
  have hlength := Stream.length_of_take htake
  rw [← hlength, Bytes.littleEndian_ofLittleEndian]
  exact ⟨.of_take htake, rfl⟩

theorem decodes_getU8 : (getU8 (σ := σ)).Decodes fun value => Bytes.littleEndian 1 value.toNat :=
  (decodes_getNat 1).map fun n => Bytes.littleEndian_mod 1 n

theorem decodes_getU16 :
    (getU16 (σ := σ)).Decodes fun value => Bytes.littleEndian 2 value.toNat :=
  (decodes_getNat 2).map fun n => Bytes.littleEndian_mod 2 n

theorem decodes_getU32 :
    (getU32 (σ := σ)).Decodes fun value => Bytes.littleEndian 4 value.toNat :=
  (decodes_getNat 4).map fun n => Bytes.littleEndian_mod 4 n

theorem decodes_getU64 :
    (getU64 (σ := σ)).Decodes fun value => Bytes.littleEndian 8 value.toNat :=
  (decodes_getNat 8).map fun n => Bytes.littleEndian_mod 8 n

theorem decodes_getBool :
    (getBool (σ := σ)).Decodes fun value => Bytes.littleEndian 1 value.toNat := by
  intro state s value state' t hrun
  obtain ⟨byte, _, _, hbyte, hvalue⟩ := run_bind_eq_ok hrun
  have hdecodes := decodes_getU8 _ _ _ _ _ hbyte
  split at hvalue
  · obtain ⟨rfl, rfl, rfl⟩ := run_pure_eq_ok hvalue
    exact hdecodes
  · obtain ⟨rfl, rfl, rfl⟩ := run_pure_eq_ok hvalue
    exact hdecodes
  · simp [run] at hvalue

theorem decodes_getPrefixed (limit : Nat) :
    (getPrefixed (σ := σ) limit).Decodes fun bytes =>
      Bytes.littleEndian 4 bytes.length ++ bytes := by
  intro state s bytes state' t hrun
  obtain ⟨length, _, _, hlength, hbytes⟩ := run_bind_eq_ok hrun
  obtain ⟨htakes, rfl⟩ := decodes_getU32 _ _ _ _ _ hlength
  split at hbytes
  · simp [run] at hbytes
  · obtain ⟨htake, rfl⟩ := run_get_eq_ok hbytes
    dsimp only
    rw [Stream.length_of_take htake]
    exact ⟨htakes.trans (.of_take htake), rfl⟩

theorem length_lt_of_getPrefixed {limit : Nat}
    (h : (getPrefixed limit).run state s = (.ok bytes, state', t)) :
    bytes.length < UInt32.size := by
  obtain ⟨length, _, _, hlength, hbytes⟩ := run_bind_eq_ok h
  split at hbytes
  · simp [run] at hbytes
  · rw [Stream.length_of_take (run_get_eq_ok hbytes).1]
    apply UInt32.toNat_lt

end Program

namespace Field

def encode : Field → Bytes
  | u8 value => Bytes.littleEndian 1 value.toNat
  | u16 value => Bytes.littleEndian 2 value.toNat
  | u32 value => Bytes.littleEndian 4 value.toNat
  | u64 value => Bytes.littleEndian 8 value.toNat
  | bool value => Bytes.littleEndian 1 value.toNat
  | raw bytes => bytes
  | prefixed bytes _ => Bytes.littleEndian 4 bytes.length ++ bytes

def Fits : Field → Prop
  | prefixed bytes _ => bytes.length < UInt32.size
  | _ => True

variable {σ : Type} {state state' : σ} {s t : Stream} {field : Field} {fields : List Field}

theorem putsOnly_put (field : Field) : (field.put (σ := σ)).PutsOnly := by
  cases field with
  | prefixed bytes limit =>
    show (Program.putPrefixed bytes).PutsOnly
    unfold Program.putPrefixed
    split <;> trivial
  | _ => trivial

theorem run_put (hfits : field.Fits) (hcursor : s.cursor ≤ s.length) (state : σ) :
    ∃ t, field.put.run state s = (.ok (), state, t) ∧ s.Lays field.encode t := by
  cases field with
  | prefixed bytes limit =>
    refine ⟨_, ?_, (Stream.Lays.put (Bytes.littleEndian 4 bytes.length)).trans (.put bytes) hcursor⟩
    show (Program.putPrefixed bytes).run state s = _
    unfold Program.putPrefixed
    rw [if_neg (Nat.not_le.mpr hfits)]
    rfl
  | _ => exact ⟨_, rfl, .put _⟩

theorem decodes_get (field : Field) : (field.get (σ := σ)).Decodes encode := by
  cases field with
  | u8 value => exact Program.decodes_getU8.map fun _ => rfl
  | u16 value => exact Program.decodes_getU16.map fun _ => rfl
  | u32 value => exact Program.decodes_getU32.map fun _ => rfl
  | u64 value => exact Program.decodes_getU64.map fun _ => rfl
  | bool value => exact Program.decodes_getBool.map fun _ => rfl
  | raw bytes => exact (Program.decodes_get bytes.length).map fun _ => rfl
  | prefixed bytes limit => exact (Program.decodes_getPrefixed limit).map fun _ => rfl

theorem fits_of_get {value : Field} (h : field.get.run state s = (.ok value, state', t)) :
    value.Fits := by
  cases field with
  | prefixed bytes limit =>
    obtain ⟨read, _, _, hread, hpure⟩ := Program.run_bind_eq_ok h
    obtain ⟨rfl, -, -⟩ := Program.run_pure_eq_ok hpure
    exact Program.length_lt_of_getPrefixed hread
  | _ =>
    obtain ⟨read, _, _, -, hpure⟩ := Program.run_bind_eq_ok h
    obtain ⟨rfl, -, -⟩ := Program.run_pure_eq_ok hpure
    trivial

end Field

end MachineFork
