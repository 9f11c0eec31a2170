import MachineFork.Blob.Section
import MachineFork.Proofs.Blob.Streams

/-!
This module contains when a section can be entered and when it can be left, and how the sections of a
blob are told apart.
-/

namespace MachineFork

theorem Kind.toBytes_ofBytes {bytes : Bytes} (h : bytes.length = 4) :
    (ofBytes bytes).toBytes = bytes := by
  match bytes, h with
  | [_, _, _, _], _ => rfl

theorem Section.header_of_parts {kind number size : Bytes} (hkind : kind.length = 4)
    (hnumber : number.length = 2) (hsize : size.length = 4) :
    header ⟨Kind.ofBytes kind, .ofNat (Bytes.ofLittleEndian number)⟩ (Bytes.ofLittleEndian size)
      =
    kind ++ number ++ size := by
  have hnumberLt := Bytes.ofLittleEndian_lt number
  have hnumberBytes := Bytes.littleEndian_ofLittleEndian number
  have hsizeBytes := Bytes.littleEndian_ofLittleEndian size
  rw [hnumber] at hnumberLt hnumberBytes
  rw [hsize] at hsizeBytes
  unfold header
  dsimp only
  rw [UInt16.toNat_ofNat_of_lt' hnumberLt]
  rw [Kind.toBytes_ofBytes hkind, hnumberBytes, hsizeBytes]

namespace Stream

variable {s t : Stream} {id : DeviceId}

/-! Entering a section reads its header and nothing else. -/

private theorem take_header {length : Nat} {rest : Bytes} (hentered : s.entered = none)
    (hcursor : s.cursor ≤ s.length)
    (h : s.bytes.drop s.cursor = Section.header id length ++ rest) :
    s.take 4 = .ok (id.kind.toBytes, { s with cursor := s.cursor + 4 }) ∧
      { s with cursor := s.cursor + 4 }.take 2
        =
      .ok (Bytes.littleEndian 2 id.number.toNat, { s with cursor := s.cursor + 6 }) ∧
      { s with cursor := s.cursor + 6 }.take 4
        =
      .ok (Bytes.littleEndian 4 length, { s with cursor := s.cursor + 10 }) := by
  simp only [Section.header, List.append_assoc] at h
  have hlength := congrArg List.length h
  simp only [List.length_drop, List.length_append, Kind.length_toBytes,
    Bytes.length_littleEndian] at hlength
  have hnumber : s.bytes.drop (s.cursor + 4)
      = Bytes.littleEndian 2 id.number.toNat ++ (Bytes.littleEndian 4 length ++ rest) := by
    rw [← List.drop_drop, h, List.drop_left' (by simp)]
  have hsize : s.bytes.drop (s.cursor + 6) = Bytes.littleEndian 4 length ++ rest := by
    rw [show s.cursor + 6 = s.cursor + 4 + 2 from rfl, ← List.drop_drop, hnumber,
      List.drop_left' (by simp)]
  refine ⟨?_, ?_, ?_⟩
  · exact take_of_drop hentered h hcursor
  · have := take_of_drop (s := { s with cursor := s.cursor + 4 }) hentered hnumber
      (by simp only [Stream.length]; omega)
    simpa using this
  · have := take_of_drop (s := { s with cursor := s.cursor + 6 }) hentered hsize
      (by simp only [Stream.length]; omega)
    simpa using this

theorem enter_of_header {length : Nat} (hlt : length < UInt32.size)
    (hlength : s.cursor + 10 + length ≤ s.length)
    (h : (s.bytes.drop s.cursor).take 10 = Section.header id length) :
    s.enter id
      =
    (.ok (), { s with
      cursor := s.cursor + 10
      entered := some ⟨id, s.cursor + 10, s.cursor + 10 + length⟩ }) := by
  have hsplit : s.bytes.drop s.cursor
      = Section.header id length ++ (s.bytes.drop s.cursor).drop 10 := by
    rw [← h, List.take_append_drop]
  obtain ⟨hkind, hnumber, hsize⟩ :=
    take_header (s := { s with entered := none }) rfl (by simp only [Stream.length] at *; omega)
      hsplit
  have hnumber' : Bytes.ofLittleEndian (Bytes.littleEndian 2 id.number.toNat) = id.number.toNat :=
    Bytes.ofLittleEndian_littleEndian id.number.toNat_lt
  have hsize' : Bytes.ofLittleEndian (Bytes.littleEndian 4 length) = length :=
    Bytes.ofLittleEndian_littleEndian hlt
  unfold enter
  simp only [hkind, hnumber, hsize, hnumber', hsize', Kind.ofBytes_toBytes, UInt16.ofNat_toNat]
  rw [if_neg (by simp)]
  rw [if_neg (by simp only [remaining, readEnd, Stream.length] at *; omega)]

private theorem take_ten (bytes : Bytes) (start : Nat) :
    (bytes.drop start).take 10
      =
    (bytes.drop start).take 4 ++ (bytes.drop (start + 4)).take 2
      ++ (bytes.drop (start + 6)).take 4 := by
  rw [← List.drop_drop, ← List.take_add]
  rw [← List.drop_drop, ← List.take_add]

theorem enter_eq_ok_iff :
    s.enter id = (.ok (), t)
      ↔
    ∃ length, length < UInt32.size ∧ s.cursor + 10 + length ≤ s.length ∧
      (s.bytes.drop s.cursor).take 10 = Section.header id length ∧
      t = { s with
            cursor := s.cursor + 10
            entered := some ⟨id, s.cursor + 10, s.cursor + 10 + length⟩ } := by
  constructor
  · intro h
    unfold enter at h
    dsimp only at h
    split at h
    · simp at h
    · next kind s₁ hkind =>
      split at h
      · simp at h
      · next number s₂ hnumber =>
        split at h
        · simp at h
        · next hfound =>
          split at h
          · simp at h
          · next size s₃ hsize =>
            split at h
            · simp at h
            · next hremaining =>
              obtain ⟨-, -, hkindEq, rfl⟩ := take_eq_ok_iff.mp hkind
              obtain ⟨-, -, hnumberEq, rfl⟩ := take_eq_ok_iff.mp hnumber
              obtain ⟨-, hlength, hsizeEq, rfl⟩ := take_eq_ok_iff.mp hsize
              have hkind4 : kind.length = 4 := length_of_take hkind
              have hnumber2 : number.length = 2 := length_of_take hnumber
              have hsize4 : size.length = 4 := length_of_take hsize
              refine ⟨Bytes.ofLittleEndian size, ?_, ?_, ?_, (Prod.mk.inj h).2.symm⟩
              · have := Bytes.ofLittleEndian_lt size
                rwa [hsize4] at this
              · simp only [remaining, readEnd, Stream.length] at hremaining hlength ⊢
                omega
              · rw [← Decidable.not_not.mp hfound]
                rw [Section.header_of_parts hkind4 hnumber2 hsize4]
                rw [hkindEq, hnumberEq, hsizeEq]
                exact take_ten s.bytes s.cursor
  · intro h
    obtain ⟨length, hlt, hlength, hheader, ht⟩ := h
    rw [ht]
    exact enter_of_header hlt hlength hheader

theorem closeSection_eq_ok_iff {start : Nat} :
    s.closeSection start = .ok t
      ↔
    start ≤ s.cursor ∧ s.cursor - start < UInt32.size ∧
      t = { s with
            bytes := s.bytes.overwrite (start - 4) (Bytes.littleEndian 4 (s.cursor - start)) } := by
  unfold closeSection
  constructor
  · intro h
    split at h
    · contradiction
    · split at h
      · contradiction
      · cases h
        refine ⟨by omega, by omega, rfl⟩
  · intro h
    obtain ⟨hstart, hsmall, rfl⟩ := h
    rw [if_neg (by omega)]
    rw [if_neg (by omega)]

theorem leave_eq_ok_iff :
    s.leave = (.ok (), t)
      ↔
    (∀ entered, s.entered = some entered → s.cursor = entered.stop) ∧
      t = { s with entered := none } := by
  obtain ⟨sBytes, cursor, capacity, entered⟩ := s
  cases entered with
  | none => simp [leave, eq_comm]
  | some entered =>
    simp only [leave, Option.some.injEq, forall_eq']
    split
    · next h => simp [h, eq_comm]
    · next h => simp [h]

/-! Neither changes more of the stream than where it is read. -/

@[simp]
theorem reset_enter (id : DeviceId) (s : Stream) : (s.enter id).2.reset = s.reset := by
  unfold enter
  dsimp only
  split
  · rfl
  · next kind s₁ hkind =>
    have hreset := reset_take hkind
    split
    · exact hreset
    · next number s₂ hnumber =>
      have hreset := (reset_take hnumber).trans hreset
      split
      · exact hreset
      · split
        · exact hreset
        · next size s₃ hsize =>
          have hreset := (reset_take hsize).trans hreset
          split <;> exact hreset

@[simp]
theorem reset_leave (s : Stream) : s.leave.2.reset = s.reset := by
  unfold leave
  split
  · rfl
  · dsimp only
    split <;> rfl

end Stream

/-! Sections that lie one behind the other can be told apart. -/

theorem Bytes.littleEndian_inj (width : Nat) {m n : Nat} (hm : m < UInt8.size.pow width)
    (hn : n < UInt8.size.pow width) (h : littleEndian width m = littleEndian width n) : m = n := by
  rw [← ofLittleEndian_littleEndian hm, h, ofLittleEndian_littleEndian hn]

theorem Bytes.littleEndian_mod (width n : Nat) :
    littleEndian width (n % UInt8.size.pow width) = littleEndian width n := by
  induction width generalizing n with
  | zero => rfl
  | succ width ih =>
    have hpow : UInt8.size.pow (width + 1) = 256 * UInt8.size.pow width := Nat.mul_comm _ 256
    have hdiv : n % UInt8.size.pow (width + 1) / 256 = n / 256 % UInt8.size.pow width := by
      rw [hpow, Nat.mod_mul_right_div_self]
    have hmod : UInt8.ofNat (n % UInt8.size.pow (width + 1)) = UInt8.ofNat n := by
      apply UInt8.toNat_inj.mp
      rw [hpow, UInt8.toNat_ofNat', UInt8.toNat_ofNat']
      apply Nat.mod_mul_right_mod
    rw [littleEndian, hdiv, hmod, ih]
    rfl

namespace Section

variable {a b : DeviceId} {payload payload' rest rest' : Bytes} {m n : Nat}

theorem header_inj (hm : m < UInt32.size) (hn : n < UInt32.size) (h : header a m = header b n) :
    a = b ∧ m = n := by
  unfold header at h
  obtain ⟨hdevice, hlength⟩ := List.append_inj h (by simp)
  obtain ⟨hkind, hnumber⟩ := List.append_inj hdevice (by simp)
  have hkindEq : a.kind = b.kind := by
    rw [← Kind.ofBytes_toBytes a.kind, hkind, Kind.ofBytes_toBytes]
  have hnumberEq : a.number = b.number :=
    UInt16.toNat_inj.mp (Bytes.littleEndian_inj 2 a.number.toNat_lt b.number.toNat_lt hnumber)
  refine ⟨?_, Bytes.littleEndian_inj 4 hm hn hlength⟩
  cases a
  cases b
  simp_all

theorem frame_append_inj (hm : payload.length < UInt32.size) (hn : payload'.length < UInt32.size)
    (h : frame a payload ++ rest = frame b payload' ++ rest') :
    a = b ∧ payload = payload' ∧ rest = rest' := by
  unfold frame at h
  rw [List.append_assoc, List.append_assoc] at h
  obtain ⟨hheader, hbehind⟩ := List.append_inj h (by simp)
  obtain ⟨hdevice, hlength⟩ := header_inj hm hn hheader
  obtain ⟨hpayload, hrest⟩ := List.append_inj hbehind hlength
  exact ⟨hdevice, hpayload, hrest⟩

def frames (sections : List (DeviceId × Bytes)) : Bytes :=
  sections.flatMap fun (device, payload) => frame device payload

theorem frames_inj {sections sections' : List (DeviceId × Bytes)}
    (h : frames sections = frames sections')
    (hsmall : ∀ part ∈ sections, part.2.length < UInt32.size)
    (hsmall' : ∀ part ∈ sections', part.2.length < UInt32.size) : sections = sections' := by
  unfold frames at h
  induction sections generalizing sections' with
  | nil =>
    cases sections' with
    | nil => rfl
    | cons part rest =>
      have := congrArg List.length h
      simp at this
      omega
  | cons part rest ih =>
    cases sections' with
    | nil =>
      have := congrArg List.length h
      simp at this
    | cons part' rest' =>
      rw [List.flatMap_cons, List.flatMap_cons] at h
      rw [List.forall_mem_cons] at hsmall hsmall'
      obtain ⟨hdevice, hpayload, hmore⟩ := frame_append_inj hsmall.1 hsmall'.1 h
      rw [Prod.ext hdevice hpayload, ih hmore hsmall.2 hsmall'.2]

end Section

namespace Stream

variable {s t : Stream} {id : DeviceId}

theorem enter_eq_ok_iff_frame :
    s.enter id = (.ok (), t)
      ↔
    ∃ payload, payload.length < UInt32.size ∧
      Section.frame id payload <+: s.bytes.drop s.cursor ∧
      t = { s with
            cursor := s.cursor + 10
            entered := some ⟨id, s.cursor + 10, s.cursor + 10 + payload.length⟩ } := by
  rw [enter_eq_ok_iff]
  constructor
  · intro h
    obtain ⟨length, hlt, hlength, hheader, ht⟩ := h
    let payload := (s.bytes.drop (s.cursor + 10)).take length
    have hpayload : payload.length = length := by
      simp only [payload, List.length_take, List.length_drop, Stream.length] at hlength ⊢
      omega
    refine ⟨payload, by omega, ?_, by rw [ht, hpayload]⟩
    rw [Section.frame, hpayload, ← hheader]
    rw [show payload = ((s.bytes.drop s.cursor).drop 10).take length by
      rw [List.drop_drop]]
    rw [← List.take_add]
    apply List.take_prefix
  · intro h
    obtain ⟨payload, hlt, hframe, ht⟩ := h
    refine ⟨payload.length, hlt, ?_, ?_, ht⟩
    · have := hframe.length_le
      simp only [Section.length_frame, List.length_drop, Stream.length] at this ⊢
      omega
    · obtain ⟨rest, hrest⟩ := hframe
      rw [← hrest, Section.frame, List.append_assoc]
      apply List.take_left'
      apply Section.length_header

end Stream

end MachineFork
