import MachineFork.Proofs.Blob.Puts
import MachineFork.Proofs.Blob.Sections
import MachineFork.Registry

/-!
This module contains what saving a machine lays down on a blob when its devices only write: the
sections of the devices that have been saved, and a part of one more section if that device fails.
A section that is cut short by a failure, or is too long, keeps a length of zero in its header.
-/

namespace MachineFork

variable {ι : Type} {M : Machine ι} {devices : Devices M} {s t : Stream}

namespace Devices

def payload (M : Machine ι) (i : ι) (state : M.State i) : Except BlobError Unit × Bytes :=
  let (result, _, s) := ((M.model i).save state).run () .empty
  (result, s.bytes)

def layout (devices : Devices M) (id : DeviceId) (i : ι) : Except BlobError Unit × Bytes :=
  if devices.access i = .exclusive then
    (.error (.deviceFailed id "device is mutably borrowed"), [])
  else
    match payload M i (devices.state i) with
    | (.error e, bytes) => (.error e, Section.header id 0 ++ bytes)
    | (.ok (), bytes) =>
      if UInt32.size ≤ bytes.length then
        (.error (.invalidField "device section exceeds 4 GiB"), Section.header id 0 ++ bytes)
      else
        (.ok (), Section.frame id bytes)

theorem layout_eq_ok_iff {id : DeviceId} {i : ι} {bytes : Bytes} :
    devices.layout id i = (.ok (), bytes)
      ↔
    devices.access i ≠ .exclusive ∧ ∃ written, payload M i (devices.state i) = (.ok (), written) ∧
      written.length < UInt32.size ∧ bytes = Section.frame id written := by
  unfold layout
  by_cases hexclusive : devices.access i = .exclusive
  · simp [hexclusive]
  · rw [if_neg hexclusive]
    rcases hpayload : payload M i (devices.state i) with ⟨e | _, written⟩
    · simp
    · by_cases hlarge : UInt32.size ≤ written.length
      · simp [hlarge, Nat.not_lt.mpr hlarge]
      · simp [hexclusive, hlarge, Nat.not_le.mp hlarge, eq_comm]

theorem saveSection_lays (id : DeviceId) {i : ι}
    (hputs : ((M.model i).save (devices.state i)).PutsOnly) (hcursor : s.cursor ≤ s.length) :
    ∃ t, devices.saveSection id i s = ((devices.layout id i).1, t) ∧
      s.Lays (devices.layout id i).2 t := by
  unfold saveSection layout payload
  split
  · exact ⟨s, rfl, .refl⟩
  · have hopen := Stream.openSection_lays id hcursor
    obtain ⟨t, hrun, hlays⟩ := hputs.run_eq () (hopen.cursor_le_length hcursor)
    have hwhole := hopen.trans hlays hcursor
    dsimp only
    rw [hrun]
    cases hresult : (((M.model i).save (devices.state i)).run () .empty).1 with
    | error e => exact ⟨t, rfl, hwhole⟩
    | ok _ =>
      rw [Stream.openSection_start]
      rcases Stream.closeSection_of_lays hcursor hwhole with
        ⟨hlarge, hclose⟩ | ⟨hsmall, u, hclose, hframe⟩
      · dsimp only
        rw [hclose, if_pos hlarge]
        exact ⟨t, rfl, hwhole⟩
      · dsimp only
        rw [hclose, if_neg (Nat.not_le.mpr hsmall)]
        exact ⟨u, rfl, hframe⟩

theorem layout_of_saveSection {id : DeviceId} {i : ι}
    (hputs : ((M.model i).save (devices.state i)).PutsOnly)
    (h : devices.saveSection id i .empty = (.ok (), s)) :
    devices.layout id i = (.ok (), s.bytes) := by
  obtain ⟨t, hsave, hlays⟩ := saveSection_lays (s := .empty) id hputs (Nat.le_refl _)
  rw [h, Prod.mk.injEq] at hsave
  rw [hsave.2, hlays.bytes]
  refine Prod.ext hsave.1.symm ?_
  exact (Bytes.overwrite_end [] _).symm

end Devices

namespace Registry

def layout (devices : Devices M) : List (Descriptor ι) → Except BlobError Unit × Bytes
  | [] => (.ok (), [])
  | descriptor :: rest =>
    match devices.layout descriptor.id descriptor.device with
    | (.error e, bytes) => (.error e, bytes)
    | (.ok (), bytes) => ((layout devices rest).1, bytes ++ (layout devices rest).2)

theorem saveEach_lays {descriptors : List (Descriptor ι)}
    (hputs : ∀ descriptor ∈ descriptors,
      ((M.model descriptor.device).save (devices.state descriptor.device)).PutsOnly)
    (hcursor : s.cursor ≤ s.length) :
    ∃ t, forEach.go (fun descriptor s => devices.saveSection descriptor.id descriptor.device s)
        descriptors s
          =
        ((layout devices descriptors).1, t) ∧
      s.Lays (layout devices descriptors).2 t := by
  induction descriptors generalizing s with
  | nil => exact ⟨s, rfl, .refl⟩
  | cons descriptor rest ih =>
    obtain ⟨t, hsave, hlays⟩ :=
      Devices.saveSection_lays descriptor.id (hputs descriptor (.head _)) hcursor
    rw [forEach.go, hsave, layout]
    rcases hlayout : devices.layout descriptor.id descriptor.device with ⟨e | _, bytes⟩
    · rw [hlayout] at hlays
      exact ⟨t, rfl, hlays⟩
    · rw [hlayout] at hlays
      obtain ⟨u, hrest, hmore⟩ := ih (fun descriptor h => hputs descriptor (.tail _ h))
        (hlays.cursor_le_length hcursor)
      exact ⟨u, hrest, hlays.trans hmore hcursor⟩

theorem layout_cons_eq_ok_iff {descriptor : Descriptor ι} {descriptors : List (Descriptor ι)}
    {bytes : Bytes} :
    layout devices (descriptor :: descriptors) = (.ok (), bytes)
      ↔
    ∃ a b, devices.layout descriptor.id descriptor.device = (.ok (), a) ∧
      layout devices descriptors = (.ok (), b) ∧ bytes = a ++ b := by
  rw [layout]
  rcases devices.layout descriptor.id descriptor.device with ⟨e | _, a⟩
  · simp
  · rcases layout devices descriptors with ⟨result, b⟩
    constructor
    · intro h
      exact ⟨a, b, rfl, Prod.ext (Prod.mk.inj h).1 rfl, (Prod.mk.inj h).2.symm⟩
    · intro h
      obtain ⟨a', b', ha, hb, hbytes⟩ := h
      simp_all

theorem eq_nil_of_layout {descriptors : List (Descriptor ι)}
    (h : layout devices descriptors = (.ok (), [])) : descriptors = [] := by
  cases descriptors with
  | nil => rfl
  | cons descriptor rest =>
    obtain ⟨a, b, hfirst, -, hbytes⟩ := layout_cons_eq_ok_iff.mp h
    obtain ⟨-, written, -, -, rfl⟩ := Devices.layout_eq_ok_iff.mp hfirst
    have hlength := congrArg List.length hbytes
    rw [List.length_append, Section.length_frame, List.length_nil] at hlength
    omega

theorem exists_sections_of_layout {descriptors : List (Descriptor ι)} {bytes : Bytes}
    (h : layout devices descriptors = (.ok (), bytes)) :
    ∃ sections, sections.map Prod.fst = descriptors.map (·.id) ∧
      (∀ part ∈ sections, part.2.length < UInt32.size) ∧ bytes = Section.frames sections := by
  induction descriptors generalizing bytes with
  | nil =>
    simp only [layout, Prod.mk.injEq, true_and] at h
    exact ⟨[], rfl, by simp, h.symm⟩
  | cons descriptor rest ih =>
    obtain ⟨a, b, hfirst, hrest, rfl⟩ := layout_cons_eq_ok_iff.mp h
    obtain ⟨-, written, -, hsmall, rfl⟩ := Devices.layout_eq_ok_iff.mp hfirst
    obtain ⟨sections, hids, hsmalls, rfl⟩ := ih hrest
    refine ⟨(descriptor.id, written) :: sections, ?_, ?_, rfl⟩
    · rw [List.map_cons, List.map_cons, hids]
    · exact List.forall_mem_cons.mpr ⟨hsmall, hsmalls⟩

theorem layout_of_save {registry : Registry ι}
    (hputs : ∀ descriptor ∈ registry.descriptors,
      ((M.model descriptor.device).save (devices.state descriptor.device)).PutsOnly)
    (hcursor : s.cursor = 0) (h : registry.save devices s = (.ok (), t)) :
    layout devices registry.descriptors = (.ok (), t.truncate.bytes) := by
  obtain ⟨u, hsave, hlays⟩ := saveEach_lays hputs (hcursor ▸ Nat.zero_le _)
  unfold save forEach at h
  rw [h, Prod.mk.injEq] at hsave
  obtain ⟨hresult, rfl⟩ := hsave
  refine Prod.ext hresult.symm ?_
  simp only [Stream.truncate, hlays.bytes, hlays.cursor, hcursor, Bytes.overwrite, Nat.zero_add,
    List.take_zero, List.nil_append, List.take_left]

theorem save_fresh {registry : Registry ι}
    (hputs : ∀ descriptor ∈ registry.descriptors,
      ((M.model descriptor.device).save (devices.state descriptor.device)).PutsOnly)
    (capacity : Nat) :
    ∃ t, registry.save devices { capacity } = ((layout devices registry.descriptors).1, t) ∧
      t.bytes = (layout devices registry.descriptors).2 := by
  obtain ⟨t, hsave, hlays⟩ := saveEach_lays (s := { capacity }) hputs (Nat.le_refl _)
  refine ⟨t, hsave, ?_⟩
  rw [hlays.bytes]
  apply Bytes.overwrite_end []

end Registry

end MachineFork
