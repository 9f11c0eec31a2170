import MachineFork.Proofs.Blob.Gets
import MachineFork.Proofs.Registry.Restore
import MachineFork.Proofs.Registry.Save

/-!
This module contains the way of device states through a blob. What a machine of faithful devices lays
down when it is saved brings the devices back to the states they were saved in, and a device that the
blob knows nothing of goes back to what it was when it was registered.
-/

namespace MachineFork

/--
Whether a device only writes when it is saved and only reads when it is restored, and comes back from
what it wrote in a state to that state, whatever its own state is by then.
-/
structure DeviceModel.Faithful {σ : Type} (model : DeviceModel σ) : Prop where
  puts : ∀ state, (model.save state).PutsOnly
  gets : ∀ state, (model.restore state).GetsOnly
  restores : ∀ saved live id s, (model.save saved).run () .empty = (.ok (), (), s) →
    ∃ t, (model.restore live).run live
          { bytes := s.bytes, entered := some ⟨id, 0, s.length⟩ }
            =
          (.ok (), saved, t) ∧
      t.cursor = s.length

variable {ι : Type} {M : Machine ι} {devices devices' : Devices M} {id : DeviceId} {i : ι}
  {s t : Stream} {bytes more : Bytes}

def Devices.ofState (state : (i : ι) → M.State i) : Devices M where
  state := state

theorem Devices.layout_ofState_of_ok (h : devices.layout id i = (.ok (), bytes)) :
    (ofState devices.state).layout id i = (.ok (), bytes) := by
  obtain ⟨-, hwritten⟩ := layout_eq_ok_iff.mp h
  exact layout_eq_ok_iff.mpr ⟨by simp [ofState], hwritten⟩

theorem Registry.layout_ofState_of_ok {descriptors : List (Descriptor ι)}
    (h : layout devices descriptors = (.ok (), bytes)) :
    layout (.ofState devices.state) descriptors = (.ok (), bytes) := by
  induction descriptors generalizing bytes with
  | nil => exact h
  | cons descriptor rest ih =>
    obtain ⟨a, b, hfirst, hrest, rfl⟩ := layout_cons_eq_ok_iff.mp h
    exact layout_cons_eq_ok_iff.mpr ⟨a, b, Devices.layout_ofState_of_ok hfirst, ih hrest, rfl⟩

theorem Devices.layout_ofState {saved : (i : ι) → M.State i}
    (h : (ofState saved).layout id i = (.ok (), bytes)) :
    ∃ s, ((M.model i).save (saved i)).run () .empty = (.ok (), (), s) ∧
      s.length < UInt32.size ∧ bytes = Section.frame id s.bytes := by
  obtain ⟨-, written, hpayload, hsmall, hbytes⟩ := layout_eq_ok_iff.mp h
  unfold payload at hpayload
  obtain ⟨hresult, rfl⟩ := Prod.mk.inj hpayload
  exact ⟨_, Prod.ext hresult rfl, hsmall, hbytes⟩

theorem DeviceModel.Faithful.run_of_holds {σ : Type} {model : DeviceModel σ}
    (h : model.Faithful) {saved : σ} {u : Stream}
    (hsave : (model.save saved).run () .empty = (.ok (), (), u)) (live : σ)
    (hs : s.Holds id u.bytes) :
    (model.restore live).run live s
      =
    (.ok (), saved, { s with cursor := s.cursor + u.length }) := by
  obtain ⟨result, state, n, hrun⟩ := (h.gets live).run_of_holds id u.bytes live
  obtain ⟨v, hrestore, hcursor⟩ := h.restores saved live id u hsave
  -- On the payload alone the same bytes are left, so the device ends the same way there.
  have hpayload : Stream.Holds { bytes := u.bytes, entered := some ⟨id, 0, u.length⟩ } id u.bytes :=
    .payload id u.bytes
  rw [hrun _ hpayload] at hrestore
  simp only [Prod.mk.injEq] at hrestore
  obtain ⟨rfl, rfl, rfl⟩ := hrestore
  rw [hrun s hs, ← hcursor]
  simp

variable [DecidableEq ι]

theorem Devices.restoreSection_of_layout {saved : (i : ι) → M.State i}
    (hfaithful : (M.model i).Faithful) (h : (ofState saved).layout id i = (.ok (), bytes))
    (hfree : devices.access i = .free) (hbytes : s.bytes.drop s.cursor = bytes ++ more) :
    devices.restoreSection id i s
      =
    (.ok (), devices.set i (saved i),
      { s with cursor := s.cursor + bytes.length, entered := none }) := by
  obtain ⟨u, hsave, hsmall, rfl⟩ := layout_ofState h
  have hframe : Section.frame id u.bytes <+: s.bytes.drop s.cursor := by
    rw [hbytes]
    apply List.prefix_append
  have henter := Stream.enter_eq_ok_iff_frame.mpr ⟨_, hsmall, hframe, rfl⟩
  have hrun := hfaithful.run_of_holds hsave (devices.state i) (Stream.holds_of_frame hframe)
  rw [restoreSection_eq_ok_iff]
  refine ⟨hfree, _, _, _, henter, hrun, ?_, rfl⟩
  simp [Stream.leave, Stream.length, Nat.add_assoc]

def Devices.setEach (devices : Devices M) (descriptors : List (Descriptor ι))
    (state : Descriptor ι → (i : ι) → M.State i) : Devices M :=
  descriptors.foldl
    (fun devices descriptor => devices.set descriptor.device (state descriptor descriptor.device))
    devices

namespace Devices

variable {descriptor : Descriptor ι} {descriptors : List (Descriptor ι)}
  {state : Descriptor ι → (i : ι) → M.State i}

@[simp]
theorem access_setEach : (devices.setEach descriptors state).access = devices.access := by
  induction descriptors generalizing devices with
  | nil => rfl
  | cons descriptor rest ih => exact ih

theorem state_setEach_of_not_mem (h : ∀ descriptor ∈ descriptors, descriptor.device ≠ i) :
    (devices.setEach descriptors state).state i = devices.state i := by
  induction descriptors generalizing devices with
  | nil => rfl
  | cons descriptor rest ih =>
    have hne := h descriptor (.head _)
    have hrest : ((devices.set descriptor.device (state descriptor descriptor.device)).setEach
        rest state).state i = _ :=
      ih fun descriptor hmem => h descriptor (.tail _ hmem)
    rw [state_set_of_ne _ _ hne.symm] at hrest
    exact hrest

theorem state_setEach_of_mem (hnodup : (descriptors.map (·.device)).Nodup)
    (h : descriptor ∈ descriptors) :
    (devices.setEach descriptors state).state descriptor.device
      =
    state descriptor descriptor.device := by
  induction descriptors generalizing devices with
  | nil => simp at h
  | cons first rest ih =>
    obtain ⟨hfirst, hnodup⟩ := List.nodup_cons.mp hnodup
    cases h with
    | head =>
      have hrest : ((devices.set descriptor.device (state descriptor descriptor.device)).setEach
          rest state).state descriptor.device = _ :=
        state_setEach_of_not_mem fun other hmem heq =>
          hfirst (List.mem_map.mpr ⟨other, hmem, heq⟩)
      rw [state_set_self] at hrest
      exact hrest
    | tail _ h => exact ih hnodup h

end Devices

namespace Registry

variable {descriptor : Descriptor ι} {descriptors : List (Descriptor ι)}

theorem restoreEach_append (others : List (Descriptor ι))
    (h : restoreEach descriptors devices s = (.ok (), devices', t)) :
    restoreEach (descriptors ++ others) devices s = restoreEach others devices' t := by
  induction descriptors generalizing devices s with
  | nil =>
    simp only [restoreEach, forEach.go, Prod.mk.injEq, true_and] at h
    rw [List.nil_append, h.1, h.2]
  | cons descriptor rest ih =>
    obtain ⟨devices₁, u, hone, hrest⟩ := restoreEach_cons_eq_ok_iff.mp h
    rw [← ih hrest]
    simp only [restoreEach, List.cons_append, forEach.go, hone]

theorem restoreOne_of_remaining (h : s.remaining ≠ 0) :
    restoreOne descriptor devices s = devices.restoreSection descriptor.id descriptor.device s := by
  unfold restoreOne
  split
  · rw [if_neg h]
  · rfl

theorem restoreEach_of_layout {saved : (i : ι) → M.State i}
    (hfaithful : ∀ i, (M.model i).Faithful)
    (h : layout (.ofState saved) descriptors = (.ok (), bytes))
    (hfree : ∀ i, devices.access i = .free) (hidle : s.entered = none)
    (hcursor : s.cursor ≤ s.length) (hbytes : s.bytes.drop s.cursor = bytes ++ more) :
    restoreEach descriptors devices s
      =
    (.ok (), devices.setEach descriptors fun _ => saved,
      { s with cursor := s.cursor + bytes.length }) := by
  induction descriptors generalizing devices s bytes with
  | nil =>
    simp only [layout, Prod.mk.injEq, true_and] at h
    subst h
    rfl
  | cons descriptor rest ih =>
    obtain ⟨a, b, hfirst, hrest, rfl⟩ := layout_cons_eq_ok_iff.mp h
    rw [List.append_assoc] at hbytes
    obtain ⟨u, -, -, ha⟩ := Devices.layout_ofState hfirst
    have hlength : s.length - s.cursor = a.length + (b.length + more.length) := by
      rw [← List.length_append, ← List.length_append, ← hbytes, List.length_drop]
      rfl
    -- A header is left at least, so a device registered late does not go back to its registration.
    have hremaining : s.remaining ≠ 0 := by
      have : a.length = 10 + u.bytes.length := by rw [ha, Section.length_frame]
      simp only [Stream.remaining, Stream.readEnd, hidle]
      omega
    have hone : restoreOne descriptor devices s
        = (.ok (), devices.set descriptor.device (saved descriptor.device),
            { s with cursor := s.cursor + a.length }) := by
      rw [restoreOne_of_remaining hremaining]
      rw [Devices.restoreSection_of_layout (hfaithful _) hfirst (hfree _) hbytes]
      rw [hidle]
    have hmore : restoreEach rest (devices.set descriptor.device (saved descriptor.device))
        { s with cursor := s.cursor + a.length } = _ :=
      ih hrest hfree hidle (by simp only [Stream.length] at *; omega)
        (by rw [← List.drop_drop, hbytes, List.drop_left])
    have heach := restoreEach_cons_eq_ok_iff.mpr ⟨_, _, hone, hmore⟩
    rw [heach, List.length_append, Nat.add_assoc]
    rfl

theorem restoreEach_of_registered {registered : DeviceId → (i : ι) → M.State i}
    (hfaithful : ∀ i, (M.model i).Faithful)
    (h : ∀ descriptor ∈ descriptors, ∃ u, descriptor.origin = .custom u ∧
      (Devices.ofState (registered descriptor.id)).layout descriptor.id descriptor.device
        =
      (.ok (), u.bytes))
    (hfree : ∀ i, devices.access i = .free) (hremaining : s.remaining = 0) :
    restoreEach descriptors devices s
      =
    (.ok (), devices.setEach descriptors fun descriptor => registered descriptor.id, s) := by
  induction descriptors generalizing devices with
  | nil => rfl
  | cons descriptor rest ih =>
    obtain ⟨u, horigin, hlayout⟩ := h descriptor (.head _)
    have hone : restoreOne descriptor devices s
        = (.ok (), devices.set descriptor.device
            (registered descriptor.id descriptor.device), s) := by
      unfold restoreOne
      rw [horigin]
      dsimp only
      rw [if_pos hremaining]
      rw [Devices.restoreSection_of_layout (hfaithful _) hlayout (hfree _)
        (List.append_nil _).symm]
    exact restoreEach_cons_eq_ok_iff.mpr
      ⟨_, _, hone, ih (fun descriptor hmem => h descriptor (.tail _ hmem)) hfree⟩

theorem restore_of_layout {registry : Registry ι} {late : List (Descriptor ι)}
    {saved : (i : ι) → M.State i} {registered : DeviceId → (i : ι) → M.State i}
    (hfaithful : ∀ i, (M.model i).Faithful) (hall : registry.descriptors = descriptors ++ late)
    (hsaved : layout (.ofState saved) descriptors = (.ok (), s.bytes))
    (hregistered : ∀ descriptor ∈ late, ∃ u, descriptor.origin = .custom u ∧
      (Devices.ofState (registered descriptor.id)).layout descriptor.id descriptor.device
        =
      (.ok (), u.bytes))
    (hnodup : (registry.descriptors.map (·.device)).Nodup) (hfree : ∀ i, devices.access i = .free)
    (hidle : s.entered = none) (hcursor : s.cursor = 0) :
    ∃ devices' t, registry.restore devices s = (.ok (), devices', t) ∧
      (∀ descriptor ∈ descriptors,
        devices'.state descriptor.device = saved descriptor.device) ∧
      ∀ descriptor ∈ late,
        devices'.state descriptor.device = registered descriptor.id descriptor.device := by
  have hwhole : s.bytes.drop s.cursor = s.bytes ++ [] := by
    rw [hcursor, List.append_nil]
    rfl
  have hblob := restoreEach_of_layout hfaithful hsaved hfree hidle (hcursor ▸ Nat.zero_le _) hwhole
  have hread : Stream.remaining { s with cursor := s.cursor + s.bytes.length } = 0 := by
    simp [Stream.remaining, Stream.readEnd, hidle, Stream.length, hcursor]
  have hlate : restoreEach late (devices.setEach descriptors fun _ => saved) _ = _ :=
    restoreEach_of_registered hfaithful hregistered (by simpa using hfree) hread
  have heach := restoreEach_append late hblob
  rw [hlate, ← hall] at heach
  rw [hall, List.map_append, List.nodup_append] at hnodup
  obtain ⟨hearlyNodup, hlateNodup, hdisjoint⟩ := hnodup
  refine ⟨_, _, restore_eq_ok_iff.mpr ⟨heach, hread⟩, ?_, ?_⟩
  · intro descriptor hmem
    rw [Devices.state_setEach_of_not_mem]
    · exact Devices.state_setEach_of_mem hearlyNodup hmem
    · intro other hother heq
      exact hdisjoint _ (List.mem_map_of_mem hmem) _ (List.mem_map_of_mem hother) heq.symm
  · intro descriptor hmem
    exact Devices.state_setEach_of_mem hlateNodup hmem

end Registry

/-! Whatever comes of a restore, devices that only read leave the blob as it is. -/

namespace Registry

omit [DecidableEq ι] in
theorem forEach.go_preserves {τ : Type} (visit : Descriptor ι → τ → Except BlobError Unit × τ)
    {P : τ → Prop} (hvisit : ∀ descriptor state, P state → P (visit descriptor state).2)
    (descriptors : List (Descriptor ι)) (state : τ) (h : P state) :
    P (forEach.go visit descriptors state).2 := by
  induction descriptors generalizing state with
  | nil => exact h
  | cons descriptor rest ih =>
    have hone := hvisit descriptor state h
    rw [forEach.go]
    split
    · next hvisited =>
      rw [hvisited] at hone
      exact hone
    · next hvisited =>
      rw [hvisited] at hone
      exact ih _ hone

theorem restoreSection_preserves (hgets : ∀ state, ((M.model i).restore state).GetsOnly) :
    (devices.restoreSection id i s).2.1.access = devices.access ∧
      (devices.restoreSection id i s).2.2.reset = s.reset := by
  unfold Devices.restoreSection
  split
  · exact ⟨rfl, rfl⟩
  · have henter := s.reset_enter id
    split
    · next hentered =>
      rw [hentered] at henter
      exact ⟨rfl, henter⟩
    · next u hentered =>
      rw [hentered] at henter
      have hrun := (hgets (devices.state i)).reset_run (devices.state i) u
      dsimp only
      split
      · exact ⟨rfl, (Stream.reset_leave _).trans (hrun.trans henter)⟩
      · exact ⟨rfl, (Stream.reset_leave _).trans (hrun.trans henter)⟩

theorem restoreOne_preserves
    (hgets : ∀ state, ((M.model descriptor.device).restore state).GetsOnly) :
    (restoreOne descriptor devices s).2.1.access = devices.access ∧
      (restoreOne descriptor devices s).2.2.reset = s.reset := by
  unfold restoreOne
  split
  · split
    · exact ⟨(restoreSection_preserves hgets).1, rfl⟩
    · exact restoreSection_preserves hgets
  · exact restoreSection_preserves hgets

theorem restore_preserves (registry : Registry ι) (devices : Devices M) (s : Stream)
    (hgets : ∀ i state, ((M.model i).restore state).GetsOnly) :
    (registry.restore devices s).2.1.access = devices.access ∧
      (registry.restore devices s).2.2.reset = s.reset := by
  have heach := forEach.go_preserves
    (fun descriptor (state : Devices M × Stream) => restoreOne descriptor state.1 state.2)
    (P := fun state => state.1.access = devices.access ∧ state.2.reset = s.reset)
    (fun descriptor state h =>
      have hone := restoreOne_preserves (s := state.2) (hgets descriptor.device)
      ⟨hone.1.trans h.1, hone.2.trans h.2⟩)
    registry.descriptors (devices, s) ⟨rfl, rfl⟩
  unfold restore forEach
  split
  · next hrestored =>
    rw [hrestored] at heach
    exact heach
  · next hrestored =>
    rw [hrestored] at heach
    split <;> exact heach

end Registry

/-! Two counters of one byte are faithful devices. -/

def counters : Machine Bool where
  State _ := UInt8
  model _ :=
    { save := .putU8
      restore := fun _ => do
        let value ← .getU8
        .assign value (.done ()) }

instance (i : Bool) : DecidableEq (counters.State i) :=
  inferInstanceAs (DecidableEq UInt8)

def counterState (first second : UInt8) (i : Bool) : counters.State i :=
  if i then second else first

theorem faithful_counters (i : Bool) : (counters.model i).Faithful where
  puts _ := trivial
  gets _ := by
    intro bytes
    cases bytes <;> trivial
  restores := by
    intro (saved : UInt8) (live : UInt8) id s hsave
    have hput : ((counters.model i).save saved).run () .empty
        = (.ok (), (), Stream.empty.put [UInt8.ofNat saved.toNat]) := rfl
    rw [hput, UInt8.ofNat_toNat] at hsave
    obtain rfl := (Prod.mk.inj (Prod.mk.inj hsave).2).2
    have hget : ((counters.model i).restore live).run live
        { bytes := [saved], entered := some ⟨id, 0, 1⟩ }
          = (.ok (), UInt8.ofNat (saved.toNat + 256 * 0),
            { bytes := [saved], cursor := 1, entered := some ⟨id, 0, 1⟩ }) := rfl
    rw [Nat.mul_zero, Nat.add_zero, UInt8.ofNat_toNat] at hget
    exact ⟨_, hget, rfl⟩

end MachineFork
