import MachineFork.Proofs.Device.Typed
import MachineFork.Proofs.Registry.Restore
import MachineFork.Proofs.Registry.Save

/-!
This module contains that there is one blob for one state of a machine whose devices are made of
typed fields. Whatever such a machine can be restored from is, byte for byte, what it writes when it
is saved next.
-/

namespace MachineFork

variable {ι : Type} {M : Machine ι} {devices devices' : Devices M} {id : DeviceId} {i : ι}
  {s t : Stream} {fields : (i : ι) → M.State i → List Field}

theorem Devices.payload_of_typed {state : M.State i} (htyped : (M.model i).Typed (fields i))
    (hfits : ∀ field ∈ fields i state, field.Fits) :
    payload M i state = (.ok (), (fields i state).flatMap Field.encode) := by
  obtain ⟨t, hrun, hlays⟩ := Script.run_putAll (s := .empty) hfits (Nat.le_refl _)
  unfold payload
  rw [htyped.save, hrun]
  dsimp only
  rw [hlays.bytes]
  exact congrArg _ (Bytes.overwrite_end [] _)

theorem Devices.layout_congr (haccess : devices'.access = devices.access)
    (hstate : devices'.state i = devices.state i) :
    devices'.layout id i = devices.layout id i := by
  unfold layout
  rw [haccess, hstate]

variable [DecidableEq ι]

theorem Devices.layout_of_restoreSection (htyped : (M.model i).Typed (fields i))
    (hidle : s.entered = none) (h : devices.restoreSection id i s = (.ok (), devices', t)) :
    ∃ bytes, bytes <+: s.bytes.drop s.cursor ∧ devices'.layout id i = (.ok (), bytes) ∧
      t = { s with cursor := s.cursor + bytes.length } := by
  obtain ⟨hfree, u, state, v, henter, hrun, hleave, rfl⟩ := restoreSection_eq_ok_iff.mp h
  obtain ⟨payload, hsmall, hframe, rfl⟩ := Stream.enter_eq_ok_iff_frame.mp henter
  obtain ⟨hstop, rfl⟩ := Stream.leave_eq_ok_iff.mp hleave
  obtain ⟨htakes, hfits⟩ := (htyped.restore _ _ _ _ hrun).takes
  -- The fields end where the section does, so they are all of its payload.
  have hlength : ((fields i state).flatMap Field.encode).length = payload.length := by
    have := hstop ⟨id, _, _⟩ (by rw [htakes.stream])
    rw [htakes.stream] at this
    dsimp only at this
    omega
  have hpayload : (fields i state).flatMap Field.encode = payload := by
    have hfields := htakes.front
    obtain ⟨rest, hrest⟩ := hframe
    rw [← List.drop_drop, ← hrest, Section.frame, List.append_assoc,
      List.drop_left' (Section.length_header _ _)] at hfields
    rw [List.prefix_iff_eq_take.mp hfields, hlength, List.take_left]
  refine ⟨_, hframe, ?_, ?_⟩
  · rw [layout_eq_ok_iff, access_set, state_set_self, hfree]
    refine ⟨by simp, payload, ?_, hsmall, rfl⟩
    rw [payload_of_typed htyped hfits, hpayload]
  · rw [htakes.stream, hlength, Section.length_frame, hidle]
    simp only [Nat.add_assoc]

namespace Registry

variable {descriptor : Descriptor ι} {descriptors : List (Descriptor ι)}

theorem restoreOne_of_startup (h : descriptor.origin = .startup) :
    restoreOne descriptor devices s
      =
    devices.restoreSection descriptor.id descriptor.device s := by
  unfold restoreOne
  rw [h]

theorem layout_of_restoreEach
    (htyped : ∀ descriptor ∈ descriptors,
      (M.model descriptor.device).Typed (fields descriptor.device))
    (hstartup : ∀ descriptor ∈ descriptors, descriptor.origin = .startup)
    (hdistinct : (descriptors.map (·.device)).Nodup) (hidle : s.entered = none)
    (h : restoreEach descriptors devices s = (.ok (), devices', t)) (hremaining : t.remaining = 0) :
    layout devices' descriptors = (.ok (), s.bytes.drop s.cursor) := by
  induction descriptors generalizing devices s with
  | nil =>
    simp only [restoreEach, forEach.go, Prod.mk.injEq] at h
    obtain ⟨-, -, rfl⟩ := h
    have hread : s.bytes.drop s.cursor = [] := by
      rw [List.drop_eq_nil_iff]
      simp only [Stream.remaining, Stream.readEnd, Stream.length, hidle] at hremaining
      omega
    rw [hread, layout]
  | cons descriptor rest ih =>
    rw [List.forall_mem_cons] at htyped hstartup
    rw [List.map_cons, List.nodup_cons] at hdistinct
    obtain ⟨devices₁, u, hone, hrest⟩ := restoreEach_cons_eq_ok_iff.mp h
    rw [restoreOne_of_startup hstartup.1] at hone
    obtain ⟨bytes, hfront, hlayout, rfl⟩ :=
      Devices.layout_of_restoreSection htyped.1 hidle hone
    have hidle' : { s with cursor := s.cursor + bytes.length }.entered = none := hidle
    have hbehind := ih htyped.2 hstartup.2 hdistinct.2 hidle' hrest
    obtain ⟨haccess, hothers⟩ := others_of_restoreEach hrest
    rw [layout_cons_eq_ok_iff]
    refine ⟨bytes, _, ?_, hbehind, ?_⟩
    · rw [Devices.layout_congr haccess (hothers _ hdistinct.1), hlayout]
    · obtain ⟨more, hmore⟩ := hfront
      rw [← List.drop_drop, ← hmore, List.drop_left]

/--
What a machine can be restored from is just what it writes in its new state, if all its devices are
made of typed fields and were registered at startup.
-/
theorem save_of_restore {registry : Registry ι} {data : Bytes}
    (htyped : ∀ descriptor ∈ registry.descriptors,
      (M.model descriptor.device).Typed (fields descriptor.device))
    (hstartup : ∀ descriptor ∈ registry.descriptors, descriptor.origin = .startup)
    (hdistinct : (registry.descriptors.map (·.device)).Nodup)
    (h : registry.restore devices (.ofBytes data) = (.ok (), devices', t)) (capacity : Nat) :
    ∃ u, registry.save devices' { capacity } = (.ok (), u) ∧ u.bytes = data := by
  obtain ⟨heach, hremaining⟩ := restore_eq_ok_iff.mp h
  have hlayout := layout_of_restoreEach htyped hstartup hdistinct rfl heach hremaining
  have hputs : ∀ descriptor ∈ registry.descriptors,
      ((M.model descriptor.device).save (devices'.state descriptor.device)).PutsOnly := by
    intro descriptor hmem
    rw [(htyped descriptor hmem).save]
    apply Script.putsOnly_putAll
  obtain ⟨u, hsave, hbytes⟩ := save_fresh hputs capacity
  rw [hlayout] at hsave hbytes
  exact ⟨u, hsave, hbytes⟩

/-! A device with a flag and a text, and one with a number. -/

def scripted : Machine Bool where
  State _ := List Field
  model _ := Script.model none none

def scriptedFields (i : Bool) : scripted.State i → List Field :=
  fun fields => fields

def scriptedPair : Registry Bool where
  descriptors :=
    [⟨.singleton ⟨65, 0, 0, 0⟩, false, .startup⟩, ⟨.singleton ⟨66, 0, 0, 0⟩, true, .startup⟩]
  isInitialized := true

def scriptedLive : Devices scripted where
  state i := if i then [.u16 3] else [.bool false, .prefixed [9, 9] 8]

def scriptedBlob : Bytes :=
  Section.frame (.singleton ⟨65, 0, 0, 0⟩) [1, 3, 0, 0, 0, 104, 101, 121]
    ++ Section.frame (.singleton ⟨66, 0, 0, 0⟩) [2, 1]

theorem save_of_restore_scripted :
    (scriptedPair.restore scriptedLive (.ofBytes scriptedBlob)).1 = .ok () ∧
      ∃ u,
        scriptedPair.save (scriptedPair.restore scriptedLive (.ofBytes scriptedBlob)).2.1 .empty
          =
        (.ok (), u) ∧
        u.bytes = scriptedBlob := by
  have hok : (scriptedPair.restore scriptedLive (.ofBytes scriptedBlob)).1 = .ok () :=
    rfl
  have htyped : ∀ descriptor ∈ scriptedPair.descriptors,
      (scripted.model descriptor.device).Typed (scriptedFields descriptor.device) :=
    fun _ _ => Script.typed_model
  refine ⟨hok, ?_⟩
  exact save_of_restore htyped (by decide) (by decide) (Prod.ext hok rfl) 0

end Registry

end MachineFork
