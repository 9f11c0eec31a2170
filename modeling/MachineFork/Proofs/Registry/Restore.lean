import MachineFork.Proofs.Blob.Sections
import MachineFork.Registry

/-!
This module contains what it takes for devices to be restored: for a single device from its section,
and for all of them one after the other.
-/

namespace MachineFork

variable {ι : Type} {M : Machine ι} [DecidableEq ι]

theorem Devices.restoreSection_eq_ok_iff {devices devices' : Devices M} {id : DeviceId} {i : ι}
    {s t : Stream} :
    devices.restoreSection id i s = (.ok (), devices', t)
      ↔
    devices.access i = .free ∧ ∃ u state v,
      s.enter id = (.ok (), u) ∧
        ((M.model i).restore (devices.state i)).run (devices.state i) u = (.ok (), state, v) ∧
        v.leave = (.ok (), t) ∧ devices' = devices.set i state := by
  unfold restoreSection
  constructor
  · intro h
    split at h
    · simp at h
    · next hfree =>
      split at h
      · simp at h
      · next u henter =>
        split at h
        next restored state v hrun =>
        cases restored with
        | error e => simp at h
        | ok restored =>
          simp only [Prod.mk.injEq] at h
          exact ⟨Decidable.not_not.mp hfree, u, state, v, henter, hrun, Prod.ext h.1 h.2.2,
            h.2.1.symm⟩
  · intro h
    obtain ⟨hfree, u, state, v, henter, hrun, hleave, hdevices⟩ := h
    rw [if_neg (by simp [hfree])]
    simp only [henter, hrun, hleave, hdevices]

namespace Registry

variable {devices devices' : Devices M} {descriptor : Descriptor ι}
  {descriptors : List (Descriptor ι)} {s t : Stream}

def restoreEach (descriptors : List (Descriptor ι)) (devices : Devices M) (s : Stream) :
    Except BlobError Unit × Devices M × Stream :=
  forEach.go (fun descriptor (devices, s) => restoreOne descriptor devices s) descriptors
    (devices, s)

theorem exists_set_of_restoreOne (h : restoreOne descriptor devices s = (.ok (), devices', t)) :
    ∃ state, devices' = devices.set descriptor.device state := by
  have hsection {u v : Stream}
      (h : devices.restoreSection descriptor.id descriptor.device u = (.ok (), devices', v)) :
      ∃ state, devices' = devices.set descriptor.device state := by
    obtain ⟨-, _, state, _, -, -, -, hdevices⟩ := Devices.restoreSection_eq_ok_iff.mp h
    exact ⟨state, hdevices⟩
  unfold restoreOne at h
  split at h
  · split at h
    · simp only [Prod.mk.injEq] at h
      exact hsection (Prod.ext h.1 (Prod.ext h.2.1 rfl))
    · exact hsection h
  · exact hsection h

theorem restoreEach_cons_eq_ok_iff :
    restoreEach (descriptor :: descriptors) devices s = (.ok (), devices', t)
      ↔
    ∃ devices₁ u, restoreOne descriptor devices s = (.ok (), devices₁, u) ∧
      restoreEach descriptors devices₁ u = (.ok (), devices', t) := by
  unfold restoreEach
  rw [forEach.go]
  constructor
  · intro h
    split at h
    · simp at h
    · next r hone => exact ⟨_, _, hone, h⟩
  · intro h
    obtain ⟨devices₁, u, hone, hrest⟩ := h
    dsimp only
    rw [hone]
    exact hrest

theorem others_of_restoreEach (h : restoreEach descriptors devices s = (.ok (), devices', t)) :
    devices'.access = devices.access ∧
      ∀ i, i ∉ descriptors.map (·.device) → devices'.state i = devices.state i := by
  induction descriptors generalizing devices s with
  | nil =>
    simp only [restoreEach, forEach.go, Prod.mk.injEq] at h
    obtain ⟨-, rfl, -⟩ := h
    exact ⟨rfl, fun _ _ => rfl⟩
  | cons descriptor rest ih =>
    obtain ⟨devices₁, u, hone, hrest⟩ := restoreEach_cons_eq_ok_iff.mp h
    obtain ⟨state, rfl⟩ := exists_set_of_restoreOne hone
    obtain ⟨haccess, hothers⟩ := ih hrest
    refine ⟨haccess, fun i hi => ?_⟩
    rw [List.map_cons, List.mem_cons, not_or] at hi
    rw [hothers i hi.2, Devices.state_set_of_ne _ _ hi.1]

theorem restore_eq_ok_iff {registry : Registry ι} :
    registry.restore devices s = (.ok (), devices', t)
      ↔
    restoreEach registry.descriptors devices s = (.ok (), devices', t) ∧ t.remaining = 0 := by
  unfold restore restoreEach forEach
  constructor
  · intro h
    split at h
    · simp at h
    · next devices₁ u heach =>
      split at h
      · next hremaining =>
        simp only [Prod.mk.injEq, true_and] at h
        obtain ⟨rfl, rfl⟩ := h
        exact ⟨heach, hremaining⟩
      · simp at h
  · intro h
    obtain ⟨heach, hremaining⟩ := h
    rw [heach]
    simp only [hremaining, if_true]

end Registry

end MachineFork
