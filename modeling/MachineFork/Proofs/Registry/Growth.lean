import MachineFork.Proofs.Blob.Operations
import MachineFork.Proofs.Registry.RoundTrip

/-!
This module contains how the memory of a blob grows while a machine is saved into it by devices that
only write. Memory is never given back on the way, and none is reserved as long as there is enough
for what is written.
-/

namespace MachineFork

namespace Stream

variable {s t u : Stream}

structure Grows (s t : Stream) : Prop where
  cursor_le : s.cursor ≤ t.cursor
  capacity_le : s.capacity ≤ t.capacity
  within : s.cursor ≤ s.capacity → t.cursor ≤ t.capacity
  capacity_eq : t.cursor ≤ s.capacity → t.capacity = s.capacity

namespace Grows

theorem of_eq (hcursor : t.cursor = s.cursor) (hcapacity : t.capacity = s.capacity) :
    s.Grows t where
  cursor_le := Nat.le_of_eq hcursor.symm
  capacity_le := Nat.le_of_eq hcapacity.symm
  within := by
    rw [hcursor, hcapacity]
    exact fun h => h
  capacity_eq := fun _ => hcapacity

theorem refl : s.Grows s := of_eq rfl rfl

theorem trans (hst : s.Grows t) (htu : t.Grows u) : s.Grows u where
  cursor_le := Nat.le_trans hst.cursor_le htu.cursor_le
  capacity_le := Nat.le_trans hst.capacity_le htu.capacity_le
  within := fun h => htu.within (hst.within h)
  capacity_eq := by
    intro h
    -- The cursor has been further back before.
    have ht := hst.capacity_eq (Nat.le_trans htu.cursor_le h)
    rw [← ht] at h ⊢
    exact htu.capacity_eq h

theorem put (s : Stream) (new : Bytes) : s.Grows (s.put new) where
  cursor_le := Nat.le_add_right ..
  capacity_le := le_grow ..
  within := fun _ => needed_le_grow ..
  capacity_eq := fun h => if_pos h

theorem openSection (s : Stream) (id : DeviceId) : s.Grows (s.openSection id).2 :=
  ((put s _).trans (put _ _)).trans (put _ _)

theorem closeSection {start : Nat} (h : s.closeSection start = .ok t) : s.Grows t := by
  unfold Stream.closeSection at h
  split at h
  · contradiction
  · split at h
    · contradiction
    · cases h
      exact of_eq rfl rfl

end Grows

end Stream

theorem Program.PutsOnly.grows {σ α : Type} {p : Program σ α} (h : p.PutsOnly) (state : σ)
    (s : Stream) : s.Grows (p.run state s).2.2 := by
  induction p generalizing state s with
  | done value => exact .refl
  | fail error => exact .refl
  | put bytes next ih => exact (Stream.Grows.put s bytes).trans (ih h state _)
  | assign assigned next ih => exact ih h assigned s
  | take | reset | truncate | shrink | look => exact absurd h id

variable {ι : Type} {M : Machine ι}

theorem Devices.grows_saveSection {i : ι} (devices : Devices M) (id : DeviceId) (s : Stream)
    (hputs : ((M.model i).save (devices.state i)).PutsOnly) :
    s.Grows (devices.saveSection id i s).2 := by
  unfold saveSection
  split
  · exact .refl
  · have hopen := Stream.Grows.openSection s id
    have hbody := hputs.grows () (s.openSection id).2
    dsimp only
    split
    · next hrun =>
      rw [hrun] at hbody
      exact hopen.trans hbody
    · next hrun =>
      rw [hrun] at hbody
      split
      · exact hopen.trans hbody
      · next hclose => exact (hopen.trans hbody).trans (.closeSection hclose)

namespace Registry

variable {registry : Registry ι} {devices : Devices M} {s t : Stream}

theorem grows_save (registry : Registry ι) (devices : Devices M) (s : Stream)
    (hputs : ∀ i state, ((M.model i).save state).PutsOnly) :
    s.Grows (registry.save devices s).2 := by
  apply forEach.go_preserves
  · intro descriptor t ht
    exact ht.trans (devices.grows_saveSection _ t (hputs _ _))
  · exact .refl

theorem length_of_save (hputs : ∀ i state, ((M.model i).save state).PutsOnly)
    (hcursor : s.cursor = 0) (h : (registry.save devices s).2 = t) :
    t.truncate.length = t.cursor := by
  have hstart : s.cursor ≤ s.length := hcursor ▸ Nat.zero_le _
  obtain ⟨u, hsave, hlays⟩ := saveEach_lays (fun _ _ => hputs _ _) hstart
  unfold save forEach at h
  rw [hsave] at h
  cases h
  exact Stream.length_truncate (hlays.cursor_le_length hstart)

end Registry

end MachineFork
