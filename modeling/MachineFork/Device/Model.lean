import MachineFork.Blob.Program

/-!
This module contains device models and the live devices of a machine. A machine is a family of
devices, each with a type of states and a pair of programs that save and restore it; the live
devices are a state for each of them, and who else is using them at the moment.
-/

namespace MachineFork

/--
How a device with states `σ` writes itself to a stream and reads itself back. Saving cannot change
the device; restoring assigns states as it goes, so that a failure may leave it half restored.
-/
structure DeviceModel (σ : Type) where
  save : σ → Program Unit Unit
  restore : σ → Program σ Unit

structure Machine (ι : Type) where
  State : ι → Type
  model : (i : ι) → DeviceModel (State i)

inductive Access where
  | free
  | shared
  | exclusive
  deriving DecidableEq, Repr

variable {ι : Type}

structure Devices (M : Machine ι) where
  state : (i : ι) → M.State i
  access : ι → Access := fun _ => .free

namespace Devices

variable {M : Machine ι} [DecidableEq ι]

def set (devices : Devices M) (i : ι) (state : M.State i) : Devices M :=
  { devices with state := fun j => if h : j = i then h ▸ state else devices.state j }

@[simp]
theorem state_set_self (devices : Devices M) (i : ι) (state : M.State i) :
    (devices.set i state).state i = state := by
  simp [set]

@[simp]
theorem state_set_of_ne (devices : Devices M) {i j : ι} (state : M.State i) (h : j ≠ i) :
    (devices.set i state).state j = devices.state j := by
  simp [set, h]

@[simp]
theorem access_set (devices : Devices M) (i : ι) (state : M.State i) :
    (devices.set i state).access = devices.access := rfl

end Devices

end MachineFork
