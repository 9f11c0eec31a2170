import MachineFork.Proofs.Blob.Operations
import MachineFork.Proofs.Blob.Puts
import MachineFork.Registry

/-!
This module contains the operations that saving and restoring a machine carry out on a blob: for every
device those around its section, and in between those of the device itself. Because of the latter any
operation of a device can come about while a section has been entered.
-/

namespace MachineFork

variable {ι : Type} {M : Machine ι}

namespace Devices

def saveOperations (devices : Devices M) (id : DeviceId) (i : ι) (s : Stream) :
    List Stream.Operation :=
  if devices.access i = .exclusive then
    []
  else
    let program := (M.model i).save (devices.state i)
    let opened := (s.openSection id).2
    .openSection id ::
      (program.operations () opened ++
        match (program.run () opened).1 with
        | .error _ => []
        | .ok () => [.closeSection s.cursor])

def restoreOperations (devices : Devices M) (id : DeviceId) (i : ι) (s : Stream) :
    List Stream.Operation :=
  if devices.access i ≠ .free then
    []
  else
    let program := (M.model i).restore (devices.state i)
    let entered := (s.enter id).2
    .enter id ::
      match (s.enter id).1 with
      | .error _ => []
      | .ok () => program.operations (devices.state i) entered ++ [.leave]

theorem run_saveOperations (devices : Devices M) (id : DeviceId) (i : ι) (s : Stream) :
    s.run (devices.saveOperations id i s) = (devices.saveSection id i s).2 := by
  unfold saveOperations saveSection
  split
  · rfl
  · dsimp only
    rw [Stream.run_cons]
    rw [Stream.run_append]
    dsimp only [Stream.perform]
    rw [Program.run_operations]
    rw [Stream.openSection_start]
    rcases ((M.model i).save (devices.state i)).run () (s.openSection id).2 with ⟨e | _, _, t⟩
    · rfl
    · dsimp only
      rw [Stream.run_cons]
      dsimp only [Stream.perform]
      cases t.closeSection (s.cursor + 10) with
      | ok u => rfl
      | error e => rfl

theorem run_restoreOperations [DecidableEq ι] (devices : Devices M) (id : DeviceId) (i : ι)
    (s : Stream) :
    s.run (devices.restoreOperations id i s) = (devices.restoreSection id i s).2.2 := by
  unfold restoreOperations restoreSection
  split
  · rfl
  · dsimp only
    rw [Stream.run_cons]
    dsimp only [Stream.perform]
    rcases s.enter id with ⟨e | _, u⟩
    · rfl
    · dsimp only
      rw [Stream.run_append]
      rw [Program.run_operations]
      rcases ((M.model i).restore (devices.state i)).run (devices.state i) u with ⟨e | _, state, t⟩
      · rfl
      · rfl

end Devices

namespace Registry

def forEachOperations {τ : Type} (visit : Descriptor ι → τ → Except BlobError Unit × τ)
    (operations : Descriptor ι → τ → List Stream.Operation) :
    List (Descriptor ι) → τ → List Stream.Operation
  | [], _ => []
  | descriptor :: rest, state =>
    operations descriptor state ++
      match visit descriptor state with
      | (.error _, _) => []
      | (.ok (), state) => forEachOperations visit operations rest state

theorem run_forEachOperations {τ : Type} {visit : Descriptor ι → τ → Except BlobError Unit × τ}
    {operations : Descriptor ι → τ → List Stream.Operation} (stream : τ → Stream)
    (h : ∀ descriptor state,
      (stream state).run (operations descriptor state) = stream (visit descriptor state).2)
    (descriptors : List (Descriptor ι)) (state : τ) :
    (stream state).run (forEachOperations visit operations descriptors state)
      =
    stream (forEach.go visit descriptors state).2 := by
  induction descriptors generalizing state with
  | nil => rfl
  | cons descriptor rest ih =>
    specialize h descriptor state
    unfold forEachOperations forEach.go
    rw [Stream.run_append]
    rw [h]
    rcases visit descriptor state with ⟨e | _, state'⟩
    · rfl
    · apply ih

def saveOperations (registry : Registry ι) (devices : Devices M) (s : Stream) :
    List Stream.Operation :=
  forEachOperations
    (fun descriptor s => devices.saveSection descriptor.id descriptor.device s)
    (fun descriptor s => devices.saveOperations descriptor.id descriptor.device s)
    registry.descriptors s

/--
The operations on the blob alone. A device that is restored from the section that the registry keeps
of it does nothing to the blob.
-/
def restoreOperations [DecidableEq ι] (registry : Registry ι) (devices : Devices M) (s : Stream) :
    List Stream.Operation :=
  forEachOperations
    (fun descriptor (devices, s) => restoreOne descriptor devices s)
    (fun descriptor (devices, s) =>
      if descriptor.isCustom ∧ s.remaining = 0 then
        []
      else
        devices.restoreOperations descriptor.id descriptor.device s)
    registry.descriptors (devices, s)

theorem run_saveOperations (registry : Registry ι) (devices : Devices M) (s : Stream) :
    s.run (registry.saveOperations devices s) = (registry.save devices s).2 := by
  apply run_forEachOperations id
  intro descriptor s
  apply Devices.run_saveOperations

theorem run_restoreOperations [DecidableEq ι] (registry : Registry ι) (devices : Devices M)
    (s : Stream) :
    s.run (registry.restoreOperations devices s) = (registry.restore devices s).2.2 := by
  have heach : s.run (registry.restoreOperations devices s)
      = (registry.forEach (fun descriptor (devices, s) => restoreOne descriptor devices s)
          (devices, s)).2.2 := by
    refine run_forEachOperations (fun (state : Devices M × Stream) => state.2) ?_
      registry.descriptors (devices, s)
    intro descriptor state
    dsimp only
    unfold restoreOne
    cases horigin : descriptor.origin with
    | startup =>
      simp only [Descriptor.isCustom, horigin, Bool.false_eq_true, false_and, if_false]
      apply Devices.run_restoreOperations
    | custom registered =>
      simp only [Descriptor.isCustom, horigin, true_and]
      split
      · rfl
      · apply Devices.run_restoreOperations
  rw [heach]
  unfold restore
  rcases registry.forEach _ _ with ⟨e | _, devices', t⟩
  · rfl
  · dsimp only
    split
    · rfl
    · rfl

def lone : Registry Unit where
  descriptors := [⟨.singleton ⟨65, 0, 0, 0⟩, (), .startup⟩]
  isInitialized := true

end Registry

namespace Stream

/--
Whatever is done to a stream, also by saving and restoring machines, the cursor stays within the
bytes and these within the memory. A stream that holds all of the section it promises stays so
exactly as long as no operation cuts into the section. It is then that no read is cut off.
-/
theorem covered_iff_uncut [DecidableEq ι] {s : Stream} (hmade : s.Made)
    (operations : List Operation) (registry : Registry ι) (devices : Devices M) :
    (∀ done, done <+: operations →
      (s.run done).WellFormed ∧
      ((s.run done).Covered
          ↔
        (s.run done).cursor + (s.run done).remaining ≤ (s.run done).length) ∧
      ((s.run done).Covered
          ↔
        ∀ count requested left, (s.run done).take count ≠ .error (.cutOff requested left)) ∧
      s.run (done ++ registry.saveOperations devices (s.run done))
        =
      (registry.save devices (s.run done)).2 ∧
      s.run (done ++ registry.restoreOperations devices (s.run done))
        =
      (registry.restore devices (s.run done)).2.2) ∧
    ((∀ done, done <+: operations → (s.run done).Covered)
        ↔
      ∀ done next, done ++ [next] <+: operations → ¬next.Cuts (s.run done)) := by
  have hs := hmade.wellFormed
  constructor
  · intro done _
    have hdone := hs.run done
    refine ⟨hdone, hdone.covered_iff_remaining, hdone.covered_iff_take, ?_, ?_⟩
    · rw [run_append]
      apply Registry.run_saveOperations
    · rw [run_append]
      apply Registry.run_restoreOperations
  · exact hmade.covered.run_iff hs

/-! A device that cuts the blob off in front of its own payload, and then wants to read that. -/

def truncating : Machine Unit where
  State _ := UInt8
  model _ :=
    { save := fun state => .putU8 state
      restore := fun _ => .truncate do
        let value ← .getU8
        .assign value (.done ()) }

def truncatingDevices : Devices truncating where
  state _ := (0 : UInt8)

def truncatingBlob : Stream :=
  .ofBytes (Section.frame (.singleton ⟨65, 0, 0, 0⟩) [7])

theorem covered_iff_uncut_truncating :
    truncatingBlob.Made ∧
      (Registry.lone.restore truncatingDevices truncatingBlob).1 = .error (.cutOff 1 0) ∧
      (Registry.lone.restore truncatingDevices truncatingBlob).2.2.WellFormed ∧
      ¬∀ done, done <+: Registry.lone.restoreOperations truncatingDevices truncatingBlob →
        (truncatingBlob.run done).Covered := by
  have hmade : truncatingBlob.Made := .ofBytes _
  obtain ⟨hoperations, hcovered⟩ := covered_iff_uncut hmade
    (Registry.lone.restoreOperations truncatingDevices truncatingBlob)
    Registry.lone truncatingDevices
  refine ⟨hmade, rfl, ?_, ?_⟩
  · have hrestore : truncatingBlob.run
        (Registry.lone.restoreOperations truncatingDevices truncatingBlob)
        = (Registry.lone.restore truncatingDevices truncatingBlob).2.2 :=
      (hoperations [] List.nil_prefix).2.2.2.2
    rw [← hrestore]
    exact (hoperations _ (List.prefix_refl _)).1
  · rw [hcovered]
    intro huncut
    apply huncut [.enter (.singleton ⟨65, 0, 0, 0⟩)] .truncate
    · exact ⟨_, rfl⟩
    · exact ⟨_, rfl, by decide⟩

end Stream

end MachineFork
