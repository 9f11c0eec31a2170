import MachineFork.Proofs.Blob.Events
import MachineFork.Proofs.Registry.Operations

/-!
This module contains when the sections of a saved blob are framed, whatever the devices do to the blob
while they save themselves. Closing a section checks where a device has left the cursor, but not what
it has done in front of its payload. So a section is framed, and everything in front of it is as it
was, exactly when the device has kept all bytes there. A device that never resets the cursor does.

What a device leaves in the blob is its deposit.
-/

namespace MachineFork

structure Deposit where
  device : DeviceId
  before : Stream
  events : List Event
  written : Stream
  after : Stream

namespace Deposit

def payload (deposit : Deposit) : Bytes :=
  (deposit.written.bytes.take deposit.written.cursor).drop (deposit.before.cursor + 10)

/--
Whether the device has kept everything in front of its payload. The last four bytes there are the
length, which is not written until the section is closed.
-/
def Kept (deposit : Deposit) : Prop :=
  deposit.written.bytes.take (deposit.before.cursor + 6)
    =
  (deposit.before.openSection deposit.device).2.bytes.take (deposit.before.cursor + 6)

instance (deposit : Deposit) : Decidable deposit.Kept :=
  inferInstanceAs (Decidable (_ = _))

def Framed (deposit : Deposit) : Prop :=
  deposit.after.bytes.take deposit.after.cursor
    =
  deposit.before.bytes.take deposit.before.cursor
    ++ Section.frame deposit.device deposit.payload

structure Closed (deposit : Deposit) : Prop where
  before : deposit.before.WellFormed
  written : deposit.written.WellFormed
  start_le : deposit.before.cursor + 10 ≤ deposit.written.cursor
  small : deposit.payload.length < UInt32.size
  after : deposit.after = { deposit.written with
    bytes := deposit.written.bytes.overwrite (deposit.before.cursor + 6)
      (Bytes.littleEndian 4 deposit.payload.length) }
  kept : .reset ∉ deposit.events → deposit.Kept

variable {deposit : Deposit}

theorem length_payload (hcursor : deposit.written.cursor ≤ deposit.written.length) :
    deposit.payload.length = deposit.written.cursor - (deposit.before.cursor + 10) := by
  unfold payload
  unfold Stream.length at hcursor
  rw [List.length_drop, List.length_take]
  omega

theorem closed_of_closeSection (hbefore : deposit.before.WellFormed)
    (hwritten : deposit.written.WellFormed)
    (hclose : deposit.written.closeSection (deposit.before.cursor + 10) = .ok deposit.after)
    (hkept : .reset ∉ deposit.events → deposit.Kept) : deposit.Closed := by
  obtain ⟨hstart, hsmall, hafter⟩ := Stream.closeSection_eq_ok_iff.mp hclose
  have hlength := length_payload hwritten.cursor_le
  constructor
  · exact hbefore
  · exact hwritten
  · exact hstart
  · rw [hlength]
    exact hsmall
  · rw [hlength]
    exact hafter
  · exact hkept

theorem Closed.framed_iff_kept (h : deposit.Closed) : deposit.Framed ↔ deposit.Kept := by
  have hstart := h.start_le
  have hcursor := h.written.cursor_le
  unfold Stream.length at hcursor
  unfold Framed Kept
  rw [Stream.take_openSection _ h.before.cursor_le]
  rw [h.after]
  dsimp only
  rw [Bytes.take_overwrite_of_le]
  · -- From the length on both sides are the same, whatever the device has done.
    have hpayload : (deposit.written.bytes.take deposit.written.cursor).drop
        (deposit.before.cursor + 6 + 4) = deposit.payload := rfl
    rw [Bytes.length_littleEndian]
    rw [hpayload]
    unfold Section.frame Section.header
    simp only [← List.append_assoc]
    rw [List.append_left_inj]
    rw [List.append_left_inj]
  · omega
  · rw [Bytes.length_littleEndian]
    omega

theorem Closed.cursor_le (h : deposit.Closed) :
    deposit.before.cursor ≤ deposit.after.cursor ∧
      deposit.after.cursor ≤ deposit.after.length := by
  have hstart := h.start_le
  have hcursor := h.written.cursor_le
  rw [h.after]
  unfold Stream.length at *
  dsimp only
  rw [Bytes.length_overwrite _ (by omega)]
  omega

end Deposit

variable {ι : Type} {M : Machine ι} {devices : Devices M} {s t : Stream}

namespace Devices

def deposit (devices : Devices M) (id : DeviceId) (i : ι) (s : Stream) : Deposit :=
  let program := (M.model i).save (devices.state i)
  let opened := (s.openSection id).2
  { device := id
    before := s
    events := program.events () opened
    written := (program.run () opened).2.2
    after := (devices.saveSection id i s).2 }

theorem saveSection_eq_ok_iff {id : DeviceId} {i : ι} :
    devices.saveSection id i s = (.ok (), t)
      ↔
    devices.access i ≠ .exclusive ∧ ∃ state u,
      ((M.model i).save (devices.state i)).run () (s.openSection id).2 = (.ok (), state, u) ∧
        u.closeSection (s.cursor + 10) = .ok t := by
  unfold saveSection
  constructor
  · intro h
    split at h
    · simp at h
    · next hshared =>
      dsimp only at h
      rw [Stream.openSection_start] at h
      split at h
      · simp at h
      · next state u hrun =>
        split at h
        · simp at h
        · next hclose =>
          cases h
          exact ⟨hshared, state, u, hrun, hclose⟩
  · intro h
    obtain ⟨hshared, state, u, hrun, hclose⟩ := h
    rw [if_neg hshared]
    dsimp only
    rw [hrun]
    rw [Stream.openSection_start]
    dsimp only
    rw [hclose]

theorem closed_deposit {id : DeviceId} {i : ι} (hs : s.WellFormed)
    (h : devices.saveSection id i s = (.ok (), t)) : (devices.deposit id i s).Closed := by
  obtain ⟨-, state, u, hrun, hclose⟩ := saveSection_eq_ok_iff.mp h
  have hopened := hs.openSection id
  apply Deposit.closed_of_closeSection
  · exact hs
  · unfold deposit
    dsimp only
    rw [hrun]
    exact hopened.run_program hrun
  · unfold deposit
    dsimp only
    rw [h, hrun]
    exact hclose
  · intro hreset
    apply (Stream.leads_run _ _ _).take_eq hopened.cursor_le hreset
    have hstart : (s.openSection id).2.cursor = s.cursor + 10 := Stream.openSection_start id
    rw [hstart]
    apply Nat.add_le_add_left
    decide

end Devices

namespace Registry

def deposits (registry : Registry ι) (devices : Devices M) (s : Stream) : List Deposit :=
  go registry.descriptors s
where
  go : List (Descriptor ι) → Stream → List Deposit
  | [], _ => []
  | descriptor :: rest, s =>
    match devices.saveSection descriptor.id descriptor.device s with
    | (.error _, _) => []
    | (.ok (), t) => devices.deposit descriptor.id descriptor.device s :: go rest t

def saveEach (devices : Devices M) (descriptors : List (Descriptor ι)) (s : Stream) :
    Except BlobError Unit × Stream :=
  forEach.go (fun descriptor s => devices.saveSection descriptor.id descriptor.device s) descriptors s

variable {descriptor : Descriptor ι} {descriptors : List (Descriptor ι)}

theorem deposits_cons (hs : s.WellFormed)
    (h : saveEach devices (descriptor :: descriptors) s = (.ok (), t)) :
    ∃ u : Stream, u.WellFormed ∧ saveEach devices descriptors u = (.ok (), t) ∧
      (devices.deposit descriptor.id descriptor.device s).Closed ∧
      (devices.deposit descriptor.id descriptor.device s).after = u ∧
      deposits.go devices (descriptor :: descriptors) s
        =
      devices.deposit descriptor.id descriptor.device s :: deposits.go devices descriptors u := by
  unfold saveEach forEach.go at h
  split at h
  · simp at h
  · next u hsave =>
    have hrun := devices.run_saveOperations descriptor.id descriptor.device s
    rw [hsave] at hrun
    refine ⟨u, ?_, h, Devices.closed_deposit hs hsave, congrArg Prod.snd hsave, ?_⟩
    · dsimp only at hrun
      rw [← hrun]
      apply hs.run
    · rw [deposits.go, hsave]

theorem map_device_deposits (hs : s.WellFormed)
    (h : saveEach devices descriptors s = (.ok (), t)) :
    (deposits.go devices descriptors s).map (·.device) = descriptors.map (·.id) := by
  induction descriptors generalizing s with
  | nil => rfl
  | cons descriptor rest ih =>
    obtain ⟨u, hu, hrest, -, -, hdeposits⟩ := deposits_cons hs h
    rw [hdeposits]
    rw [List.map_cons]
    rw [ih hu hrest]
    rfl

theorem closed_deposits (hs : s.WellFormed) (h : saveEach devices descriptors s = (.ok (), t)) :
    ∀ deposit ∈ deposits.go devices descriptors s, deposit.Closed := by
  induction descriptors generalizing s with
  | nil => simp [deposits.go]
  | cons descriptor rest ih =>
    obtain ⟨u, hu, hrest, hclosed, -, hdeposits⟩ := deposits_cons hs h
    rw [hdeposits]
    rw [List.forall_mem_cons]
    exact ⟨hclosed, ih hu hrest⟩

theorem cursor_le_of_saveEach (hs : s.WellFormed)
    (h : saveEach devices descriptors s = (.ok (), t)) :
    s.cursor ≤ t.cursor ∧ t.cursor ≤ t.length := by
  induction descriptors generalizing s with
  | nil =>
    cases h
    exact ⟨Nat.le_refl _, hs.cursor_le⟩
  | cons descriptor rest ih =>
    obtain ⟨u, hu, hrest, hclosed, hafter, -⟩ := deposits_cons hs h
    have hfirst : s.cursor ≤ u.cursor := by
      rw [← hafter]
      exact hclosed.cursor_le.1
    obtain ⟨hcursor, hlength⟩ := ih hu hrest
    exact ⟨Nat.le_trans hfirst hcursor, hlength⟩

theorem take_cursor_of_saveEach (hs : s.WellFormed)
    (h : saveEach devices descriptors s = (.ok (), t))
    (hkept : ∀ deposit ∈ deposits.go devices descriptors s, deposit.Kept) :
    t.bytes.take t.cursor
      =
    s.bytes.take s.cursor
      ++ Section.frames ((deposits.go devices descriptors s).map fun deposit =>
          (deposit.device, deposit.payload)) := by
  induction descriptors generalizing s with
  | nil =>
    cases h
    simp [deposits.go, Section.frames]
  | cons descriptor rest ih =>
    obtain ⟨u, hu, hrest, hclosed, hafter, hdeposits⟩ := deposits_cons hs h
    rw [hdeposits] at hkept ⊢
    rw [List.forall_mem_cons] at hkept
    have hframed := hclosed.framed_iff_kept.mpr hkept.1
    unfold Deposit.Framed at hframed
    rw [hafter] at hframed
    rw [ih hu hrest hkept.2]
    rw [hframed]
    rw [List.append_assoc]
    rfl

/--
A save that succeeds has put one section for every device behind what there was before. The sections
are framed, and nothing in front of them is changed, as long as every device keeps what is in front of
its payload; a device that does not reset the cursor does so. But that is not checked.
-/
theorem save_framed_iff_kept {registry : Registry ι} (hs : s.WellFormed)
    (h : registry.save devices s = (.ok (), t)) :
    (registry.deposits devices s).map (·.device) = registry.ids ∧
    s.cursor ≤ t.cursor ∧ t.cursor ≤ t.length ∧
    (∀ deposit ∈ registry.deposits devices s,
      deposit.payload.length < UInt32.size ∧
      (deposit.Framed ↔ deposit.Kept) ∧
      (.reset ∉ deposit.events → deposit.Kept)) ∧
    ((∀ deposit ∈ registry.deposits devices s, deposit.Kept) →
      t.bytes.take t.cursor
        =
      s.bytes.take s.cursor
        ++ Section.frames ((registry.deposits devices s).map fun deposit =>
            (deposit.device, deposit.payload))) := by
  obtain ⟨hcursor, hlength⟩ := cursor_le_of_saveEach hs h
  refine ⟨map_device_deposits hs h, hcursor, hlength, ?_, take_cursor_of_saveEach hs h⟩
  intro deposit hdeposit
  have hclosed := closed_deposits hs h deposit hdeposit
  exact ⟨hclosed.small, hclosed.framed_iff_kept, hclosed.kept⟩

/-! A device that starts over at the beginning of the blob, when its state is one. -/

def startingOver : Machine Unit where
  State _ := UInt8
  model _ :=
    { save := fun state =>
        if state = 1 then
          .reset (.putBytes (List.replicate 22 0))
        else
          .putU8 state
      restore := fun _ => do
        let value ← .getU8
        .assign value (.done ()) }

def startingOverDevices (state : UInt8) : Devices startingOver where
  state _ := state

def startedBlob : Stream := Stream.empty.put [1, 2, 3]

theorem save_framed_iff_kept_startingOver :
    startedBlob.WellFormed ∧
      (lone.save (startingOverDevices 0) startedBlob).1 = .ok () ∧
      (lone.save (startingOverDevices 0) startedBlob).2.bytes.take 14
        =
      [1, 2, 3] ++ Section.frame (.singleton ⟨65, 0, 0, 0⟩) [0] ∧
      (lone.save (startingOverDevices 1) startedBlob).1 = .ok () ∧
      ∃ deposit ∈ lone.deposits (startingOverDevices 1) startedBlob,
        ¬deposit.Framed := by
  have hblob : startedBlob.WellFormed := Stream.Made.empty.wellFormed.put [1, 2, 3]
  have hsteady : (lone.save (startingOverDevices 0) startedBlob).1 = .ok () := rfl
  have hstarted : (lone.save (startingOverDevices 1) startedBlob).1 = .ok () := rfl
  refine ⟨hblob, hsteady, ?_, hstarted, ?_⟩
  · obtain ⟨-, -, -, -, hframes⟩ := save_framed_iff_kept hblob (Prod.ext hsteady rfl)
    apply hframes
    decide +kernel
  · obtain ⟨-, -, -, hdeposits, -⟩ := save_framed_iff_kept hblob (Prod.ext hstarted rfl)
    refine ⟨_, .head _, ?_⟩
    rw [(hdeposits _ (.head _)).2.1]
    decide +kernel

end Registry

end MachineFork
