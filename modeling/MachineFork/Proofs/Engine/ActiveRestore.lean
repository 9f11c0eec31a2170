import MachineFork.Proofs.Engine.HostLedgers

/-!
This module contains the difference that it makes to a restore whether the snapshot is active. An
active snapshot with an empty blob is taken for one that has never been saved, but a machine without
startup devices is saved into an empty blob as well.
-/

namespace MachineFork

namespace Host

variable {ι : Type} [DecidableEq ι] {M : Machine ι} {h : Host M} {l : Ledger M}

def registrations (h : Host M) (l : Ledger M) : Devices M :=
  h.devices.setEach h.engine.registry.descriptors fun descriptor => l.registered descriptor.id

def restoreIf (h : Host M) (active : Option SnapshotId) (id : SnapshotId) :
    Except EngineError Unit × Engine ι × Devices M :=
  { h.engine with active }.restore h.devices id

theorem registrations_eq_iff
    (hdistinct : (h.engine.registry.descriptors.map (·.device)).Nodup) :
    h.registrations l = h.devices
      ↔
    ∀ descriptor ∈ h.engine.registry.descriptors,
      h.devices.state descriptor.device = l.registered descriptor.id descriptor.device := by
  constructor
  · intro heq descriptor hmem
    rw [← heq]
    exact Devices.state_setEach_of_mem hdistinct hmem
  · intro hsame
    have hstate : (h.registrations l).state = h.devices.state := by
      funext i
      by_cases hi : i ∈ h.engine.registry.descriptors.map (·.device)
      · obtain ⟨descriptor, hmem, rfl⟩ := List.mem_map.mp hi
        rw [hsame descriptor hmem]
        exact Devices.state_setEach_of_mem hdistinct hmem
      · apply Devices.state_setEach_of_not_mem
        rintro descriptor hmem rfl
        exact hi (List.mem_map_of_mem hmem)
    have haccess : (h.registrations l).access = h.devices.access := Devices.access_setEach
    generalize h.registrations l = devices at *
    obtain ⟨state, access⟩ := devices
    obtain rfl : state = h.devices.state := hstate
    obtain rfl : access = h.devices.access := haccess
    rfl

theorem restoreIf_registrations (hsound : l.Sound h.engine) (hfaithful : ∀ i, (M.model i).Faithful)
    (hfree : ∀ i, h.devices.access i = .free) {id : SnapshotId} {s : Snapshot}
    (hs : h.engine.snapshot? id = some s) (hopen : s.frozen = false) (hempty : s.blob.bytes = [])
    (hcustom : ∀ descriptor ∈ h.engine.registry.descriptors, descriptor.isCustom)
    {active : Option SnapshotId} (hidle : active ≠ some id) :
    (h.restoreIf active id).1 = .ok () ∧ (h.restoreIf active id).2.2 = h.registrations l := by
  have heach := Registry.restoreEach_of_registered (s := s.blob.reset) hfaithful
    (fun descriptor hmem => hsound.records.exists_section hmem (hcustom descriptor hmem))
    hfree (by simp [Stream.remaining, Stream.readEnd, Stream.reset, Stream.length, hempty])
  have hrestore := Registry.restore_eq_ok_iff.mpr
    ⟨heach, by simp [Stream.remaining, Stream.readEnd, Stream.reset, Stream.length, hempty]⟩
  have hok := Engine.restore_of_ok (e := { h.engine with active }) hs hopen
    (fun hlive => hidle hlive.2) hrestore
  rw [restoreIf, hok]
  exact ⟨rfl, rfl⟩

/--
For a snapshot that has ever been saved it makes no difference to the devices whether it is active
when it is restored, unless its blob is empty; then all devices were registered after startup, and they
go back to their registration only if the snapshot is not active.
-/
theorem restore_active_eq_iff (hrec : h.Recorded l) (hfaithful : ∀ i, (M.model i).Faithful)
    (hfree : ∀ i, h.devices.access i = .free) {id : SnapshotId} {s : Snapshot}
    (hs : h.engine.snapshot? id = some s) (hopen : s.frozen = false)
    (hever : l.everSaved id = true) {other : Option SnapshotId} (hother : other ≠ some id) :
    ((h.restoreIf (some id) id).2.2 = (h.restoreIf other id).2.2
        ↔
      s.blob.bytes ≠ [] ∨ h.registrations l = h.devices) ∧
    (s.blob.bytes ≠ [] → (h.restoreIf (some id) id).1 = (h.restoreIf other id).1) ∧
    (s.blob.bytes = [] →
      (∀ descriptor ∈ h.engine.registry.descriptors, descriptor.isCustom) ∧
      (h.restoreIf (some id) id).1 = .ok () ∧ (h.restoreIf (some id) id).2.2 = h.devices ∧
      (h.restoreIf other id).1 = .ok () ∧ (h.restoreIf other id).2.2 = h.registrations l) ∧
    ((h.engine.registry.descriptors.map (·.device)).Nodup →
      (h.registrations l = h.devices
          ↔
        ∀ descriptor ∈ h.engine.registry.descriptors,
          h.devices.state descriptor.device = l.registered descriptor.id descriptor.device) ∧
      ∀ saved, l.saved id = some saved →
        (h.restoreIf other id).1 = .ok () ∧
        (∀ descriptor ∈ saved.descriptors,
          (h.restoreIf other id).2.2.state descriptor.device = saved.state descriptor.device) ∧
        ∀ descriptor ∈ h.engine.registry.descriptors, descriptor ∉ saved.descriptors →
          descriptor.isCustom ∧
            (h.restoreIf other id).2.2.state descriptor.device
              = l.registered descriptor.id descriptor.device) := by
  have hsound := hrec.sound hfaithful
  have hidle : ¬(s.blob.isEmpty ∧ other = some id) := fun hlive => hother hlive.2
  have hsame (hblob : s.blob.bytes ≠ []) :
      (h.restoreIf (some id) id).1 = (h.restoreIf other id).1 ∧
        (h.restoreIf (some id) id).2.2 = (h.restoreIf other id).2.2 := by
    have hlive : ¬(s.blob.isEmpty ∧ some id = some id) := by simpa [Stream.isEmpty] using hblob
    have hactive : { h.engine with active := some id }.snapshot? id = some s := hs
    have hinactive : { h.engine with active := other }.snapshot? id = some s := hs
    obtain ⟨hresult, hdevices, -⟩ :=
      Engine.restore_congr hinactive hopen hidle hactive hopen hlive rfl
    exact ⟨hresult, hdevices⟩
  have hempty (hblob : s.blob.bytes = []) :
      (∀ descriptor ∈ h.engine.registry.descriptors, descriptor.isCustom) ∧
        (h.restoreIf (some id) id).1 = .ok () ∧ (h.restoreIf (some id) id).2.2 = h.devices ∧
        (h.restoreIf other id).1 = .ok () ∧ (h.restoreIf other id).2.2 = h.registrations l := by
    have hcustom := hsound.custom id s hs hever hblob
    have hlive := Engine.restore_of_live (e := { h.engine with active := some id }) h.devices hs
      hopen (by simpa [Stream.isEmpty] using hblob) rfl
    obtain ⟨hresult, hdevices⟩ :=
      restoreIf_registrations hsound hfaithful hfree hs hopen hblob hcustom hother
    rw [restoreIf, hlive]
    exact ⟨hcustom, rfl, rfl, hresult, hdevices⟩
  refine ⟨?_, fun hblob => (hsame hblob).1, hempty, ?_⟩
  · by_cases hblob : s.blob.bytes = []
    · obtain ⟨-, -, hactive, -, hother⟩ := hempty hblob
      rw [hactive, hother, eq_comm]
      simp [hblob]
    · simp [hblob, (hsame hblob).2]
  · intro hdistinct
    refine ⟨registrations_eq_iff hdistinct, ?_⟩
    intro saved hsaved
    obtain ⟨devices, t, hrestore, hearly, hlate⟩ :=
      hsound.restore_of_saved hfaithful hdistinct hfree hs hsaved
    have hok := Engine.restore_of_ok (e := { h.engine with active := other }) hs hopen hidle hrestore
    rw [restoreIf, hok]
    exact ⟨rfl, hearly, hlate⟩

/-! The only counter is registered after its machine has been saved. -/

def lateCalls : List (Call counters) :=
  [ .startUp (Registry.Body.finish (M := counters) (.ok ())).run,
    .addRoot,
    .save ⟨0⟩,
    .change { state := fun _ => (1 : UInt8) },
    .register (.singleton ⟨65, 0, 0, 0⟩) false,
    .change { state := fun _ => (9 : UInt8) } ]

def lateCounter : Host counters :=
  zeroes.performAll lateCalls

def lateLedger : Ledger counters :=
  zeroes.ledgerAfterAll { registered := fun _ => zeroes.devices.state } lateCalls

theorem recorded_lateCounter : lateCounter.Recorded lateLedger := by
  have hnew : Engine.new {} = .ok zeroes.engine := rfl
  apply (Recorded.start hnew zeroes.devices).performAll
  · simp [lateCalls, Call.IsRead]
  · simp only [lateCalls, List.forall_mem_cons, Call.Registers]
    simp

theorem restore_active_eq_iff_late :
    (lateCounter.restoreIf (some ⟨0⟩) ⟨0⟩).2.2.state false = UInt8.ofNat 9 ∧
      (lateCounter.restoreIf none ⟨0⟩).2.2.state false = UInt8.ofNat 1 ∧
      (lateCounter.restoreIf (some ⟨0⟩) ⟨0⟩).2.2 ≠ (lateCounter.restoreIf none ⟨0⟩).2.2 := by
  have hsome : (lateCounter.engine.snapshot? ⟨0⟩).isSome := by decide +kernel
  obtain ⟨s, hs⟩ := Option.isSome_iff_exists.mp hsome
  have hblob : lateCounter.engine.blob? ⟨0⟩ = some [] := by decide +kernel
  have hfrozen : (lateCounter.engine.snapshot? ⟨0⟩).map (·.frozen) = some false := by
    decide +kernel
  rw [Engine.blob?, hs] at hblob
  rw [hs] at hfrozen
  have hother : (none : Option SnapshotId) ≠ some ⟨0⟩ := by simp
  obtain ⟨hiff, -, hempty, -⟩ := restore_active_eq_iff recorded_lateCounter faithful_counters
    (fun _ => rfl) hs (Option.some.inj hfrozen) (by decide +kernel) hother
  obtain ⟨-, -, hactive, -, hidle⟩ := hempty (Option.some.inj hblob)
  have hlive : lateCounter.devices.state false = UInt8.ofNat 9 := rfl
  have hback : (lateCounter.registrations lateLedger).state false = UInt8.ofNat 1 := rfl
  have hne : UInt8.ofNat 9 ≠ UInt8.ofNat 1 := by decide
  refine ⟨by rw [hactive, hlive], by rw [hidle, hback], ?_⟩
  rw [Ne, hiff, not_or, Decidable.not_not]
  refine ⟨Option.some.inj hblob, ?_⟩
  intro hsame
  rw [hsame, hlive] at hback
  exact hne hback

end Host

end MachineFork
