import MachineFork.Proofs.Engine.Evolution
import MachineFork.Proofs.Engine.Hosts
import MachineFork.Proofs.Registry.FailedRestore

/-!
This module contains what a restore that fails leaves of an engine and of its live devices, and what
comes of it when it is repeated.
-/

namespace MachineFork

variable {ι : Type} [DecidableEq ι] {M : Machine ι}

namespace Host

open Registry (Prescribed restoreOne)

/--
A restore that fails at a device has restored those before it and none of those behind it, and it
leaves the blobs, the registry and the lineage as they were, with no snapshot active. If the device
was borrowed, the restore can be repeated as if it had not been tried before.
-/
theorem retryable_of_restore_error {h : Host M} (hreach : h.Reachable)
    (hgets : ∀ i state, ((M.model i).restore state).GetsOnly)
    (hdistinct : (h.engine.registry.descriptors.map (·.device)).Nodup) {id : SnapshotId}
    {s : Snapshot} (hs : h.engine.snapshot? id = some s) (hopen : s.frozen = false)
    {error : EngineError} {e : Engine ι} {devices : Devices M}
    (hfail : h.engine.restore h.devices id = (.error error, e, devices)) :
    (e.registry = h.engine.registry ∧ e.lineage = h.engine.lineage ∧ e.active = none ∧
        devices.access = h.devices.access ∧
        ∀ other, (e.snapshot? other).map (·.blob.bytes)
          = (h.engine.snapshot? other).map (·.blob.bytes)) ∧
      ∃ failure, error = .blob failure ∧
        ((∃ done failed rest behind, h.engine.registry.descriptors = done ++ failed :: rest ∧
            Prescribed done h.devices devices s.blob.bytes behind ∧
            (∀ i, i ∉ (done ++ [failed]).map (·.device) →
              devices.state i = h.devices.state i) ∧
            (restoreOne failed h.devices
              { s.blob.reset with cursor := s.blob.length - behind.length }).1
                = .error failure ∧
            (h.devices.access failed.device ≠ .free →
              devices.state failed.device = h.devices.state failed.device ∧
              ((∀ descriptor ∈ h.engine.registry.descriptors, M.Overwrites descriptor.device) →
                ∀ access : ι → Access, (∀ i, h.devices.access i = .free → access i = .free) →
                  let first := h.engine.restore { h.devices with access } id
                  let again := e.restore { devices with access } id
                  again.1 = first.1 ∧ again.2.2 = first.2.2 ∧
                    again.2.1.active = first.2.1.active))) ∨
          ∃ behind, behind ≠ [] ∧ failure = .trailingBytes behind.length ∧
            Prescribed h.engine.registry.descriptors h.devices devices s.blob.bytes behind ∧
            ∀ i, i ∉ h.engine.registry.descriptors.map (·.device) →
              devices.state i = h.devices.state i) ∧
        ((∀ descriptor ∈ h.engine.registry.descriptors, ∀ state u count,
            (((M.model descriptor.device).restore state).run state u).1
              ≠ .error (.trailingBytes count)) →
          ∀ count, failure = .trailingBytes count →
            ∃ behind, behind.length = count ∧
              Prescribed h.engine.registry.descriptors h.devices devices s.blob.bytes behind) := by
  obtain ⟨hlive, failure, blob, rfl, hrestore, rfl⟩ :=
    Engine.exists_failure_of_restore hs hopen hfail
  have hid := (hreach.sound.keyed id s hs).1
  obtain ⟨haccess, hreset⟩ := h.engine.registry.restore_preserves h.devices s.blob.reset hgets
  rw [hrestore] at haccess hreset
  have hbytes := congrArg Stream.bytes hreset
  have hcases := Registry.confined_of_restore_error hgets hdistinct rfl (Nat.zero_le _) hrestore
  refine ⟨⟨rfl, rfl, rfl, haccess, ?_⟩, failure, rfl, ?_, ?_⟩
  · intro other
    have hother : (h.engine.setSnapshot { s with blob }).snapshot? other
        = if s.id = other then some { s with blob } else h.engine.snapshot? other :=
      h.engine.snapshot?_setSnapshot _ _
    rw [Engine.snapshot?] at hother
    rw [Engine.snapshot?, hother]
    split
    · next heq =>
      rw [← heq, hid, hs]
      exact congrArg some hbytes
    · rfl
  · rcases hcases with
      ⟨done, failed, rest, behind, hall, hprescribed, hothers, hfailed, hborrow⟩ | hall
    · refine .inl ⟨done, failed, rest, behind, hall, hprescribed, hothers, hfailed, ?_⟩
      intro hborrowed
      obtain ⟨hstate, u, hdone⟩ := hborrow hborrowed
      refine ⟨hstate, ?_⟩
      intro hoverwrites access hfree
      have hagain : ({ h.engine.setSnapshot { s with blob } with active := none }).snapshot? id
          = some { s with blob } := by
        rw [← hid]
        exact (h.engine.snapshot?_setSnapshot _ _).trans (if_pos rfl)
      apply Engine.restore_congr hs hopen hlive hagain hopen (by simp)
      dsimp only
      rw [hreset]
      exact Registry.restore_again hgets hoverwrites hdistinct rfl hfree hall hdone
    · exact .inr hall
  · intro hreports count hcount
    rcases hcases with
      ⟨done, failed, rest, behind, hall, -, -, hfailed, -⟩ | ⟨behind, -, hbehind, hall, -⟩
    · rw [hcount] at hfailed
      obtain ⟨u, hrun⟩ := Registry.fails_of_restoreOne hfailed
      exact absurd hrun (hreports failed (by simp [hall]) _ _ _)
    · rw [hcount] at hbehind
      exact ⟨behind, by simpa using hbehind.symm, hall⟩

/-! Two counters, the second of which is borrowed when they are restored. -/

def firstCounter : Descriptor Bool := ⟨.singleton ⟨65, 0, 0, 0⟩, false, .startup⟩

def secondCounter : Descriptor Bool := ⟨.singleton ⟨66, 0, 0, 0⟩, true, .startup⟩

def secondBorrowed : Host counters :=
  zeroes.performAll [
    .startUp fun r => (.ok (), { r with descriptors := [firstCounter, secondCounter] }),
    .addRoot,
    .change { state := counterState 1 2 },
    .save ⟨0⟩,
    .change { state := counterState 8 9, access := fun i => if i then .shared else .free }]

def savedCounters : Snapshot :=
  (secondBorrowed.engine.snapshot? ⟨0⟩).get (by decide +kernel)

def nobody (_ : Bool) : Access := .free

def unhinderedRestore : Except EngineError Unit × Engine Bool × Devices counters :=
  secondBorrowed.engine.restore { secondBorrowed.devices with access := nobody } ⟨0⟩

theorem unhinderedRestore_eq :
    unhinderedRestore.1 = .ok () ∧ unhinderedRestore.2.2.state false = UInt8.ofNat 1 ∧
      unhinderedRestore.2.2.state true = UInt8.ofNat 2 :=
  ⟨rfl, rfl, rfl⟩

theorem retryable_of_restore_error_secondBorrowed :
    ∃ e devices, secondBorrowed.engine.restore secondBorrowed.devices ⟨0⟩
        =
      (.error (.blob (.deviceFailed secondCounter.id "device is already borrowed")), e, devices) ∧
      e.active = none ∧ devices.state true = secondBorrowed.devices.state true ∧
      (e.restore { devices with access := nobody } ⟨0⟩).1 = .ok () ∧
      (e.restore { devices with access := nobody } ⟨0⟩).2.2.state false = UInt8.ofNat 1 ∧
      (e.restore { devices with access := nobody } ⟨0⟩).2.2.state true = UInt8.ofNat 2 := by
  have hnew : Engine.new {} = .ok zeroes.engine := rfl
  have hreach : Reachable secondBorrowed := (Reachable.start hnew zeroes.devices).performAll _
  have hregistered : secondBorrowed.engine.registry.descriptors = [firstCounter, secondCounter] := by
    decide +kernel
  have hs : secondBorrowed.engine.snapshot? ⟨0⟩ = some savedCounters := (Option.some_get _).symm
  have hresult : (secondBorrowed.engine.restore secondBorrowed.devices ⟨0⟩).1
      = .error (.blob (.deviceFailed secondCounter.id "device is already borrowed")) := rfl
  rcases hrestore : secondBorrowed.engine.restore secondBorrowed.devices ⟨0⟩ with ⟨_, e, devices⟩
  rw [hrestore] at hresult
  dsimp only at hresult
  subst hresult
  obtain ⟨⟨-, -, hactive, -⟩, failure, hfailure, hcases, -⟩ :=
    retryable_of_restore_error hreach (fun i state => (faithful_counters i).gets state)
      (by rw [hregistered]; decide) hs (by decide +kernel) hrestore
  rw [hregistered] at hcases
  cases hfailure
  rcases hcases with
    ⟨done, failed, rest, behind, hall, hprescribed, hothers, hfailed, hborrow⟩ |
      ⟨_, _, htrailing, _⟩
  · have hsecond : failed = secondCounter := by
      cases done with
      | nil =>
        -- Nothing has been read in front of the first counter, and that one can be restored.
        cases hall
        obtain ⟨early, late, front, hbytes, hreads, -, -⟩ := hprescribed
        have hnone := List.map_eq_nil_iff.mp hreads.descriptors.symm
        have hfront := hreads.bytes
        rw [(List.append_eq_nil_iff.mp hnone).1] at hfront
        obtain rfl : front = [] := hfront
        rw [List.nil_append] at hbytes
        rw [← hbytes, Stream.length, Nat.sub_self] at hfailed
        have hone : (restoreOne firstCounter secondBorrowed.devices savedCounters.blob.reset).1
            = .ok () := rfl
        exact absurd (hone.symm.trans hfailed) (by simp)
      | cons first done =>
        cases done with
        | nil =>
          cases hall
          rfl
        | cons second done => simp at hall
    subst hsecond
    obtain ⟨hstate, hagain⟩ := hborrow (by decide +kernel)
    obtain ⟨hresult, hdevices, -⟩ :=
      hagain (fun _ _ => overwrites_counters _) nobody fun _ _ => rfl
    refine ⟨e, devices, rfl, hactive, hstate, ?_⟩
    rw [hresult, hdevices]
    exact unhinderedRestore_eq
  · cases htrailing

end Host

end MachineFork
