import MachineFork.Proofs.Engine.Runs
import Mathlib.Data.List.Nodup

/-!
This module contains the independence of paths. Whatever the other snapshots have been through,
restoring a snapshot brings every device back to what it was when the snapshot's blob was saved.
-/

namespace MachineFork

namespace World

variable {ι : Type} {M : Machine ι} [DecidableEq ι]

omit [DecidableEq ι] in
theorem Sound.nodup_devices {w : World M} (h : w.Sound)
    (hdistinct : ∀ a ∈ w.engine.registry.descriptors, ∀ b ∈ w.engine.registry.descriptors,
      a.id ≠ b.id → a.device ≠ b.device) :
    (w.engine.registry.descriptors.map (·.device)).Nodup := by
  have hids : (w.engine.registry.descriptors.map (·.id)).Nodup := h.ledger.records.nodup
  apply List.Nodup.map_on _ hids.of_map
  intro a ha b hb hdevice
  apply List.inj_on_of_nodup_map hids ha hb
  exact Decidable.not_not.mp fun hne => hdistinct a ha b hb hne hdevice

theorem restore_eq_saved (config : Config) (state : (i : ι) → M.State i)
    (actions : List (Action M)) {id : SnapshotId} {s : Snapshot} {saved : Saved M}
    (hfaithful : ∀ i, (M.model i).Faithful)
    (hdistinct : ∀ a ∈ (run config state actions).engine.registry.descriptors,
      ∀ b ∈ (run config state actions).engine.registry.descriptors,
        a.id ≠ b.id → a.device ≠ b.device)
    (hs : (run config state actions).engine.snapshot? id = some s) (hfrozen : ¬s.frozen)
    (hsaved : (run config state actions).saved id = some saved)
    (hactive : ¬((run config state actions).engine.active = some id ∧ s.blob.isEmpty)) :
    ∃ e devices,
      (run config state actions).engine.restore (run config state actions).devices id
          =
        (.ok (), e, devices) ∧
      (∀ descriptor ∈ saved.descriptors,
        devices.state descriptor.device = saved.state descriptor.device) ∧
      ∀ descriptor ∈ (run config state actions).engine.registry.descriptors,
        descriptor ∉ saved.descriptors →
          descriptor.isCustom ∧
            devices.state descriptor.device
              =
            (run config state actions).registered descriptor.id descriptor.device := by
  have hsound := sound_run hfaithful config state actions
  generalize run config state actions = w at *
  obtain ⟨devices, t, hrestore, hearly, hlate⟩ :=
    hsound.ledger.restore_of_saved hfaithful (hsound.nodup_devices hdistinct)
      (fun i => congrFun (congrArg Devices.access hsound.free) i) hs hsaved
  have hok := Engine.restore_of_ok hs (by simpa using hfrozen)
    (fun h => hactive ⟨h.2, h.1⟩) hrestore
  exact ⟨_, devices, hok, hearly, hlate⟩

/-! Two paths: the second counter is registered after the save that both go back to. -/

def counterActions : List (Action counters) :=
  [ .startUp (.register ⟨.ofState (counterState 1 2), .singleton ⟨65, 0, 0, 0⟩, false⟩
      fun result _ => .finish result),
    .addRoot, .save ⟨0⟩,
    .change (counterState 1 5), .register (.singleton ⟨66, 0, 0, 0⟩) true, .fork ⟨0⟩,
    .restore ⟨1⟩, .change (counterState 8 9), .save ⟨1⟩ ]

def counterRun : World counters :=
  run {} (counterState 1 2) counterActions

theorem isSome_snapshot_counterRun : (counterRun.engine.snapshot? ⟨2⟩).isSome := by decide +kernel

theorem isSome_saved_counterRun : (counterRun.saved ⟨2⟩).isSome := by decide +kernel

theorem restore_eq_saved_counters :
    ∃ e devices, counterRun.engine.restore counterRun.devices ⟨2⟩ = (.ok (), e, devices) ∧
      devices.state false = counterState 1 2 false ∧
      devices.state true = counterState 1 5 true := by
  obtain ⟨e, devices, hrestore, hsaved, hlate⟩ := restore_eq_saved {}
    (counterState 1 2) counterActions faithful_counters (by decide +kernel)
    (Option.some_get isSome_snapshot_counterRun).symm (by decide +kernel)
    (Option.some_get isSome_saved_counterRun).symm
    (by decide +kernel)
  refine ⟨e, devices, hrestore, ?_, ?_⟩
  · have hfirst := hsaved ⟨.singleton ⟨65, 0, 0, 0⟩, false, .startup⟩ (by decide +kernel)
    exact hfirst.trans (by decide +kernel)
  · have hlast := hlate (counterRun.engine.registry.descriptors.getLast (by decide +kernel))
      (List.getLast_mem _) (by decide +kernel)
    exact hlast.2

end World

end MachineFork
