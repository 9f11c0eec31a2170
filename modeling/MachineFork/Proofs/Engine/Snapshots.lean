import MachineFork.Engine.Path
import MachineFork.Proofs.Registry.RoundTrip

/-!
This module contains what the calls of an engine do to its registry and to the blobs of its
snapshots, leaving aside which snapshot is active and everything about disks.
-/

namespace MachineFork

@[simp]
theorem Snapshot.id_noteSave (s : Snapshot) (config : Config) : (s.noteSave config).id = s.id := by
  unfold noteSave
  dsimp only
  split <;> split <;> rfl

@[simp]
theorem Snapshot.bytes_noteSave (s : Snapshot) (config : Config) :
    (s.noteSave config).blob.bytes = s.blob.bytes := by
  unfold noteSave
  dsimp only
  split <;> split <;> rfl

namespace Engine

variable {ι : Type} {M : Machine ι} {e e' e'' : Engine ι} {devices : Devices M} {id : SnapshotId}

theorem eq_of_new {config : Config} (h : new config = .ok e) : e = { config } := by
  unfold new at h
  split at h
  · contradiction
  · exact (Except.ok.inj h).symm

theorem snapshots_settle (e : Engine ι) : e.settle.snapshots = e.snapshots := by
  unfold settle
  split <;> rfl

theorem snapshot?_settle (e : Engine ι) (id : SnapshotId) :
    e.settle.snapshot? id = e.snapshot? id :=
  congrArg (Table.find? · id) e.snapshots_settle

theorem snapshot?_setSnapshot (e : Engine ι) (s : Snapshot) (id : SnapshotId) :
    (e.setSnapshot s).snapshot? id = if s.id = id then some s else e.snapshot? id := by
  apply Table.find?_insert

theorem snapshot?_addSnapshot (e : Engine ι) (blob : Stream) (node : NodeId) (id : SnapshotId) :
    (e.addSnapshot blob node).2.snapshot? id
      =
    if ⟨e.nextId⟩ = id then some (e.addSnapshot blob node).1 else e.snapshot? id := by
  apply Table.find?_insert

structure Narrows (e e' : Engine ι) : Prop where
  registry : e'.registry = e.registry
  nextId : e'.nextId = e.nextId
  snapshots : ∀ id s', e'.snapshot? id = some s' →
    ∃ s, e.snapshot? id = some s ∧ s'.id = s.id ∧ s'.blob.bytes = s.blob.bytes

namespace Narrows

theorem of_snapshots_eq (hregistry : e'.registry = e.registry) (hnextId : e'.nextId = e.nextId)
    (hsnapshots : e'.snapshots = e.snapshots) : e.Narrows e' where
  registry := hregistry
  nextId := hnextId
  snapshots := fun id s' h => ⟨s', by rwa [snapshot?, ← hsnapshots], rfl, rfl⟩

theorem refl : e.Narrows e := of_snapshots_eq rfl rfl rfl

theorem trans (h : e.Narrows e') (h' : e'.Narrows e'') : e.Narrows e'' where
  registry := h'.registry.trans h.registry
  nextId := h'.nextId.trans h.nextId
  snapshots := by
    intro id s'' hs''
    obtain ⟨s', hs', hid', hbytes'⟩ := h'.snapshots id s'' hs''
    obtain ⟨s, hs, hid, hbytes⟩ := h.snapshots id s' hs'
    exact ⟨s, hs, hid'.trans hid, hbytes'.trans hbytes⟩

theorem setSnapshot {s s' : Snapshot} (hs : e.snapshot? s.id = some s) (hid : s'.id = s.id)
    (hbytes : s'.blob.bytes = s.blob.bytes) : e.Narrows (e.setSnapshot s') where
  registry := rfl
  nextId := rfl
  snapshots := by
    intro id t ht
    rw [snapshot?_setSnapshot] at ht
    split at ht
    · next heq =>
      obtain rfl := Option.some.inj ht
      rw [hid] at heq
      rw [heq] at hs
      exact ⟨s, hs, hid, hbytes⟩
    · exact ⟨t, ht, rfl, rfl⟩

theorem settle : e.Narrows e.settle := by
  apply of_snapshots_eq _ _ e.snapshots_settle
  · unfold Engine.settle
    split <;> rfl
  · unfold Engine.settle
    split <;> rfl

theorem deactivate : e.Narrows (e.deactivate id) := by
  unfold Engine.deactivate
  split
  · exact of_snapshots_eq rfl rfl rfl
  · exact refl

end Narrows

theorem narrows_destroy (e : Engine ι) (id : SnapshotId) : e.Narrows (e.destroy id).2 := by
  unfold destroy
  split
  · exact .refl
  · next s hs =>
    have herase : e.Narrows { e.deactivate id with snapshots := e.snapshots.erase id } :=
      { registry := Narrows.deactivate.registry
        nextId := Narrows.deactivate.nextId
        snapshots := by
          intro other t ht
          simp only [snapshot?, Table.find?_erase] at ht
          split at ht
          · simp at ht
          · exact ⟨t, ht, rfl, rfl⟩ }
    dsimp only
    split
    · exact (herase.trans .settle).trans (.of_snapshots_eq rfl rfl rfl)
    · exact herase.trans (.of_snapshots_eq rfl rfl rfl)

theorem narrows_restore [DecidableEq ι] (devices : Devices M)
    (hgets : ∀ i state, ((M.model i).restore state).GetsOnly)
    (hid : ∀ s, e.snapshot? id = some s → s.id = id) :
    e.Narrows (e.restore devices id).2.1 := by
  unfold restore
  split
  · exact .refl
  · next s hs =>
    have hsid : e.snapshot? s.id = some s := by rw [hid s hs, hs]
    split
    · exact .refl
    · split
      · exact .refl
      · have hbytes := congrArg Stream.bytes
          (e.registry.restore_preserves devices s.blob.reset hgets).2
        split
        · next _ blob hrestore =>
          rw [hrestore] at hbytes
          have hset : e.Narrows (e.setSnapshot { s with blob }) :=
            .setSnapshot hsid rfl hbytes
          exact hset.trans (.of_snapshots_eq rfl rfl rfl)
        · next _ blob hrestore =>
          rw [hrestore] at hbytes
          have hset : e.Narrows (e.setSnapshot { s with blob, restored := true }) :=
            .setSnapshot hsid rfl hbytes
          exact hset.trans (.of_snapshots_eq rfl rfl rfl)

theorem access_restore [DecidableEq ι]
    (hgets : ∀ i state, ((M.model i).restore state).GetsOnly) :
    (e.restore devices id).2.2.access = devices.access := by
  unfold restore
  split
  · rfl
  · next s hs =>
    split
    · rfl
    · split
      · rfl
      · have haccess := (e.registry.restore_preserves devices s.blob.reset hgets).1
        split
        · next hrestore =>
          rw [hrestore] at haccess
          exact haccess
        · next hrestore =>
          rw [hrestore] at haccess
          exact haccess

theorem restore_of_live [DecidableEq ι] {s : Snapshot} (devices : Devices M)
    (hs : e.snapshot? id = some s) (hopen : s.frozen = false) (hempty : s.blob.isEmpty)
    (hactive : e.active = some id) : e.restore devices id = (.ok (), e, devices) := by
  rw [restore, hs]
  dsimp only
  rw [if_neg (by simp [hopen]), if_pos ⟨hempty, hactive⟩]

theorem restore_of_error [DecidableEq ι] {s : Snapshot} {failure : BlobError} {blob : Stream}
    {devices' : Devices M} (hs : e.snapshot? id = some s) (hopen : s.frozen = false)
    (hlive : ¬(s.blob.isEmpty ∧ e.active = some id))
    (h : e.registry.restore devices s.blob.reset = (.error failure, devices', blob)) :
    e.restore devices id
      =
    (.error (.blob failure), { e.setSnapshot { s with blob } with active := none }, devices') := by
  rw [restore, hs]
  dsimp only
  rw [if_neg (by simp [hopen]), if_neg hlive, h]

theorem restore_of_ok [DecidableEq ι] {s : Snapshot} {blob : Stream} {devices' : Devices M}
    (hs : e.snapshot? id = some s) (hopen : s.frozen = false)
    (hlive : ¬(s.blob.isEmpty ∧ e.active = some id))
    (h : e.registry.restore devices s.blob.reset = (.ok (), devices', blob)) :
    e.restore devices id
      =
    (.ok (), { e.setSnapshot { s with blob, restored := true } with active := some id },
      devices') := by
  rw [restore, hs]
  dsimp only
  rw [if_neg (by simp [hopen]), if_neg hlive, h]

theorem restore_congr [DecidableEq ι] {s t : Snapshot} {devices' : Devices M}
    (hs : e.snapshot? id = some s) (hopen : s.frozen = false)
    (hlive : ¬(s.blob.isEmpty ∧ e.active = some id)) (ht : e'.snapshot? id = some t)
    (hopen' : t.frozen = false) (hlive' : ¬(t.blob.isEmpty ∧ e'.active = some id))
    (h : e'.registry.restore devices' t.blob.reset = e.registry.restore devices s.blob.reset) :
    (e'.restore devices' id).1 = (e.restore devices id).1 ∧
      (e'.restore devices' id).2.2 = (e.restore devices id).2.2 ∧
      (e'.restore devices' id).2.1.active = (e.restore devices id).2.1.active := by
  rcases hrestore : e.registry.restore devices s.blob.reset with ⟨failure | _, devices₁, blob⟩
  · rw [hrestore] at h
    rw [restore_of_error hs hopen hlive hrestore, restore_of_error ht hopen' hlive' h]
    exact ⟨rfl, rfl, rfl⟩
  · rw [hrestore] at h
    rw [restore_of_ok hs hopen hlive hrestore, restore_of_ok ht hopen' hlive' h]
    exact ⟨rfl, rfl, rfl⟩

theorem exists_failure_of_restore [DecidableEq ι] {s : Snapshot} {error : EngineError}
    {devices' : Devices M} (hs : e.snapshot? id = some s) (hopen : s.frozen = false)
    (h : e.restore devices id = (.error error, e', devices')) :
    ¬(s.blob.isEmpty ∧ e.active = some id) ∧ ∃ failure blob, error = .blob failure ∧
      e.registry.restore devices s.blob.reset = (.error failure, devices', blob) ∧
      e' = { e.setSnapshot { s with blob } with active := none } := by
  rw [restore, hs] at h
  dsimp only at h
  rw [if_neg (by simp [hopen])] at h
  split at h
  · simp at h
  · next hlive =>
    refine ⟨hlive, ?_⟩
    split at h
    · next hrestore =>
      cases h
      exact ⟨_, _, rfl, hrestore, rfl⟩
    · simp at h

theorem save_cases {s : Snapshot} (devices : Devices M) (hs : e.snapshot? id = some s) :
    (s.frozen ∨ e.active ≠ some id) ∧
        (∃ error, e.save devices id = (.error error, e) ∧ ∀ failure, error ≠ .blob failure) ∨
      ¬(s.frozen ∨ e.active ≠ some id) ∧
        ((∃ failure blob, e.registry.save devices s.blob.reset = (.error failure, blob) ∧
            e.save devices id = (.error (.blob failure), e.setSnapshot { s with blob })) ∨
          ∃ blob, e.registry.save devices s.blob.reset = (.ok (), blob) ∧
            e.save devices id
              =
            (.ok (), e.setSnapshot ({ s with blob := blob.truncate }.noteSave e.config))) := by
  unfold save
  rw [hs]
  dsimp only
  split
  · next hfrozen => exact .inl ⟨.inl hfrozen, _, rfl, by simp⟩
  · next hfrozen =>
    split
    · next hactive => exact .inl ⟨.inr hactive, _, rfl, by simp⟩
    · next hactive =>
      refine .inr ⟨by simp [hfrozen, hactive], ?_⟩
      split
      · next failure blob hsave => exact .inl ⟨failure, blob, hsave, rfl⟩
      · next blob hsave => exact .inr ⟨blob, hsave, rfl⟩

theorem addRoot_cases (e : Engine ι) :
    (∃ error, e.addRoot.1 = .error error) ∧ e.Narrows e.addRoot.2 ∨
      e.registry.isInitialized ∧ ∃ e₁ blob node, e.Narrows e₁ ∧
        e.addRoot.1 = .ok (e₁.addSnapshot blob node).1 ∧
        (e₁.addSnapshot blob node).2.Narrows e.addRoot.2 := by
  unfold addRoot
  split
  · exact .inl ⟨⟨_, rfl⟩, .refl⟩
  · next hinit =>
    split
    · exact .inl ⟨⟨_, rfl⟩, .refl⟩
    · split
      · exact .inl ⟨⟨_, rfl⟩, .refl⟩
      · next blob hblob =>
        dsimp only
        split
        · exact .inl ⟨⟨_, rfl⟩, Narrows.settle.trans (.of_snapshots_eq rfl rfl rfl)⟩
        · next node lineage hroot =>
          refine .inr ⟨by simpa using hinit, _, blob, node, ?_, rfl, .of_snapshots_eq rfl rfl rfl⟩
          exact Narrows.settle.trans (.of_snapshots_eq rfl rfl rfl)

theorem fork_cases (e : Engine ι) (id : SnapshotId)
    (hid : ∀ s, e.snapshot? id = some s → s.id = id) :
    (∃ error, (e.fork id).1 = .error error) ∧ e.Narrows (e.fork id).2 ∨
      ∃ s e₁ left right, e.snapshot? id = some s ∧ e.Narrows e₁ ∧
        (e.fork id).1
          =
        .ok ((e₁.addSnapshot s.blob.clone left).1,
          ((e₁.addSnapshot s.blob.clone left).2.addSnapshot s.blob.clone right).1) ∧
        (e.fork id).2 = ((e₁.addSnapshot s.blob.clone left).2.addSnapshot s.blob.clone right).2 := by
  unfold fork
  split
  · exact .inl ⟨⟨_, rfl⟩, .refl⟩
  · next s hs =>
    split
    · exact .inl ⟨⟨_, rfl⟩, .refl⟩
    · split
      · exact .inl ⟨⟨_, rfl⟩, .settle⟩
      · dsimp only
        split
        · exact .inl ⟨⟨_, rfl⟩, Narrows.settle.trans (.of_snapshots_eq rfl rfl rfl)⟩
        · next left right lineage hfork =>
          have hsid : { e.settle with lineage }.snapshot? s.id = some s := by
            rw [hid s hs, ← hs]
            exact e.snapshot?_settle id
          have hlineage : e.Narrows { e.settle with lineage } :=
            Narrows.settle.trans (.of_snapshots_eq rfl rfl rfl)
          have hset : { e.settle with lineage }.Narrows
              ({ e.settle with lineage }.setSnapshot { s with frozen := true }) :=
            .setSnapshot hsid rfl rfl
          exact .inr ⟨s, _, left, right, hs, (hlineage.trans hset).trans .deactivate, rfl, rfl⟩

end Engine

end MachineFork
