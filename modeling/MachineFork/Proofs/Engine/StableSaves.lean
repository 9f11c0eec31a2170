import MachineFork.Proofs.Engine.Walks

/-!
This module contains the counter of stable saves. The history of a snapshot, that is the lengths of
its successful saves, explains it. Nothing but a save changes the counter, or the memory that is
reserved for a blob.
-/

namespace MachineFork

theorem replicate_suffix_concat {k a b : Nat} {lengths : List Nat} :
    List.replicate (k + 1) a <:+ lengths ++ [b] ↔ List.replicate k a <:+ lengths ∧ a = b := by
  have hlength : [a].length = [b].length := rfl
  rw [List.replicate_succ', List.suffix_append_inj_of_length_eq hlength, List.singleton_inj]

namespace Snapshot

variable {s t : Snapshot} {lengths : List Nat} {config : Config}

def stableAfter (s : Snapshot) : Nat :=
  if s.lastSavedLength = some s.blob.length then min (s.stableSaves + 1) maxStableSaves else 0

theorem noteSave_eq (s : Snapshot) (config : Config) :
    s.noteSave config
      =
    { s with
      lastSavedLength := some s.blob.length
      stableSaves := s.stableAfter
      blob :=
        if config.shrinkAfter = 0 ∨ s.stableAfter < config.shrinkAfter then
          s.blob
        else
          s.blob.shrink (max s.blob.length config.preferredSize) } := by
  unfold noteSave stableAfter
  dsimp only
  by_cases hlast : s.lastSavedLength = some s.blob.length
  · rw [if_pos hlast, if_pos hlast]
    dsimp only
    rw [← hlast]
    split
    · rfl
    · rfl
  · rw [if_neg hlast, if_neg hlast]
    dsimp only
    split
    · rfl
    · rfl

theorem capacity_noteSave (s : Snapshot) (config : Config) :
    (s.noteSave config).blob.capacity
      =
    if config.shrinkAfter = 0 ∨ s.stableAfter < config.shrinkAfter then
      s.blob.capacity
    else
      min s.blob.capacity (max s.blob.length config.preferredSize) := by
  rw [noteSave_eq]
  dsimp only
  split
  · rfl
  · dsimp only [Stream.shrink]
    rw [← Nat.max_assoc, Nat.max_self]

/--
Whether the counter of a snapshot is what it has to be when its successful saves so far have had the
given lengths, the last one at the end.
-/
def Counts (s : Snapshot) (lengths : List Nat) : Prop :=
  ∀ k length, k ≤ maxStableSaves →
    (s.lastSavedLength = some length ∧ k ≤ s.stableSaves
      ↔
    List.replicate (k + 1) length <:+ lengths)

theorem counts_nil (h : s.lastSavedLength = none) : s.Counts [] := by
  intro k length _
  simp [h]

theorem Counts.congr (h : s.Counts lengths) (hlast : t.lastSavedLength = s.lastSavedLength)
    (hstable : t.stableSaves = s.stableSaves) : t.Counts lengths := by
  unfold Counts
  rw [hlast, hstable]
  exact h

theorem Counts.le_stableAfter_iff (h : s.Counts lengths) {k : Nat} (hk : k ≤ maxStableSaves) :
    k ≤ s.stableAfter ↔ List.replicate k s.blob.length <:+ lengths := by
  cases k with
  | zero => simp
  | succ k =>
    rw [← h k s.blob.length (by omega)]
    unfold stableAfter
    split
    · next hlast =>
      simp only [hlast, true_and]
      omega
    · next hlast => simp [hlast]

theorem Counts.noteSave (h : s.Counts lengths) (config : Config) :
    (s.noteSave config).Counts (lengths ++ [s.blob.length]) := by
  intro k length hk
  rw [replicate_suffix_concat, noteSave_eq]
  dsimp only
  rw [Option.some.injEq, h.le_stableAfter_iff hk]
  constructor
  · rintro ⟨rfl, hstable⟩
    exact ⟨hstable, rfl⟩
  · rintro ⟨hstable, rfl⟩
    exact ⟨rfl, hstable⟩

structure SavedAlike (s t : Snapshot) : Prop where
  capacity : t.blob.capacity = s.blob.capacity
  lastSavedLength : t.lastSavedLength = s.lastSavedLength
  stableSaves : t.stableSaves = s.stableSaves

theorem SavedAlike.refl (s : Snapshot) : s.SavedAlike s := ⟨rfl, rfl, rfl⟩

theorem SavedAlike.trans {u : Snapshot} (h : s.SavedAlike t) (h' : t.SavedAlike u) :
    s.SavedAlike u where
  capacity := h'.capacity.trans h.capacity
  lastSavedLength := h'.lastSavedLength.trans h.lastSavedLength
  stableSaves := h'.stableSaves.trans h.stableSaves

end Snapshot

/-! Calls that save nothing. -/

namespace Engine

variable {ι : Type} {M : Machine ι} {e e' e'' : Engine ι} {id : SnapshotId} {s t : Snapshot}
variable {reading : List SnapshotId}

structure KeepsSaves (e e' : Engine ι) : Prop where
  nextId_le : e.nextId ≤ e'.nextId
  snapshots : ∀ id t, e'.snapshot? id = some t →
    (∃ s, e.snapshot? id = some s ∧ s.SavedAlike t) ∨
      e.nextId ≤ id.number ∧ t.lastSavedLength = none

namespace KeepsSaves

theorem of_eq (hnextId : e'.nextId = e.nextId) (hsnapshots : e'.snapshots = e.snapshots) :
    e.KeepsSaves e' where
  nextId_le := Nat.le_of_eq hnextId.symm
  snapshots := by
    intro id t ht
    unfold snapshot? at *
    rw [hsnapshots] at ht
    exact .inl ⟨t, ht, .refl t⟩

theorem refl : e.KeepsSaves e := of_eq rfl rfl

theorem trans (h : e.KeepsSaves e') (h' : e'.KeepsSaves e'') : e.KeepsSaves e'' where
  nextId_le := Nat.le_trans h.nextId_le h'.nextId_le
  snapshots := by
    intro id u hu
    cases h'.snapshots id u hu with
    | inr hnew => exact .inr ⟨Nat.le_trans h.nextId_le hnew.1, hnew.2⟩
    | inl hkept =>
      obtain ⟨t, ht, halike'⟩ := hkept
      cases h.snapshots id t ht with
      | inr hnew => exact .inr ⟨hnew.1, halike'.lastSavedLength.trans hnew.2⟩
      | inl hkept =>
        obtain ⟨s, hs, halike⟩ := hkept
        exact .inl ⟨s, hs, halike.trans halike'⟩

theorem settle : e.KeepsSaves e.settle := by
  unfold Engine.settle
  split
  · exact of_eq rfl rfl
  · exact refl

theorem deactivate (e : Engine ι) (id : SnapshotId) : e.KeepsSaves (e.deactivate id) := by
  unfold Engine.deactivate
  split
  · exact of_eq rfl rfl
  · exact refl

theorem setSnapshot (hs : e.snapshot? t.id = some s) (halike : s.SavedAlike t) :
    e.KeepsSaves (e.setSnapshot t) where
  nextId_le := Nat.le_refl _
  snapshots := by
    intro id u hu
    rw [snapshot?_setSnapshot] at hu
    split at hu
    · next heq =>
      cases hu
      rw [heq] at hs
      exact .inl ⟨s, hs, halike⟩
    · exact .inl ⟨u, hu, .refl u⟩

theorem addSnapshot (e : Engine ι) (blob : Stream) (node : NodeId) :
    e.KeepsSaves (e.addSnapshot blob node).2 where
  nextId_le := Nat.le_succ _
  snapshots := by
    intro id t ht
    rw [snapshot?_addSnapshot] at ht
    split at ht
    · next heq =>
      cases ht
      rw [← heq]
      exact .inr ⟨Nat.le_refl _, rfl⟩
    · exact .inl ⟨t, ht, .refl t⟩

theorem destroy (e : Engine ι) (id : SnapshotId) : e.KeepsSaves (e.destroy id).2 := by
  cases hs : e.snapshot? id with
  | none =>
    unfold Engine.destroy
    rw [hs]
    exact refl
  | some s =>
    obtain ⟨active, hdestroy⟩ := destroy_eq_settle hs
    rw [hdestroy]
    apply trans _ settle
    refine ⟨Nat.le_refl _, ?_⟩
    intro other t ht
    simp only [snapshot?, Table.find?_erase] at ht
    split at ht
    · contradiction
    · exact .inl ⟨t, ht, .refl t⟩

theorem attach (e : Engine ι) (name : String) (image : BaseImage) :
    e.KeepsSaves (e.attach name image).2 := by
  apply settle.trans
  unfold Engine.attach
  dsimp only
  split
  · exact of_eq rfl rfl
  · exact of_eq rfl rfl

theorem detach (e : Engine ι) (disk : DiskHandle) : e.KeepsSaves (e.detach disk).2 := by
  apply settle.trans
  unfold Engine.detach
  dsimp only
  split
  · exact of_eq rfl rfl
  · exact of_eq rfl rfl

theorem withNode (e : Engine ι) (id : SnapshotId)
    (write : Lineage → NodeId → Except DiskError Unit × Lineage) :
    e.KeepsSaves (e.withNode id write).2 := by
  unfold Engine.withNode
  split
  · exact refl
  · split
    · exact refl
    · apply settle.trans
      exact of_eq rfl rfl

theorem addRoot (e : Engine ι) : e.KeepsSaves e.addRoot.2 := by
  unfold Engine.addRoot
  split
  · exact refl
  · split
    · exact refl
    · split
      · exact refl
      · next blob _ =>
        apply settle.trans
        dsimp only
        split
        · exact of_eq rfl rfl
        · next node lineage _ =>
          have hlineage : e.settle.KeepsSaves { e.settle with lineage, rootCreated := true } :=
            of_eq rfl rfl
          exact (hlineage.trans (addSnapshot _ blob node)).trans (of_eq rfl rfl)

theorem fork (h : e.Keeps reading) (id : SnapshotId) : e.KeepsSaves (e.fork id).2 := by
  unfold Engine.fork
  cases hs : e.snapshot? id with
  | none => exact refl
  | some s =>
    dsimp only
    split
    · exact refl
    · split
      · exact settle
      · apply settle.trans
        split
        · exact of_eq rfl rfl
        · next left right lineage _ =>
          have hlineage : e.settle.KeepsSaves { e.settle with lineage } := of_eq rfl rfl
          have hself : { e.settle with lineage }.snapshot? s.id = some s := by
            rw [(h.keyed id s hs).1]
            exact (e.snapshot?_settle id).trans hs
          have hfrozen := setSnapshot (t := { s with frozen := true }) hself ⟨rfl, rfl, rfl⟩
          have hparent := (hlineage.trans hfrozen).trans (deactivate _ id)
          exact (hparent.trans (addSnapshot _ _ left)).trans (addSnapshot _ _ right)

theorem restore [DecidableEq ι] (h : e.Keeps reading) (devices : Devices M) (id : SnapshotId)
    (hgets : ∀ i state, ((M.model i).restore state).GetsOnly) :
    e.KeepsSaves (e.restore devices id).2.1 := by
  unfold Engine.restore
  cases hs : e.snapshot? id with
  | none => exact refl
  | some s =>
    have hself : e.snapshot? s.id = some s := by rw [(h.keyed id s hs).1, hs]
    have hreset := (e.registry.restore_preserves devices s.blob.reset hgets).2
    have hcapacity := congrArg Stream.capacity hreset
    dsimp only
    split
    · exact refl
    · split
      · exact refl
      · split
        · next blob hrestore =>
          rw [hrestore] at hcapacity
          have hset := setSnapshot (t := { s with blob }) hself ⟨hcapacity, rfl, rfl⟩
          exact hset.trans (of_eq rfl rfl)
        · next blob hrestore =>
          rw [hrestore] at hcapacity
          have hset := setSnapshot (t := { s with blob, restored := true }) hself
            ⟨hcapacity, rfl, rfl⟩
          exact hset.trans (of_eq rfl rfl)

end KeepsSaves

theorem snapshot?_save_of_ne {saved : SnapshotId} (h : e.Keeps reading) (devices : Devices M)
    (hne : saved ≠ id) : (e.save devices saved).2.snapshot? id = e.snapshot? id := by
  cases hs : e.snapshot? saved with
  | none => simp [save, hs]
  | some s =>
    have hkey := (h.keyed saved s hs).1
    rcases save_cases devices hs with
      ⟨-, error, hsave, -⟩ | ⟨-, ⟨failure, blob, -, hsave⟩ | ⟨blob, -, hsave⟩⟩
    · rw [hsave]
    · rw [hsave, snapshot?_setSnapshot, if_neg]
      rwa [hkey]
    · rw [hsave, snapshot?_setSnapshot, Snapshot.id_noteSave, if_neg]
      rwa [hkey]

theorem nextId_save (e : Engine ι) (devices : Devices M) (id : SnapshotId) :
    (e.save devices id).2.nextId = e.nextId := by
  cases hs : e.snapshot? id with
  | none => simp [save, hs]
  | some s =>
    rcases save_cases devices hs with
      ⟨-, error, hsave, -⟩ | ⟨-, ⟨failure, blob, -, hsave⟩ | ⟨blob, -, hsave⟩⟩
    · rw [hsave]
    · rw [hsave]
      rfl
    · rw [hsave]
      rfl

end Engine

end MachineFork
