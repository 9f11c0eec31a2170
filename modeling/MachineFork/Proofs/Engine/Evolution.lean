import MachineFork.Proofs.Engine.Owners

/-!
This module contains how the snapshots of an engine come and go. The calls of an engine make snapshots
under the next numbers only, and forking is the only way to freeze one, for good. Whatever they do, the
active snapshot is one that is there and may still be changed.
-/

namespace MachineFork

/--
A snapshot that has been made, and the one that was forked to make it. The root has no parent.
-/
structure Birth where
  id : SnapshotId
  parent : Option SnapshotId
  deriving DecidableEq, Repr

namespace Birth

def ofRoot : Except EngineError Snapshot → List Birth
  | .error _ => []
  | .ok s => [⟨s.id, none⟩]

def ofFork (parent : SnapshotId) : Except EngineError (Snapshot × Snapshot) → List Birth
  | .error _ => []
  | .ok (left, right) => [⟨left.id, some parent⟩, ⟨right.id, some parent⟩]

theorem number_mem {births : List Birth} {id : SnapshotId} (h : id ∈ births.map (·.id)) :
    id.number ∈ births.map (·.id.number) := by
  obtain ⟨birth, hbirth, rfl⟩ := List.mem_map.mp h
  exact List.mem_map_of_mem hbirth

end Birth

namespace Engine

variable {ι : Type} {M : Machine ι} {e e' e'' : Engine ι} {devices : Devices M}
variable {id : SnapshotId} {s t : Snapshot} {births births' : List Birth} {reading : List SnapshotId}

theorem snapshot?_deactivate (e : Engine ι) (id other : SnapshotId) :
    (e.deactivate id).snapshot? other = e.snapshot? other := by
  obtain ⟨active, hdeactivate⟩ := e.deactivate_eq id
  rw [hdeactivate]
  rfl

theorem active_deactivate_ne (e : Engine ι) (id : SnapshotId) :
    (e.deactivate id).active ≠ some id := by
  unfold deactivate
  split
  · simp
  · assumption

theorem deactivate_setSnapshot (e : Engine ι) (s : Snapshot) (id : SnapshotId) :
    (e.setSnapshot s).deactivate id = (e.deactivate id).setSnapshot s := by
  unfold deactivate setSnapshot
  dsimp only
  split
  · rfl
  · rfl

def Mirrored (e : Engine ι) : Prop :=
  ∀ id, e.active = some id → ∃ s, e.snapshot? id = some s ∧ s.frozen = false

structure Evolves (e : Engine ι) (births : List Birth) (e' : Engine ι) : Prop where
  ids : births.map (·.id.number) = List.range' e.nextId births.length
  nextId : e'.nextId = e.nextId + births.length
  roots : e'.rootCreated.toNat = e.rootCreated.toNat + births.countP (·.parent.isNone)
  snapshots : ∀ id t, e'.snapshot? id = some t →
    (∃ s, e.snapshot? id = some s ∧ (s.frozen = true → t.frozen = true)) ∨
      id ∈ births.map (·.id)
  mirrored : e.Mirrored → e'.Mirrored

namespace Evolves

theorem of_eq (hnextId : e'.nextId = e.nextId) (hroot : e'.rootCreated = e.rootCreated)
    (hsnapshots : e'.snapshots = e.snapshots) (hactive : e'.active = e.active) :
    e.Evolves [] e' where
  ids := rfl
  nextId := hnextId
  roots := congrArg Bool.toNat hroot
  snapshots := by
    intro id t ht
    unfold snapshot? at *
    rw [hsnapshots] at ht
    exact .inl ⟨t, ht, fun h => h⟩
  mirrored := by
    intro h id hid
    unfold snapshot? at *
    rw [hsnapshots]
    rw [hactive] at hid
    exact h id hid

theorem refl : e.Evolves [] e := of_eq rfl rfl rfl rfl

theorem trans (h : e.Evolves births e') (h' : e'.Evolves births' e'') :
    e.Evolves (births ++ births') e'' where
  ids := by
    rw [List.map_append]
    rw [h.ids, h'.ids, h.nextId]
    rw [List.length_append]
    rw [← List.range'_append_1]
  nextId := by
    rw [h'.nextId, h.nextId]
    rw [List.length_append]
    omega
  roots := by
    rw [h'.roots, h.roots]
    rw [List.countP_append]
    omega
  snapshots := by
    intro id u hu
    rw [List.map_append, List.mem_append]
    cases h'.snapshots id u hu with
    | inr hborn => exact .inr (.inr hborn)
    | inl hkept =>
      obtain ⟨t, ht, hfrozen'⟩ := hkept
      cases h.snapshots id t ht with
      | inr hborn => exact .inr (.inl hborn)
      | inl hkept =>
        obtain ⟨s, hs, hfrozen⟩ := hkept
        exact .inl ⟨s, hs, fun h => hfrozen' (hfrozen h)⟩
  mirrored := by
    intro hmirrored
    apply h'.mirrored
    apply h.mirrored
    exact hmirrored

theorem nil_trans (h : e.Evolves [] e') (h' : e'.Evolves births e'') : e.Evolves births e'' :=
  h.trans h'

theorem number_of_mem (h : e.Evolves births e') (hid : id ∈ births.map (·.id)) :
    e.nextId ≤ id.number := by
  have hnumber := Birth.number_mem hid
  rw [h.ids, List.mem_range'_1] at hnumber
  exact hnumber.1

theorem exists_snapshot (h : e.Evolves births e') (hid : id.number < e.nextId)
    (ht : e'.snapshot? id = some t) :
    ∃ s, e.snapshot? id = some s ∧ (s.frozen = true → t.frozen = true) := by
  cases h.snapshots id t ht with
  | inl hkept => exact hkept
  | inr hborn =>
    have := h.number_of_mem hborn
    omega

theorem snapshot?_eq_none (h : e.Evolves births e') (hid : id.number < e.nextId)
    (hgone : e.snapshot? id = none) : e'.snapshot? id = none := by
  cases ht : e'.snapshot? id with
  | none => rfl
  | some t =>
    obtain ⟨s, hs, -⟩ := h.exists_snapshot hid ht
    rw [hgone] at hs
    contradiction

/-! Without births. -/

theorem of_kept (hnextId : e'.nextId = e.nextId) (hroot : e'.rootCreated = e.rootCreated)
    (hsnapshots : ∀ id t, e'.snapshot? id = some t →
      ∃ s, e.snapshot? id = some s ∧ (s.frozen = true → t.frozen = true))
    (hmirrored : e.Mirrored → e'.Mirrored) : e.Evolves [] e' where
  ids := rfl
  nextId := hnextId
  roots := congrArg Bool.toNat hroot
  snapshots := fun id t ht => .inl (hsnapshots id t ht)
  mirrored := hmirrored

theorem settle : e.Evolves [] e.settle := by
  unfold Engine.settle
  split
  · exact of_eq rfl rfl rfl rfl
  · exact refl

theorem setSnapshot (hs : e.snapshot? t.id = some s)
    (hfrozen : s.frozen = true → t.frozen = true)
    (hactive : e.active = some t.id → s.frozen = false → t.frozen = false) :
    e.Evolves [] (e.setSnapshot t) := by
  apply of_kept
  · rfl
  · rfl
  · intro id u hu
    rw [snapshot?_setSnapshot] at hu
    split at hu
    · next heq =>
      cases hu
      rw [heq] at hs
      exact ⟨s, hs, hfrozen⟩
    · exact ⟨u, hu, fun h => h⟩
  · intro hmirrored id hid
    obtain ⟨u, hu, hopen⟩ := hmirrored id hid
    rw [snapshot?_setSnapshot]
    split
    · next heq =>
      rw [heq, hu] at hs
      cases hs
      rw [heq] at hactive
      exact ⟨t, rfl, hactive hid hopen⟩
    · exact ⟨u, hu, hopen⟩

theorem replace (h : e.Keeps reading) (hs : e.snapshot? id = some s) (hid : t.id = s.id)
    (hfrozen : t.frozen = s.frozen) : e.Evolves [] (e.setSnapshot t) := by
  apply setSnapshot (s := s)
  · rw [hid, (h.keyed id s hs).1]
    exact hs
  · rw [hfrozen]
    exact fun h => h
  · rw [hfrozen]
    exact fun _ h => h

theorem erase (hactive : e.active ≠ some id) :
    e.Evolves [] { e with snapshots := e.snapshots.erase id } := by
  apply of_kept
  · rfl
  · rfl
  · intro other t ht
    rw [snapshot?, Table.find?_erase] at ht
    split at ht
    · contradiction
    · exact ⟨t, ht, fun h => h⟩
  · intro hmirrored other hother
    rw [snapshot?, Table.find?_erase]
    rw [if_neg]
    · exact hmirrored other hother
    · rintro rfl
      exact hactive hother

theorem setActive {active : Option SnapshotId}
    (hactive : ∀ id, active = some id → ∃ s, e.snapshot? id = some s ∧ s.frozen = false) :
    e.Evolves [] { e with active } := by
  apply of_kept
  · rfl
  · rfl
  · intro id t ht
    exact ⟨t, ht, fun h => h⟩
  · intro _
    exact hactive

theorem deactivate (e : Engine ι) (id : SnapshotId) : e.Evolves [] (e.deactivate id) := by
  unfold Engine.deactivate
  split
  · apply setActive
    simp
  · exact refl

theorem freeze (hs : e.snapshot? id = some s) (hid : s.id = id) :
    e.Evolves [] ((e.setSnapshot { s with frozen := true }).deactivate id) := by
  rw [deactivate_setSnapshot]
  apply (deactivate e id).trans
  apply setSnapshot (s := s)
  · rw [snapshot?_deactivate]
    dsimp only
    rw [hid, hs]
  · simp
  · intro hactive
    dsimp only at hactive
    rw [hid] at hactive
    exact absurd hactive (active_deactivate_ne e id)

theorem remove (e : Engine ι) (id : SnapshotId) :
    e.Evolves [] { e.deactivate id with snapshots := e.snapshots.erase id } := by
  have hsnapshots : (e.deactivate id).snapshots = e.snapshots := by
    obtain ⟨active, hdeactivate⟩ := e.deactivate_eq id
    rw [hdeactivate]
  have herase := erase (active_deactivate_ne e id)
  rw [hsnapshots] at herase
  exact (deactivate e id).trans herase

/-! With births. -/

theorem child (e : Engine ι) (parent : SnapshotId) (blob : Stream) (node : NodeId) :
    e.Evolves [⟨⟨e.nextId⟩, some parent⟩] (e.addSnapshot blob node).2 where
  ids := rfl
  nextId := rfl
  roots := rfl
  snapshots := by
    intro id t ht
    rw [snapshot?_addSnapshot] at ht
    split at ht
    · next heq =>
      right
      simp [heq]
    · exact .inl ⟨t, ht, fun h => h⟩
  mirrored := by
    intro hmirrored id hid
    obtain ⟨s, hs, hopen⟩ := hmirrored id hid
    rw [snapshot?_addSnapshot]
    split
    · exact ⟨_, rfl, rfl⟩
    · exact ⟨s, hs, hopen⟩

theorem root (hroot : e.rootCreated = false) (blob : Stream) (node : NodeId) :
    e.Evolves [⟨⟨e.nextId⟩, none⟩]
      { ({ e with rootCreated := true }.addSnapshot blob node).2 with
        active := some ⟨e.nextId⟩ } where
  ids := rfl
  nextId := rfl
  roots := by
    rw [hroot]
    rfl
  snapshots := by
    intro id t ht
    have ht : ({ e with rootCreated := true }.addSnapshot blob node).2.snapshot? id = some t := ht
    rw [snapshot?_addSnapshot] at ht
    split at ht
    · next heq =>
      right
      simp [heq]
    · exact .inl ⟨t, ht, fun h => h⟩
  mirrored := by
    intro _ id hid
    cases hid
    refine ⟨({ e with rootCreated := true }.addSnapshot blob node).1, ?_, rfl⟩
    exact (snapshot?_addSnapshot { e with rootCreated := true } blob node _).trans (if_pos rfl)

/-! From a new engine on. -/

section

variable {config : Config}

theorem map_number (h : Evolves { config } births e) :
    births.map (·.id.number) = List.range e.nextId := by
  rw [h.ids, h.nextId]
  rw [List.range_eq_range']
  dsimp only
  rw [Nat.zero_add]

theorem mem (h : Evolves { config } births e) (hs : e.snapshot? id = some s) :
    id ∈ births.map (·.id) := by
  cases h.snapshots id s hs with
  | inl hkept =>
    obtain ⟨t, ht, -⟩ := hkept
    contradiction
  | inr hborn => exact hborn

theorem countP_le (h : Evolves { config } births e) : births.countP (·.parent.isNone) ≤ 1 := by
  have hroots := h.roots
  have hroot := e.rootCreated.toNat_le
  dsimp only [Bool.toNat_false] at hroots
  omega

theorem mirrored_of_new (h : Evolves { config } births e) : e.Mirrored := by
  apply h.mirrored
  intro id hid
  contradiction

end

end Evolves

/-! The calls of an engine. -/

theorem evolves_startUp (e : Engine ι)
    (body : Registry ι → Except BlobError Unit × Registry ι) :
    e.Evolves [] (e.startUp body).2 :=
  .of_eq rfl rfl rfl rfl

theorem evolves_register [DecidableEq ι] (e : Engine ι) (devices : Devices M) (id : DeviceId)
    (i : ι) : e.Evolves [] (e.register devices id i).2 :=
  .of_eq rfl rfl rfl rfl

theorem evolves_attach (e : Engine ι) (name : String) (image : BaseImage) :
    e.Evolves [] (e.attach name image).2 := by
  apply Evolves.settle.trans
  unfold attach
  dsimp only
  split
  · exact .of_eq rfl rfl rfl rfl
  · exact .of_eq rfl rfl rfl rfl

theorem evolves_detach (e : Engine ι) (disk : DiskHandle) :
    e.Evolves [] (e.detach disk).2 := by
  apply Evolves.settle.trans
  unfold detach
  dsimp only
  split
  · exact .of_eq rfl rfl rfl rfl
  · exact .of_eq rfl rfl rfl rfl

theorem evolves_withNode (e : Engine ι) (id : SnapshotId)
    (write : Lineage → NodeId → Except DiskError Unit × Lineage) :
    e.Evolves [] (e.withNode id write).2 := by
  unfold withNode
  split
  · exact .refl
  · split
    · exact .refl
    · apply Evolves.settle.trans
      exact .of_eq rfl rfl rfl rfl

theorem evolves_destroy (e : Engine ι) (id : SnapshotId) : e.Evolves [] (e.destroy id).2 := by
  unfold destroy
  split
  · exact .refl
  · apply (Evolves.remove e id).trans
    dsimp only
    split
    · apply Evolves.settle.trans
      exact .of_eq rfl rfl rfl rfl
    · exact .of_eq rfl rfl rfl rfl

theorem evolves_save (h : e.Keeps reading) (devices : Devices M) (id : SnapshotId) :
    e.Evolves [] (e.save devices id).2 := by
  cases hs : e.snapshot? id with
  | none =>
    unfold save
    rw [hs]
    exact .refl
  | some s =>
    rcases save_cases devices hs with
      ⟨-, error, hsave, -⟩ | ⟨-, ⟨failure, blob, -, hsave⟩ | ⟨blob, -, hsave⟩⟩
    · rw [hsave]
      exact .refl
    · rw [hsave]
      exact .replace h hs rfl rfl
    · rw [hsave]
      apply Evolves.replace h hs
      · apply Snapshot.id_noteSave
      · apply Snapshot.frozen_noteSave

theorem restore_cases [DecidableEq ι] (devices : Devices M) (hs : e.snapshot? id = some s) :
    s.frozen = true ∧ (e.restore devices id) = (.error (.frozen id), e, devices) ∨
    s.frozen = false ∧
      (e.active = some id ∧ (e.restore devices id) = (.ok (), e, devices) ∨
        (∃ failure blob devices', e.restore devices id
          =
          (.error (.blob failure), { e.setSnapshot { s with blob } with active := none },
            devices')) ∨
        ∃ blob devices', e.restore devices id
          =
          (.ok (), { e.setSnapshot { s with blob, restored := true } with active := some id },
            devices')) := by
  unfold restore
  rw [hs]
  dsimp only
  split
  · next hfrozen => exact .inl ⟨hfrozen, rfl⟩
  · next hfrozen =>
    refine .inr ⟨by simpa using hfrozen, ?_⟩
    split
    · next hempty => exact .inl ⟨hempty.2, rfl⟩
    · split
      · exact .inr (.inl ⟨_, _, _, rfl⟩)
      · exact .inr (.inr ⟨_, _, rfl⟩)

theorem evolves_restore [DecidableEq ι] (h : e.Keeps reading) (devices : Devices M)
    (id : SnapshotId) : e.Evolves [] (e.restore devices id).2.1 := by
  cases hs : e.snapshot? id with
  | none =>
    unfold restore
    rw [hs]
    exact .refl
  | some s =>
    rcases restore_cases devices hs with
      ⟨-, hrestore⟩ | ⟨hopen, ⟨-, hrestore⟩ | ⟨_, blob, _, hrestore⟩ | ⟨blob, _, hrestore⟩⟩
    · rw [hrestore]
      exact .refl
    · rw [hrestore]
      exact .refl
    · rw [hrestore]
      apply (Evolves.replace (t := { s with blob }) h hs rfl rfl).trans
      apply Evolves.setActive
      simp
    · rw [hrestore]
      apply (Evolves.replace (t := { s with blob, restored := true }) h hs rfl rfl).trans
      apply Evolves.setActive
      intro other hother
      cases hother
      rw [snapshot?_setSnapshot]
      rw [if_pos (h.keyed id s hs).1]
      exact ⟨_, rfl, hopen⟩

theorem evolves_readInto {τ : Type} (e : Engine ι) (id : SnapshotId) (disk : DiskHandle)
    (index : UInt64) (buffer : Bytes) {fallback : Fallback (Engine ι × τ)} (state : τ)
    (hfallback : (e.snapshot? id).isSome → ∀ old,
      Evolves { e.settle with readers := e.settle.readers + 1 } []
        (fallback disk index old
          ({ e.settle with readers := e.settle.readers + 1 }, state)).2.2.1) :
    e.Evolves [] (e.readInto id disk index buffer fallback state).2.2.1 := by
  apply readInto_preserves (fun after _ => e.Evolves [] after) (fun after _ => e.Evolves [] after)
  · exact fun _ => .refl
  · intro hid
    have hentered : e.Evolves [] { e.settle with readers := e.settle.readers + 1 } := by
      apply Evolves.settle.trans
      exact .of_eq rfl rfl rfl rfl
    exact ⟨hentered, fun old => hentered.trans (hfallback hid old)⟩
  · intro after _ hafter
    apply hafter.trans
    exact .of_eq rfl rfl rfl rfl

/-! The calls that make snapshots. -/

theorem rootCreated_settle (e : Engine ι) : e.settle.rootCreated = e.rootCreated := by
  unfold settle
  split
  · rfl
  · rfl

theorem evolves_addRoot (e : Engine ι) :
    e.Evolves (Birth.ofRoot e.addRoot.1) e.addRoot.2 := by
  unfold addRoot
  split
  · exact .refl
  · split
    · exact .refl
    · next hroot =>
      split
      · exact .refl
      · next blob _ =>
        apply Evolves.settle.nil_trans
        dsimp only
        split
        · exact .of_eq rfl rfl rfl rfl
        · next node lineage _ =>
          have hlineage : e.settle.Evolves [] { e.settle with lineage } := .of_eq rfl rfl rfl rfl
          apply hlineage.nil_trans
          apply Evolves.root
          rw [rootCreated_settle]
          simpa using hroot

theorem evolves_fork (h : e.Keeps reading) (id : SnapshotId) :
    e.Evolves (Birth.ofFork id (e.fork id).1) (e.fork id).2 := by
  unfold fork
  cases hs : e.snapshot? id with
  | none => exact .refl
  | some s =>
    have hkey := (h.keyed id s hs).1
    dsimp only
    split
    · exact .refl
    · split
      · exact .settle
      · apply Evolves.settle.nil_trans
        split
        · exact .of_eq rfl rfl rfl rfl
        · next left right lineage _ =>
          have hlineage : e.settle.Evolves [] { e.settle with lineage } := .of_eq rfl rfl rfl rfl
          have hs' : { e.settle with lineage }.snapshot? id = some s :=
            (e.snapshot?_settle id).trans hs
          apply hlineage.nil_trans
          apply (Evolves.freeze hs' hkey).nil_trans
          exact (Evolves.child _ id s.blob.clone left).trans
            (Evolves.child _ id s.blob.clone right)

end Engine

end MachineFork
