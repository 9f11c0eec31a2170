import MachineFork.Proofs.Engine.Atomicity
import MachineFork.Proofs.Engine.Evolution

/-!
This module contains what the calls of an engine do to its disks and to the nodes of its snapshots. Only
calls that cannot be made during a read do more than to let snapshots and their nodes go.
-/

namespace MachineFork

namespace Engine

variable {ι : Type} {M : Machine ι} {e e' e'' : Engine ι} {id : SnapshotId} {s t : Snapshot}
variable {reading : List SnapshotId}

/--
Whether `e` can become `e'` with nothing done to its disks and nothing written. Snapshots may go, and
nodes with them; the snapshots that stay keep their nodes.
-/
structure SparesDisks (e e' : Engine ι) : Prop where
  disks : e'.lineage.disks = e.lineage.disks
  images : e'.images = e.images
  kept : Lineage.Kept e.lineage e'.lineage
  nodes : ∀ id t, e'.snapshot? id = some t → ∃ s, e.snapshot? id = some s ∧ t.node = s.node

namespace SparesDisks

theorem of_eq (hlineage : e'.lineage = e.lineage) (himages : e'.images = e.images)
    (hsnapshots : e'.snapshots = e.snapshots) : e.SparesDisks e' where
  disks := congrArg Lineage.disks hlineage
  images := himages
  kept := by
    rw [hlineage]
    exact .refl e.lineage
  nodes := by
    intro id t ht
    unfold snapshot? at *
    rw [hsnapshots] at ht
    exact ⟨t, ht, rfl⟩

theorem refl : e.SparesDisks e := of_eq rfl rfl rfl

theorem trans (h : e.SparesDisks e') (h' : e'.SparesDisks e'') : e.SparesDisks e'' where
  disks := h'.disks.trans h.disks
  images := h'.images.trans h.images
  kept := h.kept.trans h'.kept
  nodes := by
    intro id u hu
    obtain ⟨t, ht, hnode'⟩ := h'.nodes id u hu
    obtain ⟨s, hs, hnode⟩ := h.nodes id t ht
    exact ⟨s, hs, hnode'.trans hnode⟩

theorem settle : e.SparesDisks e.settle := by
  unfold Engine.settle
  split
  · exact {
      disks := (frame_releaseAll e.lineage e.pending).1
      images := rfl
      kept := kept_releaseAll e.lineage e.pending
      nodes := fun _ t ht => ⟨t, ht, rfl⟩ }
  · exact refl

theorem setSnapshot (h : e.Keeps reading) (hs : e.snapshot? id = some s) (hid : t.id = s.id)
    (hnode : t.node = s.node) : e.SparesDisks (e.setSnapshot t) where
  disks := rfl
  images := rfl
  kept := .refl e.lineage
  nodes := by
    intro other u hu
    rw [snapshot?_setSnapshot] at hu
    split at hu
    · next heq =>
      cases hu
      rw [hid, (h.keyed id s hs).1] at heq
      rw [← heq]
      exact ⟨s, hs, hnode⟩
    · exact ⟨u, hu, rfl⟩

theorem destroy (e : Engine ι) (id : SnapshotId) : e.SparesDisks (e.destroy id).2 := by
  cases hs : e.snapshot? id with
  | none =>
    unfold Engine.destroy
    rw [hs]
    exact refl
  | some s =>
    obtain ⟨active, hdestroy⟩ := destroy_eq_settle hs
    rw [hdestroy]
    apply trans _ settle
    exact {
      disks := rfl
      images := rfl
      kept := .refl e.lineage
      nodes := by
        intro other t ht
        simp only [snapshot?, Table.find?_erase] at ht
        split at ht
        · contradiction
        · exact ⟨t, ht, rfl⟩ }

theorem save (h : e.Keeps reading) (devices : Devices M) (id : SnapshotId) :
    e.SparesDisks (e.save devices id).2 := by
  cases hs : e.snapshot? id with
  | none =>
    unfold Engine.save
    rw [hs]
    exact refl
  | some s =>
    rcases save_cases devices hs with
      ⟨-, error, hsave, -⟩ | ⟨-, ⟨failure, blob, -, hsave⟩ | ⟨blob, -, hsave⟩⟩
    · rw [hsave]
      exact refl
    · rw [hsave]
      exact setSnapshot h hs rfl rfl
    · rw [hsave]
      apply setSnapshot h hs
      · apply Snapshot.id_noteSave
      · apply Snapshot.node_noteSave

theorem restore [DecidableEq ι] (h : e.Keeps reading) (devices : Devices M) (id : SnapshotId) :
    e.SparesDisks (e.restore devices id).2.1 := by
  cases hs : e.snapshot? id with
  | none =>
    unfold Engine.restore
    rw [hs]
    exact refl
  | some s =>
    rcases restore_cases devices hs with
      ⟨-, hrestore⟩ | ⟨-, ⟨-, hrestore⟩ | ⟨_, blob, _, hrestore⟩ | ⟨blob, _, hrestore⟩⟩
    · rw [hrestore]
      exact refl
    · rw [hrestore]
      exact refl
    · rw [hrestore]
      apply (setSnapshot (t := { s with blob }) h hs rfl rfl).trans
      exact of_eq rfl rfl rfl
    · rw [hrestore]
      apply (setSnapshot (t := { s with blob, restored := true }) h hs rfl rfl).trans
      exact of_eq rfl rfl rfl

end SparesDisks

/-! Calls about disks. -/

theorem attach_cases (e : Engine ι) (name : String) (image : BaseImage) :
    (∃ error, e.attach name image = (.error error, e.settle)) ∨
      e.attach name image
        =
      (.ok ⟨e.settle.lineage.disks.size⟩,
        { e.settle with
          lineage := { e.settle.lineage with
            disks := e.settle.lineage.disks.push (some { name, sectorCount := image.sectorCount }) }
          images := e.settle.images.insert ⟨e.settle.lineage.disks.size⟩ image }) := by
  unfold attach
  dsimp only
  split
  · next hattach =>
    rw [Lineage.eq_of_attach_error hattach]
    exact .inl ⟨_, rfl⟩
  · next hattach =>
    obtain ⟨rfl, rfl⟩ := Lineage.eq_of_attach_ok hattach
    exact .inr rfl

theorem detach_cases (e : Engine ι) (disk : DiskHandle) :
    (∃ error, e.detach disk = (.error error, e.settle)) ∨
      ∃ lineage, e.settle.lineage.detach disk = (.ok (), lineage) ∧
        e.detach disk
          =
        (.ok (), { e.settle with lineage, images := e.settle.images.erase disk }) := by
  unfold detach
  dsimp only
  split
  · next hdetach =>
    rw [Lineage.eq_of_detach_error hdetach]
    exact .inl ⟨_, rfl⟩
  · next lineage hdetach => exact .inr ⟨lineage, hdetach, rfl⟩

end Engine

/-! Any call. -/

namespace Host

variable {ι : Type} {M : Machine ι} {h : Host M}

def Call.isExclusive : Call M → Bool
  | .attach _ _ | .detach _ | .addRoot | .fork _ | .write _ _ _ _ | .writeRun _ _ _ _ => true
  | _ => false

variable [DecidableEq ι]

theorem perform_of_readers {call : Call M} (hreaders : h.engine.readers ≠ 0)
    (hcall : call.isExclusive = true) : (h.perform call).2 = h := by
  cases call with
  | attach | detach | addRoot | fork | write | writeRun => exact useAlone_of_readers hreaders _
  | _ => contradiction

mutual

theorem Sound.sparesDisks {h : Host M} (hsound : h.Sound) :
    ∀ call : Call M, call.isExclusive = false →
      h.engine.SparesDisks (h.perform call).2.engine := by
  intro call hcall
  cases call with
  | attach | detach | addRoot | fork | write | writeRun => contradiction
  | change => exact .refl
  | startUp | register => exact .of_eq rfl rfl rfl
  | save id => exact .save hsound.toKeeps h.devices id
  | restore id => exact .restore hsound.toKeeps h.devices id
  | destroy id =>
    unfold Host.perform
    split
    · exact .refl
    · exact .destroy h.engine id
  | read id disk index buffer meanwhile answer =>
    unfold Host.perform
    apply Engine.readInto_preserves (fun e _ => h.engine.SparesDisks e)
      (fun e _ => h.engine.SparesDisks e)
    · exact fun _ => .refl
    · intro hid
      have henter : h.engine.SparesDisks (h.enter id).engine :=
        Engine.SparesDisks.settle.trans (.of_eq rfl rfl rfl)
      refine ⟨henter, fun _ => henter.trans ?_⟩
      exact (hsound.enter hid).sparesDisksAll (List.cons_ne_nil _ _) meanwhile
    · exact fun _ _ hafter => hafter.trans (.of_eq rfl rfl rfl)
  | sectorCount | depth | readThrough | readRunThrough | canTransfer | stats => exact .settle

theorem Sound.sparesDisksAll {h : Host M} (hsound : h.Sound) (hreading : h.reading ≠ []) :
    ∀ calls : List (Call M), h.engine.SparesDisks (h.performAll calls).engine
  | [] => .refl
  | call :: calls => by
    have hreaders := hsound.readers_ne_zero hreading
    have hfirst : h.engine.SparesDisks (h.perform call).2.engine := by
      cases hcall : call.isExclusive with
      | true =>
        rw [perform_of_readers hreaders hcall]
        exact .refl
      | false => exact hsound.sparesDisks call hcall
    apply hfirst.trans
    apply (hsound.perform call).sparesDisksAll
    rw [reading_perform]
    exact hreading

end

end Host

end MachineFork
