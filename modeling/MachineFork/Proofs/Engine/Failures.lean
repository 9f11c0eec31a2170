import MachineFork.Proofs.Engine.Owners

/-!
This module contains that the calls of an engine do not fail because of nodes. Every snapshot has a
node that is live, and frozen only if the snapshot is, so that the lineage has nothing to complain
of. Only what a fallback or a base image has failed with is passed on.
-/

namespace MachineFork

theorem mapError_eq_error_iff {α β γ : Type} {x : Except α γ} {f : α → β} {b : β} :
    x.mapError f = .error b ↔ ∃ a, x = .error a ∧ f a = b := by
  cases x <;> simp [Except.mapError]

theorem map_eq_error_iff {α β ε : Type} {x : Except ε α} {f : α → β} {e : ε} :
    x.map f = .error e ↔ x = .error e := by
  cases x <;> simp [Except.map]

namespace Engine

variable {ι : Type} {M : Machine ι} {e : Engine ι} {id : SnapshotId} {s : Snapshot}
variable {reading : List SnapshotId} {disk : DiskHandle} {index first : UInt64} {error : DiskError}

theorem Owns.isFrozen_settle (h : e.Owns reading) (hs : e.snapshot? id = some s) :
    e.settle.lineage.isFrozen s.node = .ok s.frozen :=
  h.settle.isFrozen ((e.snapshot?_settle id).trans hs)

/-! Devices. -/

theorem startUp_ne_disk (body : Registry ι → Except BlobError Unit × Registry ι) :
    (e.startUp body).1 ≠ .error (.disk error) := by
  intro h
  obtain ⟨failure, -, hfailure⟩ := mapError_eq_error_iff.mp h
  simp at hfailure

theorem register_ne_disk [DecidableEq ι] (devices : Devices M) (id : DeviceId) (i : ι) :
    (e.register devices id i).1 ≠ .error (.disk error) := by
  intro h
  obtain ⟨failure, -, hfailure⟩ := mapError_eq_error_iff.mp h
  simp at hfailure

theorem save_ne_disk (devices : Devices M) (id : SnapshotId) :
    (e.save devices id).1 ≠ .error (.disk error) := by
  unfold save
  repeat' split
  all_goals simp

theorem restore_ne_disk [DecidableEq ι] (devices : Devices M) (id : SnapshotId) :
    (e.restore devices id).1 ≠ .error (.disk error) := by
  unfold restore
  repeat' split
  all_goals simp

theorem destroy_ne_disk (id : SnapshotId) : (e.destroy id).1 ≠ .error (.disk error) := by
  unfold destroy
  split
  · simp
  · dsimp only
    split <;> simp

theorem canTransfer_ne_disk (id : SnapshotId) (disk : DiskHandle) :
    e.canTransfer id disk ≠ .error (.disk error) := by
  unfold canTransfer
  split <;> simp

/-! Disks. -/

theorem not_namesNode_of_attach {name : String} {image : BaseImage}
    (h : (e.attach name image).1 = .error (.disk error)) : ¬error.NamesNode := by
  unfold attach at h
  dsimp only at h
  split at h
  · next hattach =>
    simp only [Except.error.injEq, EngineError.disk.injEq] at h
    exact h ▸ Lineage.not_namesNode_of_attach hattach
  · simp at h

theorem not_namesNode_of_detach (h : (e.detach disk).1 = .error (.disk error)) :
    ¬error.NamesNode := by
  unfold detach at h
  dsimp only at h
  split at h
  · next hdetach =>
    simp only [Except.error.injEq, EngineError.disk.injEq] at h
    exact h ▸ Lineage.not_namesNode_of_detach hdetach
  · simp at h

theorem not_namesNode_of_sectorCount (h : e.sectorCount disk = .error (.disk error)) :
    ¬error.NamesNode := by
  obtain ⟨failure, hcount, hfailure⟩ := mapError_eq_error_iff.mp h
  obtain rfl := EngineError.disk.inj hfailure
  exact Lineage.not_namesNode_of_sectorCount hcount

/-! Snapshots. -/

theorem not_namesNode_of_addRoot (h : e.addRoot.1 = .error (.disk error)) : ¬error.NamesNode := by
  unfold addRoot at h
  split at h
  · simp at h
  · split at h
    · simp at h
    · split at h
      · simp at h
      · dsimp only at h
        split at h
        · next hroot =>
          simp only [Except.error.injEq, EngineError.disk.injEq] at h
          exact h ▸ Lineage.not_namesNode_of_addRoot hroot
        · simp at h

theorem Owns.depth_ne_disk (h : e.Owns reading) (id : SnapshotId) :
    e.depth id ≠ .error (.disk error) := by
  unfold Engine.depth
  split
  · simp
  · next s hs =>
    obtain ⟨node, hid, -⟩ := Lineage.isFrozen_eq_ok_iff.mp (h.isFrozen_settle hs)
    simp [Lineage.depth, Lineage.node, hid, Except.map, Except.mapError]

theorem Owns.not_namesNode_of_fork (h : e.Owns reading)
    (hfork : (e.fork id).1 = .error (.disk error)) : ¬error.NamesNode := by
  unfold Engine.fork at hfork
  split at hfork
  · simp at hfork
  · next s hs =>
    split at hfork
    · simp at hfork
    · split at hfork
      · next hdepth =>
        rw [Except.error.injEq] at hfork
        rw [hfork] at hdepth
        unfold requireDepth at hdepth
        split at hdepth
        · simp at hdepth
        · split at hdepth
          · next hfailed =>
            rw [Except.error.injEq] at hdepth
            exact absurd (hdepth ▸ hfailed) (h.depth_ne_disk id)
          · split at hdepth <;> simp at hdepth
      · dsimp only at hfork
        split at hfork
        · next hlineage =>
          simp only [Except.error.injEq, EngineError.disk.injEq] at hfork
          exact hfork ▸ Lineage.not_namesNode_of_fork (h.isFrozen_settle hs) hlineage
        · simp at hfork

theorem Owns.not_namesNode_of_withNode (h : e.Owns reading)
    {write : Lineage → NodeId → Except DiskError Unit × Lineage}
    (hwrite : ∀ {l node m failure}, l.isFrozen node = .ok false →
      write l node = (.error failure, m) → ¬failure.NamesNode)
    (herror : (e.withNode id write).1 = .error (.disk error)) : ¬error.NamesNode := by
  unfold Engine.withNode at herror
  split at herror
  · simp at herror
  · next s hs =>
    split at herror
    · simp at herror
    · next hopen =>
      have hfrozen := h.isFrozen_settle hs
      rw [Bool.not_eq_true] at hopen
      rw [hopen] at hfrozen
      obtain ⟨failure, hresult, hfailure⟩ := mapError_eq_error_iff.mp herror
      obtain rfl := EngineError.disk.inj hfailure
      exact hwrite hfrozen (Prod.ext hresult rfl)

/-! Reads. -/

theorem Owns.exists_fallback_of_readInto {τ : Type} (h : e.Owns reading) {buffer : Bytes}
    {fallback : Fallback (Engine ι × τ)} {state : τ}
    (hread : (e.readInto id disk index buffer fallback state).1 = .error (.disk error))
    (hnames : error.NamesNode) :
    ∃ old state, (fallback disk index old state).1 = .error error := by
  unfold Engine.readInto at hread
  split at hread
  · simp at hread
  · next s hs =>
    obtain ⟨failure, hresult, hfailure⟩ := mapError_eq_error_iff.mp hread
    obtain rfl := EngineError.disk.inj hfailure
    obtain ⟨old, hfallback⟩ := Lineage.exists_fallback_of_read h.settle.owned.counted
      (h.isFrozen_settle hs) hresult hnames
    exact ⟨old, _, hfallback⟩

theorem exists_image_of_baseFallback {buffer : Sector}
    (h : (e.baseFallback disk index buffer ()).1 = .error error) (hnames : error.NamesNode) :
    ∃ image, e.images.find? disk = some image ∧ image.fetch index = .error error := by
  unfold baseFallback at h
  split at h
  · next hfetch =>
    rw [Except.error.injEq] at h
    rw [h] at hfetch
    unfold fetchBase at hfetch
    split at hfetch
    · rw [Except.error.injEq] at hfetch
      simp [← hfetch, DiskError.NamesNode] at hnames
    · next image himage => exact ⟨image, himage, hfetch⟩
  · simp at h

theorem images_settle (e : Engine ι) : e.settle.images = e.images := by
  unfold settle
  split <;> rfl

theorem Owns.exists_image_of_readThrough (h : e.Owns reading)
    (hread : e.readThrough id disk index = .error (.disk error)) (hnames : error.NamesNode) :
    ∃ image, e.images.find? disk = some image ∧ ∃ index, image.fetch index = .error error := by
  unfold Engine.readThrough at hread
  split at hread
  · simp at hread
  · next s hs =>
    dsimp only at hread
    generalize hfound : e.settle.lineage.read s.node disk index Sector.zero.bytes
      e.settle.baseFallback () = found at hread
    obtain ⟨failure, hresult, hfailure⟩ := mapError_eq_error_iff.mp hread
    obtain rfl := EngineError.disk.inj hfailure
    rw [map_eq_error_iff, ← hfound] at hresult
    obtain ⟨old, hfallback⟩ := Lineage.exists_fallback_of_read h.settle.owned.counted
      (h.isFrozen_settle hs) hresult hnames
    obtain ⟨image, himage, hfetch⟩ := exists_image_of_baseFallback hfallback hnames
    rw [images_settle] at himage
    exact ⟨image, himage, index, hfetch⟩

theorem Owns.exists_image_of_readRunThrough (h : e.Owns reading) {buffer : Bytes}
    (hread : (e.readRunThrough id disk first buffer).1 = .error (.disk error))
    (hnames : error.NamesNode) :
    ∃ image, e.images.find? disk = some image ∧ ∃ index, image.fetch index = .error error := by
  unfold Engine.readRunThrough at hread
  split at hread
  · simp at hread
  · next s hs =>
    obtain ⟨failure, hresult, hfailure⟩ := mapError_eq_error_iff.mp hread
    obtain rfl := EngineError.disk.inj hfailure
    obtain ⟨index, old, _, hfallback⟩ := Lineage.exists_fallback_of_readRun
      h.settle.owned.counted (h.isFrozen_settle hs) hresult hnames
    obtain ⟨image, himage, hfetch⟩ := exists_image_of_baseFallback hfallback hnames
    rw [images_settle] at himage
    exact ⟨image, himage, index, hfetch⟩

end Engine

end MachineFork
