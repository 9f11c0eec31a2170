import MachineFork.Proofs.Engine.Snapshots

/-!
This module contains what a failed save does to the blob it was to replace. A save that is refused
outright leaves the blob alone. Any other writes over the blob from its start on, and so what the
blob held survives a failure exactly when the sections written up to it were there before.
-/

namespace MachineFork

namespace Engine

variable {ι : Type} {M : Machine ι} {e e' : Engine ι} {devices : Devices M} {s : Snapshot}
  {error : EngineError}

def layout (e : Engine ι) (devices : Devices M) (s : Snapshot) : Bytes :=
  if s.frozen ∨ e.active ≠ some s.id then
    []
  else
    (Registry.layout devices e.registry.descriptors).2

def RefusesSave (e : Engine ι) (devices : Devices M) (s : Snapshot) : Prop :=
  s.frozen ∨ e.active ≠ some s.id ∨
    ∃ descriptor ∈ e.registry.descriptors.head?, devices.access descriptor.device = .exclusive

theorem saved_blob_of_refusesSave (hrefuses : e.RefusesSave devices s)
    (hactive : ¬(s.frozen ∨ e.active ≠ some s.id)) {failure : BlobError} {blob : Stream}
    (h : e.registry.save devices s.blob.reset = (.error failure, blob)) :
    blob.bytes = s.blob.bytes := by
  rcases hrefuses with hrefuses | hrefuses | ⟨descriptor, hhead, hexclusive⟩
  · exact absurd (.inl hrefuses) hactive
  · exact absurd (.inr hrefuses) hactive
  · obtain ⟨rest, hdescriptors⟩ : ∃ rest, e.registry.descriptors = descriptor :: rest := by
      cases hlist : e.registry.descriptors with
      | nil => simp [hlist] at hhead
      | cons first rest => simp_all
    unfold Registry.save Registry.forEach at h
    rw [hdescriptors, Registry.forEach.go] at h
    simp only [Devices.saveSection, hexclusive, if_true, Prod.mk.injEq] at h
    rw [← h.2]
    rfl

theorem saved_blob_of_putsOnly
    (hputs : ∀ descriptor ∈ e.registry.descriptors,
      ((M.model descriptor.device).save (devices.state descriptor.device)).PutsOnly)
    {failure : BlobError} {blob : Stream}
    (h : e.registry.save devices s.blob.reset = (.error failure, blob)) :
    blob.bytes = s.blob.bytes.overwrite 0 (Registry.layout devices e.registry.descriptors).2 := by
  obtain ⟨t, hsave, hlays⟩ := Registry.saveEach_lays (s := s.blob.reset) hputs (Nat.zero_le _)
  unfold Registry.save Registry.forEach at h
  rw [hsave, Prod.mk.injEq] at h
  rw [← h.2, hlays.bytes]
  rfl

theorem save_error_blob_eq_iff (hs : e.snapshot? s.id = some s)
    (h : e.save devices s.id = (.error error, e')) :
    ∃ blob, e'.snapshot? s.id = some { s with blob } ∧
      (∀ id, id ≠ s.id → e'.snapshot? id = e.snapshot? id) ∧
      (e.RefusesSave devices s → blob.bytes = s.blob.bytes) ∧
      ((∀ descriptor ∈ e.registry.descriptors,
          ((M.model descriptor.device).save (devices.state descriptor.device)).PutsOnly) →
        (blob.bytes = s.blob.bytes ↔ e.layout devices s <+: s.blob.bytes)) := by
  rcases save_cases devices hs with
    ⟨hidle, _, hsave, -⟩ | ⟨hactive, ⟨failure, blob, hblob, hsave⟩ | ⟨blob, -, hsave⟩⟩
  · obtain rfl := (Prod.mk.inj (hsave.symm.trans h)).2
    refine ⟨s.blob, hs, fun _ _ => rfl, fun _ => rfl, fun _ => ?_⟩
    simp [layout, hidle]
  · obtain rfl := (Prod.mk.inj (hsave.symm.trans h)).2
    refine ⟨blob, ?_, ?_, ?_, ?_⟩
    · simp [snapshot?, setSnapshot]
    · intro id hid
      simp [snapshot?, setSnapshot, hid.symm]
    · intro hrefuses
      exact saved_blob_of_refusesSave hrefuses hactive hblob
    · intro hputs
      rw [saved_blob_of_putsOnly hputs hblob, layout, if_neg hactive]
      exact Bytes.overwrite_start_eq_self_iff
  · simp [hsave] at h

/-! Two counters, the second of which is borrowed while they are saved again. -/

def borrowedCounters (first : UInt8) : Devices counters where
  state i := if i then UInt8.ofNat 2 else first
  access i := if i then .exclusive else .free

def savedCounters : Snapshot where
  id := ⟨0⟩
  blob := .ofBytes (Section.frame (.singleton ⟨65, 0, 0, 0⟩) [1]
    ++ Section.frame (.singleton ⟨66, 0, 0, 0⟩) [2])
  node := ⟨0, 0⟩

def countersEngine : Engine Bool where
  config := {}
  registry :=
    { descriptors :=
        [⟨.singleton ⟨65, 0, 0, 0⟩, false, .startup⟩, ⟨.singleton ⟨66, 0, 0, 0⟩, true, .startup⟩]
      isInitialized := true }
  active := some ⟨0⟩
  nextId := 1
  rootCreated := true
  snapshots := (∅ : Table SnapshotId Snapshot).insert ⟨0⟩ savedCounters

theorem save_borrowedCounters (first : UInt8) :
    (countersEngine.save (borrowedCounters first) ⟨0⟩).1
      =
    .error (.blob (.deviceFailed (.singleton ⟨66, 0, 0, 0⟩) "device is mutably borrowed")) := rfl

theorem save_error_blob_eq_iff_borrowed :
    ((countersEngine.save (borrowedCounters 1) ⟨0⟩).2.snapshot? ⟨0⟩).map (·.blob.bytes)
        = some savedCounters.blob.bytes ∧
      ((countersEngine.save (borrowedCounters 17) ⟨0⟩).2.snapshot? ⟨0⟩).map (·.blob.bytes)
        ≠ some savedCounters.blob.bytes := by
  have hputs (first : UInt8) : ∀ descriptor ∈ countersEngine.registry.descriptors,
      ((counters.model descriptor.device).save
        ((borrowedCounters first).state descriptor.device)).PutsOnly :=
    fun _ _ => trivial
  obtain ⟨same, hsame, -, -, hsameIff⟩ := save_error_blob_eq_iff (s := savedCounters) rfl
    (Prod.ext (save_borrowedCounters 1) rfl)
  obtain ⟨changed, hchanged, -, -, hchangedIff⟩ := save_error_blob_eq_iff (s := savedCounters) rfl
    (Prod.ext (save_borrowedCounters 17) rfl)
  have hsameBytes := congrArg (Option.map fun s : Snapshot => s.blob.bytes) hsame
  have hchangedBytes := congrArg (Option.map fun s : Snapshot => s.blob.bytes) hchanged
  constructor
  · exact hsameBytes.trans (congrArg some ((hsameIff (hputs 1)).mpr (by decide +kernel)))
  · intro h
    exact absurd ((hchangedIff (hputs 17)).mp (Option.some.inj (hchangedBytes.symm.trans h)))
      (by decide +kernel)

end Engine

end MachineFork
