import MachineFork.Proofs.Registry.RoundTrip

/-!
This module contains how a registry grows. Registrations are only ever appended, each identity is
registered once, and a device that is registered after startup comes with the section that it wrote
in the state it had then.
-/

namespace MachineFork

variable {ι : Type} {M : Machine ι}

namespace Registry

structure Extends (r r' : Registry ι) : Prop where
  initialized : r.isInitialized → r'.isInitialized
  descriptors : ∃ more, r'.descriptors = r.descriptors ++ more ∧
    (r.isInitialized → ∀ descriptor ∈ more, descriptor.isCustom)

/--
Whether every identity stands for one registration, and the sections kept for devices registered
after startup are those of the states in `registered`.
-/
structure Records (r : Registry ι) (registered : DeviceId → (i : ι) → M.State i) : Prop where
  nodup : r.ids.Nodup
  custom : ∀ descriptor ∈ r.descriptors, ∀ u, descriptor.origin = .custom u →
    (Devices.ofState (registered descriptor.id)).layout descriptor.id descriptor.device
      =
    (.ok (), u.bytes)

variable {r r' r'' : Registry ι} {id : DeviceId} {i : ι}

namespace Extends

theorem refl : r.Extends r where
  initialized := fun h => h
  descriptors := ⟨[], by simp⟩

theorem trans (h : r.Extends r') (h' : r'.Extends r'') : r.Extends r'' where
  initialized := fun hinit => h'.initialized (h.initialized hinit)
  descriptors := by
    obtain ⟨more, hmore, hcustom⟩ := h.descriptors
    obtain ⟨more', hmore', hcustom'⟩ := h'.descriptors
    refine ⟨more ++ more', by rw [hmore', hmore, List.append_assoc], ?_⟩
    intro hinit descriptor hmem
    rcases List.mem_append.mp hmem with hmem | hmem
    · exact hcustom hinit descriptor hmem
    · exact hcustom' (h.initialized hinit) descriptor hmem

end Extends

theorem startUp_cases (r : Registry ι) (body : Registry ι → Except BlobError Unit × Registry ι) :
    (r.startUp body).2 = r ∨
      (r.startUp body).2 = (body r).2 ∨
      (r.startUp body).2 = { (body r).2 with isInitialized := true } := by
  unfold startUp
  split
  · exact .inl rfl
  · split
    · next hbody => exact .inr (.inl (by rw [hbody]))
    · next hbody => exact .inr (.inr (by rw [hbody]))

theorem extends_startUp {body : Registry ι → Except BlobError Unit × Registry ι}
    (h : r.Extends (body r).2) : r.Extends (r.startUp body).2 := by
  rcases r.startUp_cases body with hsame | hbody | hbody
  · rw [hsame]
    exact .refl
  · rw [hbody]
    exact h
  · rw [hbody]
    exact ⟨fun _ => rfl, h.descriptors⟩

theorem Records.startUp {registered : DeviceId → (i : ι) → M.State i}
    {body : Registry ι → Except BlobError Unit × Registry ι} (h : r.Records registered)
    (hbody : (body r).2.Records registered) : (r.startUp body).2.Records registered := by
  rcases r.startUp_cases body with heq | heq | heq
  · rw [heq]
    exact h
  · rw [heq]
    exact hbody
  · rw [heq]
    exact ⟨hbody.nodup, hbody.custom⟩

theorem extends_insert {origin : Origin} (h : r.isInitialized → origin ≠ .startup) :
    r.Extends (r.insert id i origin) where
  initialized := fun hinit => hinit
  descriptors := by
    refine ⟨[⟨id, i, origin⟩], rfl, ?_⟩
    intro hinit descriptor hmem
    rw [List.mem_singleton.mp hmem]
    cases origin with
    | startup => exact absurd rfl (h hinit)
    | custom _ => rfl

variable [DecidableEq ι]

inductive Registration (r : Registry ι) (devices : Devices M) (id : DeviceId) (i : ι) :
    Except BlobError Unit × Registry ι → Prop where
  | repeated {known : Descriptor ι} (hfind : r.find? id = some known) (hsame : known.device = i) :
    Registration r devices id i (.ok (), r)
  | duplicate {known : Descriptor ι} (hfind : r.find? id = some known) (hother : known.device ≠ i) :
    Registration r devices id i (.error (.duplicate id), r)
  | startup (hnone : r.find? id = none) (hinit : r.isInitialized = false) :
    Registration r devices id i (.ok (), r.insert id i .startup)
  | failed {e : BlobError} {u : Stream} (hnone : r.find? id = none) (hinit : r.isInitialized)
      (hsave : devices.saveSection id i .empty = (.error e, u)) :
    Registration r devices id i (.error e, r)
  | custom {u : Stream} (hnone : r.find? id = none) (hinit : r.isInitialized)
      (hsave : devices.saveSection id i .empty = (.ok (), u)) :
    Registration r devices id i (.ok (), r.insert id i (.custom u))

theorem registration (r : Registry ι) (devices : Devices M) (id : DeviceId) (i : ι) :
    r.Registration devices id i (r.register devices id i) := by
  unfold register
  split
  · next known hfind =>
    by_cases hsame : known.device = i
    · rw [if_pos hsame]
      exact .repeated hfind hsame
    · rw [if_neg hsame]
      exact .duplicate hfind hsame
  · next hnone =>
    by_cases hinit : r.isInitialized
    · rw [if_pos hinit]
      split
      · next hsave => exact .failed hnone hinit hsave
      · next hsave => exact .custom hnone hinit hsave
    · rw [if_neg hinit]
      exact .startup hnone (by simpa using hinit)

theorem eq_of_register_error {devices : Devices M} {error : BlobError}
    (h : r.register devices id i = (.error error, r')) : r' = r := by
  have hcases := r.registration devices id i
  rw [h] at hcases
  cases hcases <;> rfl

theorem extends_register (r : Registry ι) (devices : Devices M) (id : DeviceId) (i : ι) :
    r.Extends (r.register devices id i).2 := by
  have hcases := r.registration devices id i
  generalize r.register devices id i = result at hcases
  cases hcases with
  | repeated | duplicate | failed => exact .refl
  | startup _ hinit => exact extends_insert (by simp [hinit])
  | custom => exact extends_insert (by simp)

namespace Records

variable {registered : DeviceId → (i : ι) → M.State i} {devices : Devices M}

omit [DecidableEq ι] in
theorem insert (h : r.Records registered) {origin : Origin} (hnone : r.find? id = none)
    (hcustom : ∀ u, origin = .custom u →
      (Devices.ofState (registered id)).layout id i = (.ok (), u.bytes)) :
    (r.insert id i origin).Records registered where
  nodup := by
    simp only [ids, Registry.insert, List.map_append, List.map_cons, List.map_nil]
    rw [List.nodup_append]
    refine ⟨h.nodup, by simp, ?_⟩
    intro known hknown new hnew heq
    obtain ⟨descriptor, hmem, rfl⟩ := List.mem_map.mp hknown
    have hne := List.find?_eq_none.mp hnone descriptor hmem
    simp [heq, List.mem_singleton.mp hnew] at hne
  custom := by
    intro descriptor hmem u horigin
    simp only [Registry.insert, List.mem_append, List.mem_singleton] at hmem
    rcases hmem with hmem | rfl
    · exact h.custom descriptor hmem u horigin
    · exact hcustom u horigin

theorem register (h : r.Records registered) (hputs : ∀ i state, ((M.model i).save state).PutsOnly)
    (hnow : ∀ id, r.find? id = none → registered id = devices.state) :
    (r.register devices id i).2.Records registered := by
  have hcases := r.registration devices id i
  generalize r.register devices id i = result at hcases
  cases hcases with
  | repeated | duplicate | failed => exact h
  | startup hnone => exact h.insert hnone (by simp)
  | custom hnone _ hsave =>
    apply h.insert hnone
    intro u hu
    cases hu
    rw [hnow id hnone]
    exact Devices.layout_ofState_of_ok (Devices.layout_of_saveSection (hputs i _) hsave)

omit [DecidableEq ι] in
theorem exists_section (h : r.Records registered) {descriptor : Descriptor ι}
    (hmem : descriptor ∈ r.descriptors) (hcustom : descriptor.isCustom) :
    ∃ u, descriptor.origin = .custom u ∧
      (Devices.ofState (registered descriptor.id)).layout descriptor.id descriptor.device
        =
      (.ok (), u.bytes) := by
  cases horigin : descriptor.origin with
  | startup => simp [Descriptor.isCustom, horigin] at hcustom
  | custom u => exact ⟨u, rfl, h.custom descriptor hmem u horigin⟩

omit [DecidableEq ι] in
theorem congr {registered' : DeviceId → (i : ι) → M.State i} (h : r.Records registered)
    (hsame : ∀ id, (r.find? id).isSome → registered' id = registered id) :
    r.Records registered' where
  nodup := h.nodup
  custom := by
    intro descriptor hmem u hcustom
    rw [hsame descriptor.id]
    · exact h.custom descriptor hmem u hcustom
    · rw [find?, List.find?_isSome]
      exact ⟨descriptor, hmem, by simp⟩

end Records

end Registry

end MachineFork
