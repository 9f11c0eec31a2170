import MachineFork.Proofs.Registry.Grammar

/-!
This module contains how far a restore has come when it fails. The devices in front of the one that
could not be restored hold what the blob, or their registration, has for them, and nobody has touched
the devices behind it. So the restore can be made again.
-/

namespace MachineFork

variable {ι : Type} {M : Machine ι} [DecidableEq ι] {devices devices' : Devices M} {id : DeviceId}
  {i j : ι} {s t : Stream} {failure : BlobError}

namespace Stream

theorem take_ne_trailingBytes (count remaining : Nat) :
    s.take count ≠ .error (.trailingBytes remaining) := by
  unfold take
  split
  · split <;> simp
  · split <;> simp

theorem enter_ne_trailingBytes (remaining : Nat) :
    (s.enter id).1 ≠ .error (.trailingBytes remaining) := by
  have hreports {u : Stream} {count : Nat} {e : BlobError} (htake : u.take count = .error e) :
      (.error e : Except BlobError Unit) ≠ .error (.trailingBytes remaining) := by
    intro heq
    rw [Except.error.inj heq] at htake
    exact take_ne_trailingBytes _ _ htake
  unfold enter
  dsimp only
  split
  · next hkind => exact hreports hkind
  · split
    · next hnumber => exact hreports hnumber
    · split
      · simp
      · split
        · next hlength => exact hreports hlength
        · split <;> simp

theorem leave_ne_trailingBytes (remaining : Nat) :
    s.leave.1 ≠ .error (.trailingBytes remaining) := by
  unfold leave
  split
  · simp
  · dsimp only
    split <;> simp

end Stream

def Machine.Overwrites (M : Machine ι) (i : ι) : Prop :=
  ∀ (devices devices' : Devices M) (id : DeviceId) (payload : Bytes),
    devices.restored? id i payload = devices'.restored? id i payload

/-! One device. -/

namespace Devices

theorem restoreSection_of_borrowed (h : devices.access i ≠ .free) :
    devices.restoreSection id i s
      = (.error (.deviceFailed id "device is already borrowed"), devices, s) := by
  rw [restoreSection, if_pos h]

theorem others_of_restoreSection (h : j ≠ i) :
    (devices.restoreSection id i s).2.1.state j = devices.state j := by
  unfold restoreSection
  split
  · rfl
  · split
    · rfl
    · dsimp only
      split
      · exact state_set_of_ne devices _ h
      · exact state_set_of_ne devices _ h

theorem restoreSection_congr (hstate : devices'.state i = devices.state i)
    (haccess : devices'.access i = devices.access i) :
    (devices'.restoreSection id i s).1 = (devices.restoreSection id i s).1 := by
  unfold restoreSection
  rw [hstate, haccess]
  split
  · rfl
  · split
    · rfl
    · dsimp only
      split <;> rfl

theorem fails_of_restoreSection {count : Nat}
    (h : (devices.restoreSection id i s).1 = .error (.trailingBytes count)) :
    ∃ u, (((M.model i).restore (devices.state i)).run (devices.state i) u).1
      = .error (.trailingBytes count) := by
  unfold restoreSection at h
  split at h
  · simp at h
  · split at h
    · next henter =>
      exact absurd (congrArg Prod.fst henter) (h ▸ Stream.enter_ne_trailingBytes count)
    · next u henter =>
      dsimp only at h
      split at h
      · next hrun => exact ⟨u, hrun.trans h⟩
      · exact absurd h (Stream.leave_ne_trailingBytes count)

end Devices

namespace Registry

variable {descriptor : Descriptor ι} {descriptors : List (Descriptor ι)}

theorem exists_section_of_restoreOne (descriptor : Descriptor ι) (s : Stream) :
    ∃ u, ∀ devices : Devices M,
      (restoreOne descriptor devices s).1
        = (devices.restoreSection descriptor.id descriptor.device u).1 ∧
      (restoreOne descriptor devices s).2.1
        = (devices.restoreSection descriptor.id descriptor.device u).2.1 := by
  unfold restoreOne
  cases descriptor.origin with
  | startup => exact ⟨s, fun _ => ⟨rfl, rfl⟩⟩
  | custom registered =>
    by_cases hremaining : s.remaining = 0
    · exact ⟨registered.clone, fun _ => by simp [hremaining]⟩
    · exact ⟨s, fun _ => by simp [hremaining]⟩

theorem others_of_restoreOne (h : j ≠ descriptor.device) :
    (restoreOne descriptor devices s).2.1.state j = devices.state j := by
  obtain ⟨u, hsection⟩ := exists_section_of_restoreOne (M := M) descriptor s
  rw [(hsection devices).2, Devices.others_of_restoreSection h]

theorem restoreOne_of_borrowed (h : devices.access descriptor.device ≠ .free) :
    (restoreOne descriptor devices s).1
        = .error (.deviceFailed descriptor.id "device is already borrowed") ∧
      (restoreOne descriptor devices s).2.1 = devices := by
  obtain ⟨u, hsection⟩ := exists_section_of_restoreOne (M := M) descriptor s
  rw [(hsection devices).1, (hsection devices).2, Devices.restoreSection_of_borrowed h]
  exact ⟨rfl, rfl⟩

theorem restoreOne_congr
    (hstate : devices'.state descriptor.device = devices.state descriptor.device)
    (haccess : devices'.access descriptor.device = devices.access descriptor.device) :
    (restoreOne descriptor devices' s).1 = (restoreOne descriptor devices s).1 := by
  obtain ⟨u, hsection⟩ := exists_section_of_restoreOne (M := M) descriptor s
  rw [(hsection devices').1, (hsection devices).1, Devices.restoreSection_congr hstate haccess]

theorem fails_of_restoreOne {count : Nat}
    (h : (restoreOne descriptor devices s).1 = .error (.trailingBytes count)) :
    ∃ u, (((M.model descriptor.device).restore (devices.state descriptor.device)).run
        (devices.state descriptor.device) u).1
      = .error (.trailingBytes count) := by
  obtain ⟨u, hsection⟩ := exists_section_of_restoreOne (M := M) descriptor s
  rw [(hsection devices).1] at h
  exact Devices.fails_of_restoreSection h

/-! All devices. -/

theorem exists_failed_of_restoreEach
    (h : restoreEach descriptors devices s = (.error failure, devices', t)) :
    ∃ done failed rest devices₁ u, descriptors = done ++ failed :: rest ∧
      restoreEach done devices s = (.ok (), devices₁, u) ∧
      restoreOne failed devices₁ u = (.error failure, devices', t) := by
  induction descriptors generalizing devices s with
  | nil => simp [restoreEach, forEach.go] at h
  | cons descriptor rest ih =>
    rw [restoreEach, forEach.go] at h
    split at h
    · next hone =>
      cases h
      exact ⟨[], descriptor, rest, devices, s, rfl, rfl, hone⟩
    · next state hone =>
      obtain ⟨done, failed, rest, devices₁, u, rfl, hdone, hfailed⟩ := ih h
      refine ⟨descriptor :: done, failed, rest, devices₁, u, rfl, ?_, hfailed⟩
      exact restoreEach_cons_eq_ok_iff.mpr ⟨_, _, hone, hdone⟩

theorem restore_eq_error_iff {registry : Registry ι} :
    registry.restore devices s = (.error failure, devices', t)
      ↔
    restoreEach registry.descriptors devices s = (.error failure, devices', t) ∨
      restoreEach registry.descriptors devices s = (.ok (), devices', t) ∧ t.remaining ≠ 0 ∧
        failure = .trailingBytes t.remaining := by
  unfold restore restoreEach forEach
  generalize forEach.go _ registry.descriptors (devices, s) = result
  obtain ⟨e | _, devices₁, u⟩ := result
  · simp
  · dsimp only
    split
    · next hremaining =>
      constructor
      · simp
      · rintro (h | ⟨h, hne, -⟩)
        · simp at h
        · cases h
          exact absurd hremaining hne
    · next hremaining =>
      constructor
      · intro h
        cases h
        exact .inr ⟨rfl, hremaining, rfl⟩
      · rintro (h | ⟨h, -, rfl⟩)
        · simp at h
        · cases h
          rfl

def Prescribed (descriptors : List (Descriptor ι)) (devices devices' : Devices M)
    (bytes behind : Bytes) : Prop :=
  ∃ early late front, bytes = front ++ behind ∧ Reads descriptors devices front early late ∧
    (late = [] ∨ behind = []) ∧
    ∀ part ∈ early ++ late, part.state? devices = some (devices'.state part.descriptor.device)

theorem prescribed_of_restoreEach
    (hgets : ∀ i state, ((M.model i).restore state).GetsOnly)
    (hdistinct : (descriptors.map (·.device)).Nodup) (hidle : s.entered = none)
    (hcursor : s.cursor ≤ s.length)
    (h : restoreEach descriptors devices s = (.ok (), devices', t)) :
    ∃ behind, Prescribed descriptors devices devices' (s.bytes.drop s.cursor) behind ∧
      t = { s with cursor := s.length - behind.length } ∧ t.remaining = behind.length := by
  obtain ⟨hfree, early, late, front, behind, hbytes, hreads, hlate, rfl⟩ :=
    exists_front_of_restoreEach (fun _ _ => hgets _) hdistinct hidle h
  obtain ⟨devices₁, heach, hstates, -⟩ :=
    hreads.restoreEach_front (fun _ _ => hgets _) hfree hdistinct hidle hbytes hlate
  rw [h] at heach
  cases heach
  have hlength : s.length - s.cursor = front.length + behind.length := by
    rw [Stream.length, ← List.length_drop, hbytes, List.length_append]
  refine ⟨behind, ⟨early, late, front, hbytes, hreads, hlate, hstates⟩, ?_, ?_⟩
  · congr 1
    omega
  · simp only [Stream.remaining, Stream.readEnd, Stream.length, hidle] at *
    omega

theorem confined_of_restore_error {registry : Registry ι}
    (hgets : ∀ i state, ((M.model i).restore state).GetsOnly)
    (hdistinct : (registry.descriptors.map (·.device)).Nodup) (hidle : s.entered = none)
    (hcursor : s.cursor ≤ s.length)
    (h : registry.restore devices s = (.error failure, devices', t)) :
    (∃ done failed rest behind, registry.descriptors = done ++ failed :: rest ∧
        Prescribed done devices devices' (s.bytes.drop s.cursor) behind ∧
        (∀ i, i ∉ (done ++ [failed]).map (·.device) → devices'.state i = devices.state i) ∧
        (restoreOne failed devices { s with cursor := s.length - behind.length }).1
          = .error failure ∧
        (devices.access failed.device ≠ .free →
          devices'.state failed.device = devices.state failed.device ∧
            ∃ u, restoreEach done devices s = (.ok (), devices', u))) ∨
      ∃ behind, behind ≠ [] ∧ failure = .trailingBytes behind.length ∧
        Prescribed registry.descriptors devices devices' (s.bytes.drop s.cursor) behind ∧
        ∀ i, i ∉ registry.descriptors.map (·.device) → devices'.state i = devices.state i := by
  rcases restore_eq_error_iff.mp h with heach | ⟨heach, hremaining, rfl⟩
  · left
    obtain ⟨done, failed, rest, devices₁, u, hall, hdone, hfailed⟩ :=
      exists_failed_of_restoreEach heach
    rw [hall, List.map_append, List.map_cons, List.nodup_append] at hdistinct
    obtain ⟨hdistinct, -, hapart⟩ := hdistinct
    have hnotMem : failed.device ∉ done.map (·.device) := fun hmem =>
      hapart _ hmem _ (.head _) rfl
    obtain ⟨behind, hprescribed, rfl, -⟩ :=
      prescribed_of_restoreEach hgets hdistinct hidle hcursor hdone
    obtain ⟨haccess, hothers⟩ := others_of_restoreEach hdone
    have hsame (i : ι) (hi : i ≠ failed.device) : devices'.state i = devices₁.state i := by
      have hone : _ = devices₁.state i :=
        others_of_restoreOne (s := { s with cursor := s.length - behind.length }) hi
      rw [hfailed] at hone
      exact hone
    refine ⟨done, failed, rest, behind, hall, ?_, ?_, ?_, ?_⟩
    · obtain ⟨early, late, front, hbytes, hreads, hlate, hstates⟩ := hprescribed
      refine ⟨early, late, front, hbytes, hreads, hlate, ?_⟩
      intro part hpart
      rw [hstates part hpart, hsame]
      intro heq
      apply hnotMem
      rw [← heq, hreads.descriptors]
      exact List.mem_map_of_mem (List.mem_map_of_mem hpart)
    · intro i hi
      rw [List.map_append, List.mem_append, not_or, List.map_singleton, List.mem_singleton] at hi
      rw [hsame i hi.2, hothers i hi.1]
    · rw [← restoreOne_congr (hothers _ hnotMem) (congrFun haccess _), hfailed]
    · intro hborrowed
      rw [← congrFun haccess] at hborrowed
      have huntouched := (restoreOne_of_borrowed
        (s := { s with cursor := s.length - behind.length }) hborrowed).2
      rw [hfailed] at huntouched
      obtain rfl : devices' = devices₁ := huntouched
      exact ⟨hothers _ hnotMem, _, hdone⟩
  · right
    obtain ⟨behind, hprescribed, -, hbehind⟩ :=
      prescribed_of_restoreEach hgets hdistinct hidle hcursor heach
    rw [hbehind] at hremaining ⊢
    exact ⟨behind, List.ne_nil_of_length_pos (Nat.pos_of_ne_zero hremaining), rfl, hprescribed,
      (others_of_restoreEach heach).2⟩

/-! Once more. -/

theorem restoreEach_again {access : ι → Access}
    (hgets : ∀ i state, ((M.model i).restore state).GetsOnly)
    (hoverwrites : ∀ descriptor ∈ descriptors, M.Overwrites descriptor.device)
    (hdistinct : (descriptors.map (·.device)).Nodup) (hidle : s.entered = none)
    (haccess : ∀ i, devices.access i = .free → access i = .free)
    (h : restoreEach descriptors devices s = (.ok (), devices', t)) :
    restoreEach descriptors { devices with access } s = (.ok (), { devices' with access }, t) ∧
      restoreEach descriptors { devices' with access } s
        = (.ok (), { devices' with access }, t) := by
  obtain ⟨hfree, early, late, front, behind, hbytes, hreads, hlate, rfl⟩ :=
    exists_front_of_restoreEach (fun _ _ => hgets _) hdistinct hidle h
  obtain ⟨devices₁, heach, hstates, hothers⟩ :=
    hreads.restoreEach_front (fun _ _ => hgets _) hfree hdistinct hidle hbytes hlate
  rw [h] at heach
  cases heach
  -- The devices read the same parts, whichever of the two states they start from.
  have honce (start : (i : ι) → M.State i)
      (hstart : ∀ i, i ∉ descriptors.map (·.device) → start i = devices.state i) :
      restoreEach descriptors { state := start, access } s
        = (.ok (), { devices' with access }, { s with cursor := s.cursor + front.length }) := by
    have hparts : ∀ part ∈ early ++ late, part.state? { state := start, access : Devices M }
        = part.state? devices := by
      intro part hpart
      apply hoverwrites
      rw [hreads.descriptors]
      exact List.mem_map_of_mem hpart
    have hfree' : ∀ descriptor ∈ descriptors, access descriptor.device = .free :=
      fun descriptor hmem => haccess _ (hfree descriptor hmem)
    obtain ⟨devices₂, heach, hstates', hothers'⟩ :=
      (hreads.congr hparts).restoreEach_front (fun _ _ => hgets _) hfree' hdistinct hidle hbytes
        hlate
    rw [heach]
    have haccess₂ := (others_of_restoreEach heach).1
    have hstate₂ : devices₂.state = devices'.state := by
      funext i
      by_cases hi : i ∈ descriptors.map (·.device)
      · rw [hreads.descriptors, List.map_map] at hi
        obtain ⟨part, hpart, rfl⟩ := List.mem_map.mp hi
        have hsame := hstates' part hpart
        rw [hparts part hpart, hstates part hpart] at hsame
        exact (Option.some.inj hsame).symm
      · rw [hothers' i hi, hothers i hi]
        exact hstart i hi
    obtain ⟨state₂, access₂⟩ := devices₂
    obtain rfl : access₂ = access := haccess₂
    obtain rfl : state₂ = devices'.state := hstate₂
    rfl
  exact ⟨honce devices.state fun _ _ => rfl, honce devices'.state hothers⟩

theorem restore_congr {registry : Registry ι}
    (h : restoreEach registry.descriptors devices' s = restoreEach registry.descriptors devices s) :
    registry.restore devices' s = registry.restore devices s := by
  unfold restore forEach
  unfold restoreEach at h
  rw [h]

theorem restore_again {registry : Registry ι} {done rest : List (Descriptor ι)}
    {access : ι → Access}
    (hgets : ∀ i state, ((M.model i).restore state).GetsOnly)
    (hoverwrites : ∀ descriptor ∈ registry.descriptors, M.Overwrites descriptor.device)
    (hdistinct : (registry.descriptors.map (·.device)).Nodup) (hidle : s.entered = none)
    (haccess : ∀ i, devices.access i = .free → access i = .free)
    (hall : registry.descriptors = done ++ rest)
    (h : restoreEach done devices s = (.ok (), devices', t)) :
    registry.restore { devices' with access } s = registry.restore { devices with access } s := by
  -- A restore that some devices have gone through already ends as if nobody had gone through it.
  apply restore_congr
  rw [hall] at hoverwrites hdistinct
  rw [List.map_append, List.nodup_append] at hdistinct
  obtain ⟨hfirst, hagain⟩ := restoreEach_again hgets
    (fun descriptor hmem => hoverwrites descriptor (List.mem_append_left _ hmem))
    hdistinct.1 hidle haccess h
  rw [hall, restoreEach_append rest hfirst, restoreEach_append rest hagain]

end Registry

theorem overwrites_counters (i : Bool) : counters.Overwrites i := by
  intro devices devices' id payload
  cases payload with
  | nil => rfl
  | cons => rfl

end MachineFork
