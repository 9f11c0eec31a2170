import MachineFork.Proofs.Registry.RoundTrip

/-!
This module contains the exact form of the blobs that devices can be restored from, if they only
read. Such a blob is made up of the sections of the devices that were registered first, in that order
and with nothing in between or behind, and each of these devices consumes the whole of its payload.
The other devices were registered after startup; they consume what they were registered with.
-/

namespace MachineFork

variable {ι : Type} {M : Machine ι} {devices devices' : Devices M} {id : DeviceId} {i j : ι}
  {s t : Stream} {payload bytes : Bytes}

namespace Devices

def restored? (devices : Devices M) (id : DeviceId) (i : ι) (payload : Bytes) :
    Option (M.State i) :=
  match ((M.model i).restore (devices.state i)).run (devices.state i)
      { bytes := payload, entered := some ⟨id, 0, payload.length⟩ } with
  | (.ok (), state, s) => if s.cursor = payload.length then some state else none
  | (.error _, _, _) => none

theorem restored?_eq_some_iff {state : M.State i}
    (hgets : ((M.model i).restore (devices.state i)).GetsOnly) (hs : s.Holds id payload) :
    devices.restored? id i payload = some state
      ↔
    ((M.model i).restore (devices.state i)).run (devices.state i) s
      =
    (.ok (), state, { s with cursor := s.cursor + payload.length }) := by
  obtain ⟨result, state', n, hrun⟩ := hgets.run_of_holds id payload (devices.state i)
  unfold restored?
  rw [hrun s hs, hrun _ (.payload id payload)]
  cases result with
  | error e => simp
  | ok value => simp [and_comm]

variable [DecidableEq ι]

theorem restored?_set_of_ne (state : M.State i) (h : j ≠ i) :
    (devices.set i state).restored? id j payload = devices.restored? id j payload := by
  unfold restored?
  rw [state_set_of_ne devices state h]

theorem restoreSection_eq_ok_iff_frame
    (hgets : ((M.model i).restore (devices.state i)).GetsOnly) :
    devices.restoreSection id i s = (.ok (), devices', t)
      ↔
    devices.access i = .free ∧ ∃ payload state,
      payload.length < UInt32.size ∧ Section.frame id payload <+: s.bytes.drop s.cursor ∧
        devices.restored? id i payload = some state ∧ devices' = devices.set i state ∧
        t = { s with
              cursor := s.cursor + (Section.frame id payload).length
              entered := none } := by
  rw [restoreSection_eq_ok_iff]
  apply and_congr_right
  intro hfree
  constructor
  · intro h
    obtain ⟨u, state, v, henter, hrun, hleave, hdevices⟩ := h
    obtain ⟨payload, hsmall, hframe, rfl⟩ := Stream.enter_eq_ok_iff_frame.mp henter
    have hholds := Stream.holds_of_frame hframe
    obtain ⟨result, state', n, hread⟩ := hgets.run_of_holds id payload (devices.state i)
    rw [hread _ hholds] at hrun
    simp only [Prod.mk.injEq] at hrun
    obtain ⟨rfl, rfl, rfl⟩ := hrun
    obtain ⟨hstop, ht⟩ := Stream.leave_eq_ok_iff.mp hleave
    -- Leaving makes sure that the device has read all of its section.
    have hlength : n = payload.length := by
      have := hstop _ rfl
      dsimp only at this
      omega
    subst hlength
    refine ⟨payload, state', hsmall, hframe, ?_, hdevices, ?_⟩
    · rw [restored?_eq_some_iff hgets hholds]
      exact hread _ hholds
    · rw [ht, Section.length_frame, Nat.add_assoc]
  · intro h
    obtain ⟨payload, state, hsmall, hframe, hrestored, hdevices, ht⟩ := h
    have hholds := Stream.holds_of_frame hframe
    refine ⟨_, state, _, Stream.enter_eq_ok_iff_frame.mpr ⟨payload, hsmall, hframe, rfl⟩,
      (restored?_eq_some_iff hgets hholds).mp hrestored, ?_, hdevices⟩
    rw [Stream.leave_eq_ok_iff, ht]
    constructor
    · intro entered hentered
      cases hentered
      rfl
    · rw [Section.length_frame, Nat.add_assoc]

end Devices

structure Part (ι : Type) where
  descriptor : Descriptor ι
  payload : Bytes

namespace Part

def toSection (part : Part ι) : DeviceId × Bytes :=
  (part.descriptor.id, part.payload)

def frame (part : Part ι) : Bytes :=
  Section.frame part.descriptor.id part.payload

def state? (part : Part ι) (devices : Devices M) : Option (M.State part.descriptor.device) :=
  devices.restored? part.descriptor.id part.descriptor.device part.payload

theorem state?_set_of_ne [DecidableEq ι] {part : Part ι} (state : M.State i)
    (h : part.descriptor.device ≠ i) : part.state? (devices.set i state) = part.state? devices :=
  Devices.restored?_set_of_ne state h

def Registered (part : Part ι) : Prop :=
  ∃ registered, part.descriptor.origin = .custom registered ∧ part.frame <+: registered.bytes

end Part

namespace Registry

/--
Whether the devices in `early` find their payloads in `bytes`, and those in `late`, for which nothing
is left, find them where they were registered.
-/
structure Reads (descriptors : List (Descriptor ι)) (devices : Devices M) (bytes : Bytes)
    (early late : List (Part ι)) : Prop where
  descriptors : descriptors = (early ++ late).map (·.descriptor)
  bytes : bytes = Section.frames (early.map (·.toSection))
  registered : ∀ part ∈ late, part.Registered
  small : ∀ part ∈ early ++ late, part.payload.length < UInt32.size
  restored : ∀ part ∈ early ++ late, (part.state? devices).isSome

namespace Reads

variable {descriptor : Descriptor ι} {descriptors rest : List (Descriptor ι)}
  {early late more : List (Part ι)}

theorem congr (h : Reads descriptors devices bytes early late)
    (hsame : ∀ part ∈ early ++ late, part.state? devices' = part.state? devices) :
    Reads descriptors devices' bytes early late :=
  { h with
    restored := by
      intro part hpart
      rw [hsame part hpart]
      exact h.restored part hpart }

theorem state?_set [DecidableEq ι] (h : Reads descriptors devices' bytes early late)
    (hdevice : i ∉ descriptors.map (·.device)) (state : M.State i) :
    ∀ part ∈ early ++ late, part.state? (devices.set i state) = part.state? devices := by
  intro part hpart
  apply Part.state?_set_of_ne
  intro heq
  apply hdevice
  rw [← heq, h.descriptors]
  apply List.mem_map_of_mem
  apply List.mem_map_of_mem hpart

theorem early_cons (h : Reads rest devices bytes more late) (hsmall : payload.length < UInt32.size)
    (hrestored : (Part.state? ⟨descriptor, payload⟩ devices).isSome) :
    Reads (descriptor :: rest) devices (Section.frame descriptor.id payload ++ bytes)
      (⟨descriptor, payload⟩ :: more) late where
  descriptors := by
    rw [h.descriptors]
    rfl
  bytes := by
    rw [h.bytes]
    rfl
  registered := h.registered
  small := List.forall_mem_cons.mpr ⟨hsmall, h.small⟩
  restored := List.forall_mem_cons.mpr ⟨hrestored, h.restored⟩

theorem late_cons (h : Reads rest devices [] [] more) (hsmall : payload.length < UInt32.size)
    (hrestored : (Part.state? ⟨descriptor, payload⟩ devices).isSome)
    (hregistered : Part.Registered ⟨descriptor, payload⟩) :
    Reads (descriptor :: rest) devices [] [] (⟨descriptor, payload⟩ :: more) where
  descriptors := by
    rw [h.descriptors]
    rfl
  bytes := rfl
  registered := List.forall_mem_cons.mpr ⟨hregistered, h.registered⟩
  small := List.forall_mem_cons.mpr ⟨hsmall, h.small⟩
  restored := List.forall_mem_cons.mpr ⟨hrestored, h.restored⟩

theorem early_eq_nil (h : Reads descriptors devices [] early late) : early = [] := by
  have hbytes := h.bytes
  cases early with
  | nil => rfl
  | cons part more =>
    have := congrArg List.length hbytes
    simp [Section.frames, Part.toSection] at this
    omega

theorem cons_cases (h : Reads (descriptor :: rest) devices bytes early late) :
    ∃ payload, payload.length < UInt32.size ∧
      (Part.state? ⟨descriptor, payload⟩ devices).isSome ∧
      ((∃ more behind, early = ⟨descriptor, payload⟩ :: more ∧
          bytes = Section.frame descriptor.id payload ++ behind ∧
          Reads rest devices behind more late) ∨
        ∃ more, early = [] ∧ late = ⟨descriptor, payload⟩ :: more ∧ bytes = [] ∧
          Part.Registered ⟨descriptor, payload⟩ ∧ Reads rest devices [] [] more) := by
  obtain ⟨hdescriptors, hbytes, hregistered, hsmall, hrestored⟩ := h
  cases early with
  | cons part more =>
    rw [List.cons_append, List.map_cons, List.cons.injEq] at hdescriptors
    obtain ⟨rfl, hrest⟩ := hdescriptors
    rw [List.cons_append, List.forall_mem_cons] at hsmall hrestored
    exact ⟨part.payload, hsmall.1, hrestored.1,
      .inl ⟨more, _, rfl, hbytes, hrest, rfl, hregistered, hsmall.2, hrestored.2⟩⟩
  | nil =>
    cases late with
    | nil => simp at hdescriptors
    | cons part more =>
      rw [List.nil_append, List.map_cons, List.cons.injEq] at hdescriptors
      obtain ⟨rfl, hrest⟩ := hdescriptors
      rw [List.nil_append, List.forall_mem_cons] at hsmall hrestored
      rw [List.forall_mem_cons] at hregistered
      exact ⟨part.payload, hsmall.1, hrestored.1,
        .inr ⟨more, rfl, rfl, hbytes, hregistered.1, hrest, rfl, hregistered.2, hsmall.2,
          hrestored.2⟩⟩

end Reads

variable [DecidableEq ι] {descriptor : Descriptor ι} {descriptors : List (Descriptor ι)}
  {early late : List (Part ι)}

/-! One device. -/

theorem restoreOne_of_frame {state : M.State descriptor.device}
    (hgets : ∀ state, ((M.model descriptor.device).restore state).GetsOnly)
    (hfree : devices.access descriptor.device = .free) (hidle : s.entered = none)
    (hsmall : payload.length < UInt32.size)
    (hstate : Part.state? ⟨descriptor, payload⟩ devices = some state)
    (hframe : Section.frame descriptor.id payload <+: s.bytes.drop s.cursor) :
    restoreOne descriptor devices s
      =
    (.ok (), devices.set descriptor.device state,
      { s with cursor := s.cursor + (Section.frame descriptor.id payload).length }) := by
  have hremaining : s.remaining ≠ 0 := by
    have := hframe.length_le
    rw [Section.length_frame, List.length_drop] at this
    simp only [Stream.remaining, Stream.readEnd, Stream.length, hidle]
    omega
  rw [restoreOne_of_remaining hremaining]
  have hone := (Devices.restoreSection_eq_ok_iff_frame (hgets _)).mpr
    ⟨hfree, payload, state, hsmall, hframe, hstate, rfl, rfl⟩
  rw [hone, hidle]

theorem restoreOne_of_registered {state : M.State descriptor.device}
    (hgets : ∀ state, ((M.model descriptor.device).restore state).GetsOnly)
    (hfree : devices.access descriptor.device = .free) (hremaining : s.remaining = 0)
    (hsmall : payload.length < UInt32.size)
    (hstate : Part.state? ⟨descriptor, payload⟩ devices = some state)
    (hregistered : Part.Registered ⟨descriptor, payload⟩) :
    restoreOne descriptor devices s = (.ok (), devices.set descriptor.device state, s) := by
  obtain ⟨registered, horigin, hframe⟩ := hregistered
  unfold restoreOne
  rw [horigin]
  dsimp only
  rw [if_pos hremaining]
  have hone := (Devices.restoreSection_eq_ok_iff_frame (s := registered.clone) (hgets _)).mpr
    ⟨hfree, payload, state, hsmall, hframe, hstate, rfl, rfl⟩
  rw [hone]

theorem exists_part_of_restoreOne
    (hgets : ∀ state, ((M.model descriptor.device).restore state).GetsOnly)
    (hidle : s.entered = none) (h : restoreOne descriptor devices s = (.ok (), devices', t)) :
    devices.access descriptor.device = .free ∧ ∃ payload state, payload.length < UInt32.size ∧
      Part.state? ⟨descriptor, payload⟩ devices = some state ∧
      devices' = devices.set descriptor.device state ∧
      (Section.frame descriptor.id payload <+: s.bytes.drop s.cursor ∧
          t = { s with cursor := s.cursor + (Section.frame descriptor.id payload).length } ∨
        s.bytes.drop s.cursor = [] ∧ t = s ∧ Part.Registered ⟨descriptor, payload⟩) := by
  by_cases hlate : descriptor.isCustom ∧ s.remaining = 0
  · obtain ⟨hcustom, hremaining⟩ := hlate
    unfold Descriptor.isCustom at hcustom
    unfold restoreOne at h
    cases horigin : descriptor.origin with
    | startup => simp [horigin] at hcustom
    | custom registered =>
      simp only [horigin, hremaining, if_true, Prod.mk.injEq] at h
      have hone : devices.restoreSection descriptor.id descriptor.device registered.clone
          = (.ok (), devices', _) := Prod.ext h.1 (Prod.ext h.2.1 rfl)
      rw [Devices.restoreSection_eq_ok_iff_frame (hgets _)] at hone
      obtain ⟨hfree, payload, state, hsmall, hframe, hstate, hdevices, -⟩ := hone
      have hread : s.bytes.drop s.cursor = [] := by
        rw [List.drop_eq_nil_iff]
        simp only [Stream.remaining, Stream.readEnd, Stream.length, hidle] at hremaining
        omega
      exact ⟨hfree, payload, state, hsmall, hstate, hdevices,
        .inr ⟨hread, h.2.2.symm, registered, horigin, hframe⟩⟩
  · have hone : devices.restoreSection descriptor.id descriptor.device s
        = (.ok (), devices', t) := by
      rw [← h]
      unfold restoreOne
      cases horigin : descriptor.origin with
      | startup => rfl
      | custom registered =>
        have hremaining : s.remaining ≠ 0 := by simpa [Descriptor.isCustom, horigin] using hlate
        dsimp only
        rw [if_neg hremaining]
    rw [Devices.restoreSection_eq_ok_iff_frame (hgets _)] at hone
    obtain ⟨hfree, payload, state, hsmall, hframe, hstate, hdevices, ht⟩ := hone
    rw [← hidle] at ht
    exact ⟨hfree, payload, state, hsmall, hstate, hdevices, .inl ⟨hframe, ht⟩⟩

/-! All devices. -/

theorem exists_front_of_restoreEach
    (hgets : ∀ descriptor ∈ descriptors, ∀ state,
      ((M.model descriptor.device).restore state).GetsOnly)
    (hdistinct : (descriptors.map (·.device)).Nodup) (hidle : s.entered = none)
    (h : restoreEach descriptors devices s = (.ok (), devices', t)) :
    (∀ descriptor ∈ descriptors, devices.access descriptor.device = .free) ∧
      ∃ early late front behind, s.bytes.drop s.cursor = front ++ behind ∧
        Reads descriptors devices front early late ∧ (late = [] ∨ behind = []) ∧
        t = { s with cursor := s.cursor + front.length } := by
  induction descriptors generalizing devices s with
  | nil =>
    simp only [restoreEach, forEach.go, Prod.mk.injEq] at h
    obtain ⟨-, -, rfl⟩ := h
    refine ⟨by simp, [], [], [], _, rfl, ?_, .inl rfl, rfl⟩
    exact ⟨rfl, rfl, by simp, by simp, by simp⟩
  | cons descriptor rest ih =>
    rw [List.forall_mem_cons] at hgets
    rw [List.map_cons, List.nodup_cons] at hdistinct
    obtain ⟨devices₁, u, hone, hrest⟩ := restoreEach_cons_eq_ok_iff.mp h
    obtain ⟨hfree, payload, state, hsmall, hstate, rfl, hcase⟩ :=
      exists_part_of_restoreOne hgets.1 hidle hone
    have hidle' : u.entered = none := by
      rcases hcase with ⟨-, rfl⟩ | ⟨-, rfl, -⟩ <;> exact hidle
    obtain ⟨hfrees, early, late, front, behind, hbytes, hreads, hlate, rfl⟩ :=
      ih hgets.2 hdistinct.2 hidle' hrest
    refine ⟨List.forall_mem_cons.mpr ⟨hfree, hfrees⟩, ?_⟩
    have hreads : Reads rest devices front early late :=
      hreads.congr fun part hpart => (hreads.state?_set hdistinct.1 state part hpart).symm
    have hrestored : (Part.state? ⟨descriptor, payload⟩ devices).isSome := by
      rw [hstate]
      rfl
    rcases hcase with ⟨hframe, rfl⟩ | ⟨hread, rfl, hregistered⟩
    · obtain ⟨after, hafter⟩ := hframe
      rw [← List.drop_drop, ← hafter, List.drop_left] at hbytes
      refine ⟨_, late, _, behind, ?_, hreads.early_cons hsmall hrestored, hlate, ?_⟩
      · rw [← hafter, hbytes, List.append_assoc]
      · simp only [List.length_append, Nat.add_assoc]
    · rw [hread] at hbytes
      obtain ⟨rfl, rfl⟩ := List.append_eq_nil_iff.mp hbytes.symm
      obtain rfl := hreads.early_eq_nil
      refine ⟨[], _, [], [], hread, hreads.late_cons hsmall hrestored hregistered, .inr rfl, rfl⟩

theorem exists_reads_of_restoreEach
    (hgets : ∀ descriptor ∈ descriptors, ∀ state,
      ((M.model descriptor.device).restore state).GetsOnly)
    (hdistinct : (descriptors.map (·.device)).Nodup) (hidle : s.entered = none)
    (h : restoreEach descriptors devices s = (.ok (), devices', t)) (hremaining : t.remaining = 0) :
    ∃ early late, Reads descriptors devices (s.bytes.drop s.cursor) early late := by
  obtain ⟨-, early, late, front, behind, hbytes, hreads, -, rfl⟩ :=
    exists_front_of_restoreEach hgets hdistinct hidle h
  have hlength := congrArg List.length hbytes
  simp only [Stream.remaining, Stream.readEnd, Stream.length, hidle] at hremaining
  rw [List.length_drop, List.length_append] at hlength
  obtain rfl : behind = [] := List.length_eq_zero_iff.mp (by omega)
  rw [hbytes, List.append_nil]
  exact ⟨early, late, hreads⟩

theorem Reads.restoreEach_front {front behind : Bytes}
    (hgets : ∀ descriptor ∈ descriptors, ∀ state,
      ((M.model descriptor.device).restore state).GetsOnly)
    (hfree : ∀ descriptor ∈ descriptors, devices.access descriptor.device = .free)
    (hdistinct : (descriptors.map (·.device)).Nodup) (hidle : s.entered = none)
    (h : Reads descriptors devices front early late)
    (hbytes : s.bytes.drop s.cursor = front ++ behind) (hlate : late = [] ∨ behind = []) :
    ∃ devices', restoreEach descriptors devices s
        = (.ok (), devices', { s with cursor := s.cursor + front.length }) ∧
      (∀ part ∈ early ++ late,
        part.state? devices = some (devices'.state part.descriptor.device)) ∧
      ∀ i, i ∉ descriptors.map (·.device) → devices'.state i = devices.state i := by
  induction descriptors generalizing devices s front early late with
  | nil =>
    have hnone : early ++ late = [] := List.map_eq_nil_iff.mp h.descriptors.symm
    have hread := h.bytes
    rw [(List.append_eq_nil_iff.mp hnone).1, Section.frames, List.map_nil,
      List.flatMap_nil] at hread
    refine ⟨devices, ?_, by simp [hnone], fun i _ => rfl⟩
    rw [hread]
    rfl
  | cons descriptor rest ih =>
    rw [List.forall_mem_cons] at hgets hfree
    rw [List.map_cons, List.nodup_cons] at hdistinct
    obtain ⟨payload, hsmall, hrestored, hcase⟩ := h.cons_cases
    obtain ⟨state, hstate⟩ := Option.isSome_iff_exists.mp hrestored
    obtain ⟨u, early', late', front', hone, hidle', hreads, hparts, hbytes', hlate', hu⟩ :
        ∃ u early' late' front',
          restoreOne descriptor devices s = (.ok (), devices.set descriptor.device state, u) ∧
          u.entered = none ∧
          Reads rest devices front' early' late' ∧
          early ++ late = ⟨descriptor, payload⟩ :: (early' ++ late') ∧
          u.bytes.drop u.cursor = front' ++ behind ∧ (late' = [] ∨ behind = []) ∧
          { u with cursor := u.cursor + front'.length }
            = { s with cursor := s.cursor + front.length } := by
      rcases hcase with
        ⟨more, after, rfl, rfl, hreads⟩ | ⟨more, rfl, rfl, rfl, hregistered, hreads⟩
      · rw [List.append_assoc] at hbytes
        have hframe : Section.frame descriptor.id payload <+: s.bytes.drop s.cursor := by
          rw [hbytes]
          apply List.prefix_append
        refine ⟨_, more, late, after,
          restoreOne_of_frame hgets.1 hfree.1 hidle hsmall hstate hframe, hidle, hreads, rfl, ?_,
          hlate, ?_⟩
        · rw [← List.drop_drop, hbytes, List.drop_left]
        · simp only [List.length_append, Nat.add_assoc]
      · obtain rfl : behind = [] := by simpa using hlate
        have hremaining : s.remaining = 0 := by
          rw [List.append_nil, List.drop_eq_nil_iff] at hbytes
          simp only [Stream.remaining, Stream.readEnd, Stream.length, hidle]
          omega
        exact ⟨s, [], more, [],
          restoreOne_of_registered hgets.1 hfree.1 hremaining hsmall hstate hregistered, hidle,
          hreads, rfl, hbytes, .inr rfl, rfl⟩
    have hfree' : ∀ other ∈ rest,
        (devices.set descriptor.device state).access other.device = .free := hfree.2
    obtain ⟨devices', hrest, hstates, hothers⟩ :=
      ih hgets.2 hfree' hdistinct.2 hidle' (hreads.congr (hreads.state?_set hdistinct.1 state))
        hbytes' hlate'
    rw [hu] at hrest
    refine ⟨devices', restoreEach_cons_eq_ok_iff.mpr ⟨_, u, hone, hrest⟩, ?_, ?_⟩
    · rw [hparts, List.forall_mem_cons]
      constructor
      · rw [hstate, hothers _ hdistinct.1, Devices.state_set_self]
      · intro part hpart
        rw [← hstates part hpart, hreads.state?_set hdistinct.1 state part hpart]
    · intro i hi
      rw [List.map_cons, List.mem_cons, not_or] at hi
      rw [hothers i hi.2, Devices.state_set_of_ne _ _ hi.1]

theorem Reads.restoreEach_eq_ok
    (hgets : ∀ descriptor ∈ descriptors, ∀ state,
      ((M.model descriptor.device).restore state).GetsOnly)
    (hfree : ∀ descriptor ∈ descriptors, devices.access descriptor.device = .free)
    (hdistinct : (descriptors.map (·.device)).Nodup) (hidle : s.entered = none)
    (h : Reads descriptors devices (s.bytes.drop s.cursor) early late) :
    ∃ devices' t, restoreEach descriptors devices s = (.ok (), devices', t) ∧ t.remaining = 0 ∧
      (∀ part ∈ early ++ late,
        part.state? devices = some (devices'.state part.descriptor.device)) ∧
      ∀ i, i ∉ descriptors.map (·.device) → devices'.state i = devices.state i := by
  obtain ⟨devices', heach, hstates⟩ :=
    h.restoreEach_front hgets hfree hdistinct hidle (List.append_nil _).symm (.inr rfl)
  refine ⟨devices', _, heach, ?_, hstates⟩
  simp only [Stream.remaining, Stream.readEnd, Stream.length, hidle, List.length_drop]
  omega

omit [DecidableEq ι] in
theorem Reads.sections_prefix {registry : Registry ι} {sections : List (DeviceId × Bytes)}
    (h : Reads registry.descriptors devices (Section.frames sections) early late)
    (hsmall : ∀ part ∈ sections, part.2.length < UInt32.size) :
    sections.map Prod.fst <+: registry.ids ∧
      ∀ descriptor ∈ registry.descriptors.drop sections.length, descriptor.isCustom := by
  obtain rfl : sections = early.map (·.toSection) := by
    apply Section.frames_inj h.bytes hsmall
    intro part hpart
    obtain ⟨part, hmem, rfl⟩ := List.mem_map.mp hpart
    exact h.small part (List.mem_append_left _ hmem)
  constructor
  · rw [ids, h.descriptors]
    simp only [List.map_append, List.map_map]
    apply List.prefix_append
  · intro descriptor hdescriptor
    rw [h.descriptors, List.map_append, List.drop_left' (by simp)] at hdescriptor
    obtain ⟨part, hmem, rfl⟩ := List.mem_map.mp hdescriptor
    obtain ⟨registered, horigin, -⟩ := h.registered part hmem
    rw [Descriptor.isCustom, horigin]

/--
What can be restored is exactly what devices can read part by part, and every device becomes what its
own part makes of it. So a blob whose sections come in another order than the devices were registered
in cannot be restored, and neither can one that lacks the section of a device of the startup.
-/
theorem restore_eq_ok_iff_reads {registry : Registry ι}
    (hgets : ∀ descriptor ∈ registry.descriptors, ∀ state,
      ((M.model descriptor.device).restore state).GetsOnly)
    (hdistinct : (registry.descriptors.map (·.device)).Nodup)
    (hfree : ∀ descriptor ∈ registry.descriptors, devices.access descriptor.device = .free)
    (hidle : s.entered = none) :
    ((registry.restore devices s).1 = .ok ()
        ↔
      ∃ early late, Reads registry.descriptors devices (s.bytes.drop s.cursor) early late) ∧
      (∀ early late, Reads registry.descriptors devices (s.bytes.drop s.cursor) early late →
        (∀ part ∈ early ++ late,
          some ((registry.restore devices s).2.1.state part.descriptor.device)
            =
          part.state? devices) ∧
        ∀ i, i ∉ registry.descriptors.map (·.device) →
          (registry.restore devices s).2.1.state i = devices.state i) ∧
      (∀ sections, (∀ part ∈ sections, part.2.length < UInt32.size) →
        s.bytes.drop s.cursor = Section.frames sections → (registry.restore devices s).1 = .ok () →
          sections.map Prod.fst <+: registry.ids ∧
            ∀ descriptor ∈ registry.descriptors.drop sections.length, descriptor.isCustom) ∧
      ∀ (saved : Registry ι) (live : Devices M) (blob : Stream),
        (∀ descriptor ∈ saved.descriptors,
          ((M.model descriptor.device).save (live.state descriptor.device)).PutsOnly) →
        saved.save live .empty = (.ok (), blob) → s.bytes.drop s.cursor = blob.bytes →
          (registry.restore devices s).1 = .ok () →
            saved.ids <+: registry.ids ∧
              ∀ descriptor ∈ registry.descriptors.drop saved.size, descriptor.isCustom := by
  have hreads (hok : (registry.restore devices s).1 = .ok ()) :
      ∃ early late, Reads registry.descriptors devices (s.bytes.drop s.cursor) early late := by
    obtain ⟨heach, hremaining⟩ := restore_eq_ok_iff.mp (Prod.ext hok rfl)
    exact exists_reads_of_restoreEach hgets hdistinct hidle heach hremaining
  have hrestore {early late : List (Part ι)}
      (h : Reads registry.descriptors devices (s.bytes.drop s.cursor) early late) :
      ∃ devices' t, registry.restore devices s = (.ok (), devices', t) ∧
        (∀ part ∈ early ++ late,
          part.state? devices = some (devices'.state part.descriptor.device)) ∧
        ∀ i, i ∉ registry.descriptors.map (·.device) → devices'.state i = devices.state i := by
    obtain ⟨devices', t, heach, hremaining, hstates⟩ :=
      h.restoreEach_eq_ok hgets hfree hdistinct hidle
    exact ⟨devices', t, restore_eq_ok_iff.mpr ⟨heach, hremaining⟩, hstates⟩
  have hsections (sections : List (DeviceId × Bytes))
      (hsmall : ∀ part ∈ sections, part.2.length < UInt32.size)
      (hbytes : s.bytes.drop s.cursor = Section.frames sections)
      (hok : (registry.restore devices s).1 = .ok ()) :
      sections.map Prod.fst <+: registry.ids ∧
        ∀ descriptor ∈ registry.descriptors.drop sections.length, descriptor.isCustom := by
    obtain ⟨early, late, hreads⟩ := hreads hok
    rw [hbytes] at hreads
    exact hreads.sections_prefix hsmall
  refine ⟨⟨hreads, ?_⟩, ?_, hsections, ?_⟩
  · intro h
    obtain ⟨early, late, h⟩ := h
    obtain ⟨devices', t, hok, -⟩ := hrestore h
    rw [hok]
  · intro early late h
    obtain ⟨devices', t, hok, hstates, hothers⟩ := hrestore h
    rw [hok]
    exact ⟨fun part hpart => (hstates part hpart).symm, hothers⟩
  · intro saved live blob hputs hsave hblob hok
    obtain ⟨written, hfresh, hwritten⟩ := save_fresh hputs 0
    obtain ⟨hresult, rfl⟩ := Prod.mk.inj (hsave.symm.trans hfresh)
    obtain ⟨sections, hids, hsmall, hbytes⟩ :=
      exists_sections_of_layout (Prod.ext hresult.symm hwritten.symm)
    have hprefix := hsections sections hsmall (hblob.trans hbytes) hok
    rw [hids, ← List.length_map, hids, List.length_map] at hprefix
    exact hprefix

/-! Two counters, the second of which was registered late and is not in the blob. -/

def lateCounters : Registry Bool where
  descriptors :=
    [ ⟨.singleton ⟨65, 0, 0, 0⟩, false, .startup⟩,
      ⟨.singleton ⟨66, 0, 0, 0⟩, true,
        .custom (.ofBytes (Section.frame (.singleton ⟨66, 0, 0, 0⟩) [5]))⟩ ]
  isInitialized := true

def liveCounters : Devices counters where
  state i := if i then UInt8.ofNat 2 else UInt8.ofNat 1

def earlyBlob : Bytes :=
  Section.frame (.singleton ⟨65, 0, 0, 0⟩) [7]

def swappedSections : List (DeviceId × Bytes) :=
  [(.singleton ⟨66, 0, 0, 0⟩, [8]), (.singleton ⟨65, 0, 0, 0⟩, [7])]

theorem restore_eq_ok_iff_reads_counters :
    (lateCounters.restore liveCounters (.ofBytes earlyBlob)).1 = .ok () ∧
      (lateCounters.restore liveCounters (.ofBytes earlyBlob)).2.1.state false = UInt8.ofNat 7 ∧
      (lateCounters.restore liveCounters (.ofBytes earlyBlob)).2.1.state true = UInt8.ofNat 5 ∧
      (lateCounters.restore liveCounters (.ofBytes (Section.frames swappedSections))).1
        ≠ .ok () := by
  have hgets : ∀ descriptor ∈ lateCounters.descriptors, ∀ state,
      ((counters.model descriptor.device).restore state).GetsOnly :=
    fun descriptor _ => (faithful_counters descriptor.device).gets
  have hdistinct : (lateCounters.descriptors.map (·.device)).Nodup := by decide
  have hfree : ∀ descriptor ∈ lateCounters.descriptors,
      liveCounters.access descriptor.device = .free := fun _ _ => rfl
  have hreads : Reads lateCounters.descriptors liveCounters earlyBlob
      [⟨lateCounters.descriptors[0], [7]⟩] [⟨lateCounters.descriptors[1], [5]⟩] :=
    { descriptors := rfl
      bytes := rfl
      registered := by
        intro part hpart
        obtain rfl := List.mem_singleton.mp hpart
        exact ⟨_, rfl, List.prefix_refl _⟩
      small := by decide
      restored := by decide +kernel }
  obtain ⟨hiff, hstates, -⟩ :=
    restore_eq_ok_iff_reads (s := .ofBytes earlyBlob) hgets hdistinct hfree rfl
  obtain ⟨-, -, hsections, -⟩ :=
    restore_eq_ok_iff_reads (s := .ofBytes (Section.frames swappedSections)) hgets hdistinct hfree rfl
  have hstates := (hstates _ _ hreads).1
  refine ⟨hiff.mpr ⟨_, _, hreads⟩, ?_, ?_, ?_⟩
  · exact Option.some.inj (hstates _ (.head _))
  · exact Option.some.inj (hstates _ (.tail _ (.head _)))
  · intro hok
    have hprefix := (hsections swappedSections (by decide) rfl hok).1
    exact absurd hprefix (by decide +kernel)

end Registry

end MachineFork
