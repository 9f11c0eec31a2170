import MachineFork.Proofs.Blob.Events
import MachineFork.Proofs.Registry.Restore

/-!
This module contains the exact condition under which restoring keeps every device to its own section
of the blob. While a device restores itself nothing but a reset can lift its confinement, and nothing
but cutting the blob off can take the sections behind its own away. As neither is refused, devices
are confined exactly when they do neither.

What a device does to the blob is its visit to it. A device that is restored from what it was when it
was registered pays no visit.
-/

namespace MachineFork

def Section.Tile (bytes : Bytes) : (start : Nat) → List Section → Prop
  | start, [] => bytes.length ≤ start
  | start, entered :: rest =>
    entered.start = start + 10 ∧ entered.start ≤ entered.stop ∧ entered.stop ≤ bytes.length ∧
      (bytes.drop start).take 10 = header entered.device (entered.stop - entered.start) ∧
      Tile bytes entered.stop rest

theorem Section.tile_congr {a b : Bytes} {start : Nat} {parts : List Section}
    (hlength : a.length = b.length) (h : a.drop start = b.drop start) :
    Tile a start parts ↔ Tile b start parts := by
  induction parts generalizing start with
  | nil => simp [Tile, hlength]
  | cons entered rest ih =>
    simp only [Tile, hlength, h]
    apply and_congr_right
    intro hstart
    apply and_congr_right
    intro hstop
    apply and_congr_right
    intro _
    apply and_congr_right
    intro _
    apply ih
    obtain ⟨n, hn⟩ : ∃ n, entered.stop = start + n := Nat.exists_eq_add_of_le (by omega)
    rw [hn, ← List.drop_drop, ← List.drop_drop, h]

structure Visit where
  entered : Section
  events : List Event
  cursor : Nat

def Visit.Confined (visit : Visit) : Prop :=
  (∀ event ∈ visit.events, event.Within visit.entered.start visit.entered.stop) ∧
    visit.cursor = visit.entered.stop

instance (visit : Visit) : Decidable visit.Confined :=
  inferInstanceAs (Decidable (_ ∧ _))

variable {ι : Type} {M : Machine ι} [DecidableEq ι]

def Descriptor.visit? (descriptor : Descriptor ι) (devices : Devices M) (s : Stream) :
    Option Visit :=
  if descriptor.isCustom ∧ s.remaining = 0 ∨ devices.access descriptor.device ≠ .free then
    none
  else
    let s := (s.enter descriptor.id).2
    let state := devices.state descriptor.device
    let program := (M.model descriptor.device).restore state
    s.entered.map fun entered =>
      { entered, events := program.events state s, cursor := (program.run state s).2.2.cursor }

namespace Registry

def visits (registry : Registry ι) (devices : Devices M) (s : Stream) : List Visit :=
  go registry.descriptors devices s
where
  go : List (Descriptor ι) → Devices M → Stream → List Visit
  | [], _, _ => []
  | descriptor :: rest, devices, s =>
    let visit := (descriptor.visit? devices s).toList
    match restoreOne descriptor devices s with
    | (.error _, _, _) => visit
    | (.ok (), devices, s) => visit ++ go rest devices s

variable {devices devices' : Devices M} {descriptor : Descriptor ι}
  {descriptors : List (Descriptor ι)} {s t : Stream}

theorem visits.go_cons (h : restoreOne descriptor devices s = (.ok (), devices', t)) :
    visits.go (descriptor :: descriptors) devices s
      =
    (descriptor.visit? devices s).toList ++ visits.go descriptors devices' t := by
  rw [visits.go, h]

structure Visits (descriptor : Descriptor ι) (s : Stream) (visit : Visit) (t : Stream) : Prop where
  device : visit.entered.device = descriptor.id
  start : visit.entered.start = s.cursor + 10
  start_le : visit.entered.start ≤ visit.entered.stop
  stop_le : visit.entered.stop ≤ s.length
  header : (s.bytes.drop s.cursor).take 10
    = Section.header descriptor.id (visit.entered.stop - visit.entered.start)
  confined_iff : visit.Confined ↔ .reset ∉ visit.events
  cursor : visit.Confined → t.cursor = visit.entered.stop
  length : visit.Confined → visit.entered.stop ≤ t.length
  behind : visit.Confined → t.bytes.drop visit.entered.stop = s.bytes.drop visit.entered.stop
    ∨ t.length = visit.entered.stop
  idle : t.entered = none

omit [DecidableEq ι] in
theorem visits_of_leads {length capacity : Nat} {events : List Event} {v : Stream}
    (hlength : s.cursor + 10 + length ≤ s.length)
    (hheader : (s.bytes.drop s.cursor).take 10 = Section.header descriptor.id length)
    (hleads : Stream.Leads
      { bytes := s.bytes
        cursor := s.cursor + 10
        capacity
        entered := some ⟨descriptor.id, s.cursor + 10, s.cursor + 10 + length⟩ } events v)
    (hleave : ∀ entered, v.entered = some entered → v.cursor = entered.stop) :
    Visits descriptor s
      ⟨⟨descriptor.id, s.cursor + 10, s.cursor + 10 + length⟩, events, v.cursor⟩
      { v with entered := none } := by
  have hadvances : .reset ∉ events → _ :=
    hleads.advances (Nat.le_trans (Nat.le_add_right _ _) hlength)
  have hstop (hreset : .reset ∉ events) : v.cursor = s.cursor + 10 + length :=
    hleave _ (hadvances hreset).entered
  have hconfined : Visit.Confined
      ⟨⟨descriptor.id, s.cursor + 10, s.cursor + 10 + length⟩, events, v.cursor⟩
        ↔
      .reset ∉ events := by
    constructor
    · intro hvisit hreset
      obtain ⟨hwithin, hcursor⟩ := hvisit
      have := hleads.cursor_eq_zero_of_reset hreset (Nat.zero_lt_succ _) hwithin
      dsimp only at hcursor
      omega
    · intro hreset
      refine ⟨fun event hevent => ?_, hstop hreset⟩
      rw [← hstop hreset]
      exact (hadvances hreset).within event hevent
  refine
    { device := rfl
      start := rfl
      start_le := Nat.le_add_right _ _
      stop_le := hlength
      header := by rwa [Nat.add_sub_cancel_left]
      confined_iff := hconfined
      cursor := fun h => h.2
      length := ?_
      behind := ?_
      idle := rfl }
  · intro h
    rw [← h.2]
    exact (hadvances (hconfined.mp h)).cursor_le_length
  · intro h
    rw [← h.2]
    exact (hadvances (hconfined.mp h)).behind

theorem visits_of_restoreSection
    (h : devices.restoreSection descriptor.id descriptor.device s = (.ok (), devices', t))
    (hvisits : ¬(descriptor.isCustom ∧ s.remaining = 0)) :
    ∃ visit, descriptor.visit? devices s = some visit ∧ Visits descriptor s visit t := by
  obtain ⟨hfree, u, state, v, henter, hrun, hleave, -⟩ := Devices.restoreSection_eq_ok_iff.mp h
  obtain ⟨length, -, hlength, hheader, rfl⟩ := Stream.enter_eq_ok_iff.mp henter
  obtain ⟨hstop, rfl⟩ := Stream.leave_eq_ok_iff.mp hleave
  refine ⟨_, ?_, visits_of_leads hlength hheader (Stream.leads_of_run hrun) hstop⟩
  unfold Descriptor.visit?
  rw [if_neg (by simp [hfree, hvisits])]
  simp only [henter, hrun, Option.map_some]

theorem restoreOne_cases (h : restoreOne descriptor devices s = (.ok (), devices', t)) :
    (descriptor.isCustom ∧ s.remaining = 0 ∧ descriptor.visit? devices s = none ∧ t = s) ∨
      ∃ visit, descriptor.visit? devices s = some visit ∧ Visits descriptor s visit t := by
  unfold restoreOne at h
  split at h
  · next registered horigin =>
    split at h
    · next hremaining =>
      left
      have hcustom : descriptor.isCustom := by simp [Descriptor.isCustom, horigin]
      refine ⟨hcustom, hremaining, ?_, (Prod.mk.inj (Prod.mk.inj h).2).2.symm⟩
      unfold Descriptor.visit?
      rw [if_pos (.inl ⟨hcustom, hremaining⟩)]
    · next hremaining =>
      right
      exact visits_of_restoreSection h fun h => hremaining h.2
  · next horigin =>
    right
    exact visits_of_restoreSection h (by simp [Descriptor.isCustom, horigin])

theorem visits_eq_nil (h : restoreEach descriptors devices s = (.ok (), devices', t))
    (hread : s.length ≤ s.cursor) : visits.go descriptors devices s = [] ∧ t = s := by
  induction descriptors generalizing devices with
  | nil =>
    simp only [restoreEach, forEach.go, Prod.mk.injEq] at h
    exact ⟨rfl, h.2.2.symm⟩
  | cons descriptor descriptors ih =>
    obtain ⟨devices₁, u, hone, hrest⟩ := restoreEach_cons_eq_ok_iff.mp h
    rw [visits.go_cons hone]
    rcases restoreOne_cases hone with ⟨-, -, hvisit, rfl⟩ | ⟨visit, -, hvisits⟩
    · rw [hvisit]
      exact ih hrest
    · have := hvisits.start
      have := hvisits.start_le
      have := hvisits.stop_le
      omega

theorem map_device_visits (h : restoreEach descriptors devices s = (.ok (), devices', t))
    (hidle : s.entered = none) :
    (visits.go descriptors devices s).map (·.entered.device)
      =
    (descriptors.map (·.id)).take (visits.go descriptors devices s).length := by
  induction descriptors generalizing devices s with
  | nil => simp [visits.go]
  | cons descriptor descriptors ih =>
    obtain ⟨devices₁, u, hone, hrest⟩ := restoreEach_cons_eq_ok_iff.mp h
    rw [visits.go_cons hone]
    rcases restoreOne_cases hone with ⟨-, hremaining, hvisit, rfl⟩ | ⟨visit, hvisit, hvisits⟩
    · have hread : u.length ≤ u.cursor := by
        simp only [Stream.remaining, Stream.readEnd, hidle] at hremaining
        omega
      simp [hvisit, (visits_eq_nil hrest hread).1]
    · simp [hvisit, hvisits.device, ih hrest hvisits.idle]

theorem tile_behind_iff {visit : Visit} {u : Stream} (hvisits : Visits descriptor s visit u)
    (hconfined : visit.Confined) (h : restoreEach descriptors devices u = (.ok (), devices', t))
    (ih : (∀ visit ∈ visits.go descriptors devices u, visit.Confined) ∧
        Section.Tile u.bytes u.cursor ((visits.go descriptors devices u).map (·.entered))
      ↔
      (∀ visit ∈ visits.go descriptors devices u, .reset ∉ visit.events) ∧ t.length = u.length) :
    (∀ visit ∈ visits.go descriptors devices u, visit.Confined) ∧
        Section.Tile s.bytes visit.entered.stop
          ((visits.go descriptors devices u).map (·.entered))
      ↔
    (∀ visit ∈ visits.go descriptors devices u, .reset ∉ visit.events) ∧ t.length = s.length := by
  have hcursor := hvisits.cursor hconfined
  have hlength := hvisits.length hconfined
  have hstop := hvisits.stop_le
  -- The device has left the bytes behind its section alone, or has cut them off. Then there are no
  -- later visits.
  rcases hvisits.behind hconfined with hbehind | hcut
  · have hsame : u.length = s.length := by
      have := congrArg List.length hbehind
      simp only [List.length_drop] at this
      simp only [Stream.length] at *
      omega
    rw [hcursor] at ih
    rw [Section.tile_congr hsame hbehind] at ih
    rw [ih, hsame]
  · obtain ⟨hnil, rfl⟩ := visits_eq_nil h (by omega)
    have htile : s.bytes.length ≤ visit.entered.stop ↔ t.length = s.length := by
      simp only [Stream.length] at *
      omega
    simpa [hnil, Section.Tile] using htile

theorem confined_and_tile_iff (h : restoreEach descriptors devices s = (.ok (), devices', t))
    (hidle : s.entered = none) (hremaining : t.remaining = 0) :
    (∀ visit ∈ visits.go descriptors devices s, visit.Confined) ∧
        Section.Tile s.bytes s.cursor ((visits.go descriptors devices s).map (·.entered))
      ↔
    (∀ visit ∈ visits.go descriptors devices s, .reset ∉ visit.events) ∧ t.length = s.length := by
  induction descriptors generalizing devices s with
  | nil =>
    simp only [restoreEach, forEach.go, Prod.mk.injEq] at h
    obtain ⟨-, -, rfl⟩ := h
    simp only [Stream.remaining, Stream.readEnd, hidle] at hremaining
    have hread : s.bytes.length ≤ s.cursor := Nat.le_of_sub_eq_zero hremaining
    simp [visits.go, Section.Tile, hread]
  | cons descriptor descriptors ih =>
    obtain ⟨devices₁, u, hone, hrest⟩ := restoreEach_cons_eq_ok_iff.mp h
    rw [visits.go_cons hone]
    rcases restoreOne_cases hone with ⟨-, hread, hvisit, rfl⟩ | ⟨visit, hvisit, hvisits⟩
    · rw [hvisit]
      exact ih hrest hidle
    · simp only [hvisit, Option.toList_some, List.singleton_append, List.forall_mem_cons,
        List.map_cons, Section.Tile]
      rw [and_assoc, and_assoc, ← hvisits.confined_iff]
      apply and_congr_right
      intro hconfined
      rw [← tile_behind_iff hvisits hconfined hrest (ih hrest hvisits.idle)]
      have := hvisits.start
      have := hvisits.start_le
      have := hvisits.stop_le
      have := hvisits.header
      rw [← hvisits.device] at this
      simp_all [Stream.length]

/--
Devices keep to their own sections, and these make up the whole of what was left of the blob, exactly
when no device resets the cursor and the blob keeps its length.
-/
theorem restore_confined_iff {registry : Registry ι} {bytes : Bytes} {cursor capacity : Nat}
    (h : registry.restore devices { bytes, cursor, capacity } = (.ok (), devices', t)) :
    (registry.visits devices { bytes, cursor, capacity }).map (·.entered.device)
      =
    registry.ids.take (registry.visits devices { bytes, cursor, capacity }).length ∧
      ((∀ visit ∈ registry.visits devices { bytes, cursor, capacity }, visit.Confined) ∧
          Section.Tile bytes cursor
            ((registry.visits devices { bytes, cursor, capacity }).map (·.entered))
        ↔
      (∀ visit ∈ registry.visits devices { bytes, cursor, capacity }, .reset ∉ visit.events) ∧
        t.length = bytes.length) := by
  obtain ⟨heach, hremaining⟩ := restore_eq_ok_iff.mp h
  exact ⟨map_device_visits heach rfl, confined_and_tile_iff heach rfl hremaining⟩

/-! A device that rewinds the blob, when its state is one, and reads past the other device's section. -/

def rewinding : Machine Bool where
  State _ := UInt8
  model _ :=
    { save := fun state => .putU8 state
      restore := fun state =>
        if state = 1 then
          .reset (.take 22 fun _ => .done ())
        else do
          let value ← .getU8
          .assign value (.done ()) }

def rewindingRegistry : Registry Bool where
  descriptors :=
    [ ⟨.singleton ⟨65, 0, 0, 0⟩, false, .startup⟩,
      ⟨.singleton ⟨66, 0, 0, 0⟩, true,
        .custom (.ofBytes (Section.frame (.singleton ⟨66, 0, 0, 0⟩) [0]))⟩ ]
  isInitialized := true

def rewindingBlob : Bytes :=
  Section.frame (.singleton ⟨65, 0, 0, 0⟩) [7] ++ Section.frame (.singleton ⟨66, 0, 0, 0⟩) [8]

def rewindingDevices (state : UInt8) : Devices rewinding where
  state _ := state

theorem restore_confined_iff_rewinding :
    (rewindingRegistry.restore (rewindingDevices 0) (.ofBytes rewindingBlob)).1 = .ok () ∧
      (∀ visit ∈ rewindingRegistry.visits (rewindingDevices 0) (.ofBytes rewindingBlob),
        visit.Confined) ∧
      (rewindingRegistry.restore (rewindingDevices 1) (.ofBytes rewindingBlob)).1 = .ok () ∧
      ¬((∀ visit ∈ rewindingRegistry.visits (rewindingDevices 1) (.ofBytes rewindingBlob),
          visit.Confined) ∧
        Section.Tile rewindingBlob 0
          ((rewindingRegistry.visits (rewindingDevices 1) (.ofBytes rewindingBlob)).map
            (·.entered))) := by
  have hsteady : (rewindingRegistry.restore (rewindingDevices 0) (.ofBytes rewindingBlob)).1
      = .ok () := rfl
  have hrewound : (rewindingRegistry.restore (rewindingDevices 1) (.ofBytes rewindingBlob)).1
      = .ok () := rfl
  refine ⟨hsteady, ?_, hrewound, ?_⟩
  · exact ((restore_confined_iff (Prod.ext hsteady rfl)).2.mpr (by decide +kernel)).1
  · intro h
    exact absurd ((restore_confined_iff (Prod.ext hrewound rfl)).2.mp h) (by decide +kernel)

end Registry

end MachineFork
