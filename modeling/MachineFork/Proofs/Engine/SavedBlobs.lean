import MachineFork.Proofs.Engine.Histories

/-!
This module contains what a save leaves in the blob of the active snapshot when the devices only put
bytes: the sections of the live devices, and nothing of what the blob held before, whether that was
longer or shorter, or the rest of a save that failed.
-/

namespace MachineFork

namespace Program

variable {σ α : Type} {p : Program σ α} {bytes : Bytes}

def written? : Program σ α → Option Bytes
  | done _ => some []
  | put bytes next => next.written?.map (bytes ++ ·)
  | assign _ next => next.written?
  | fail _ | take _ _ | reset _ | truncate _ | shrink _ _ | look _ => none

theorem putsOnly_of_written? (h : p.written? = some bytes) : p.PutsOnly := by
  induction p generalizing bytes with
  | done value => trivial
  | put first next ih =>
    rw [written?, Option.map_eq_some_iff] at h
    obtain ⟨rest, hrest, -⟩ := h
    exact ih hrest
  | assign state next ih => exact ih h
  | fail | take | reset | truncate | shrink | look => contradiction

theorem run_of_written? (h : p.written? = some bytes) (state : σ) {s : Stream}
    (hcursor : s.cursor ≤ s.length) :
    ∃ value state' t, p.run state s = (.ok value, state', t) ∧ s.Lays bytes t := by
  induction p generalizing bytes state s with
  | done value =>
    obtain rfl := Option.some.inj h
    exact ⟨value, state, s, rfl, .refl⟩
  | put first next ih =>
    rw [written?, Option.map_eq_some_iff] at h
    obtain ⟨rest, hrest, rfl⟩ := h
    have hput := Stream.Lays.put (s := s) first
    obtain ⟨value, state', t, hrun, hlays⟩ := ih hrest state (hput.cursor_le_length hcursor)
    exact ⟨value, state', t, hrun, hput.trans hlays hcursor⟩
  | assign assigned next ih => exact ih h assigned hcursor
  | fail | take | reset | truncate | shrink | look => contradiction

end Program

variable {ι : Type} {M : Machine ι}

theorem Devices.payload_of_written? {i : ι} {state : M.State i} {bytes : Bytes}
    (h : ((M.model i).save state).written? = some bytes) :
    payload M i state = (.ok (), bytes) := by
  obtain ⟨_, _, t, hrun, hlays⟩ := Program.run_of_written? h () (s := .empty) (Nat.le_refl _)
  unfold payload
  rw [hrun]
  dsimp only
  rw [hlays.bytes]
  exact congrArg (Prod.mk _) (Bytes.overwrite_end [] bytes)

structure Devices.Puts (devices : Devices M) (i : ι) (bytes : Bytes) : Prop where
  access : devices.access i ≠ .exclusive
  written : ((M.model i).save (devices.state i)).written? = some bytes
  length_lt : bytes.length < UInt32.size

theorem Registry.layout_of_puts {devices : Devices M} {descriptors : List (Descriptor ι)}
    {put : ι → Bytes} (hputs : ∀ descriptor ∈ descriptors,
      devices.Puts descriptor.device (put descriptor.device)) :
    layout devices descriptors = (.ok (), descriptors.flatMap fun descriptor =>
      Section.frame descriptor.id (put descriptor.device)) := by
  induction descriptors with
  | nil => rfl
  | cons descriptor rest ih =>
    rw [List.forall_mem_cons] at hputs
    obtain ⟨hfirst, hrest⟩ := hputs
    rw [layout_cons_eq_ok_iff]
    refine ⟨_, _, ?_, ih hrest, List.flatMap_cons⟩
    rw [Devices.layout_eq_ok_iff]
    exact ⟨hfirst.access, _, Devices.payload_of_written? hfirst.written, hfirst.length_lt, rfl⟩

namespace Engine

variable {e : Engine ι} {devices : Devices M} {id : SnapshotId} {s : Snapshot} {put : ι → Bytes}

theorem save_of_puts (hs : e.snapshot? id = some s) (hid : s.id = id) (hopen : s.frozen = false)
    (hactive : e.active = some id) (hputs : ∀ descriptor ∈ e.registry.descriptors,
      devices.Puts descriptor.device (put descriptor.device)) :
    (e.save devices id).1 = .ok () ∧
      ∃ t, (e.save devices id).2.snapshot? id = some t ∧
        t.blob.bytes = e.registry.descriptors.flatMap fun descriptor =>
          Section.frame descriptor.id (put descriptor.device) := by
  have honly : ∀ descriptor ∈ e.registry.descriptors,
      ((M.model descriptor.device).save (devices.state descriptor.device)).PutsOnly := by
    intro descriptor hmem
    exact Program.putsOnly_of_written? (hputs descriptor hmem).written
  have hlayout := Registry.layout_of_puts hputs
  rcases save_cases devices hs with
    ⟨hidle, -⟩ | ⟨-, ⟨failure, blob, hblob, -⟩ | ⟨blob, hblob, hsave⟩⟩
  · simp [hopen, hactive] at hidle
  · obtain ⟨t, hlays, -⟩ := Registry.saveEach_lays (s := s.blob.reset) honly (Nat.zero_le _)
    unfold Registry.save Registry.forEach at hblob
    rw [hblob, hlayout] at hlays
    simp at hlays
  · rw [Registry.layout_of_save honly rfl hblob, Prod.mk.injEq] at hlayout
    rw [hsave]
    refine ⟨rfl, Snapshot.noteSave { s with blob := blob.truncate } e.config, ?_, ?_⟩
    · rw [snapshot?_setSnapshot, Snapshot.id_noteSave]
      exact if_pos hid
    · rw [Snapshot.bytes_noteSave]
      exact hlayout.2

end Engine

namespace Host

variable [DecidableEq ι] {h : Host M}

theorem Reachable.mirrored (hreach : h.Reachable) : h.engine.Mirrored := by
  induction hreach with
  | start hnew devices =>
    obtain rfl := Engine.eq_of_new hnew
    intro id hid
    contradiction
  | perform hreach call ih => exact (hreach.sound.evolves call).mirrored ih
  | enter _ _ ih => exact (evolves_enter _ _).mirrored ih

/--
A save of the active snapshot replaces its blob by one section for each device, in the order in
which the devices were registered, as long as they only put bytes and nobody else is changing them.
Nothing depends on what the blob held before.
-/
theorem bytes_of_save (hreach : h.Reachable) {id : SnapshotId} (hactive : h.engine.active = some id)
    {put : ι → Bytes} (hputs : ∀ descriptor ∈ h.engine.registry.descriptors,
      h.devices.Puts descriptor.device (put descriptor.device)) :
    (h.perform (.save id)).1 = .ok () ∧
      ∃ s, (h.perform (.save id)).2.engine.snapshot? id = some s ∧
        s.blob.bytes = h.engine.registry.descriptors.flatMap fun descriptor =>
          descriptor.id.kind.toBytes ++ Bytes.littleEndian 2 descriptor.id.number.toNat
            ++ Bytes.littleEndian 4 (put descriptor.device).length ++ put descriptor.device := by
  obtain ⟨s, hs, hopen⟩ := hreach.mirrored id hactive
  obtain ⟨hkey, -⟩ := hreach.sound.keyed id s hs
  obtain ⟨hok, hbytes⟩ := Engine.save_of_puts hs hkey hopen hactive hputs
  refine ⟨?_, hbytes⟩
  unfold perform use
  rw [hok]
  rfl

/-! Two notes, which are saved, saved again while one of them is being changed, and cut short. -/

def notes : Machine Bool where
  State _ := Bytes
  model _ := { save := .putBytes, restore := fun _ => .done () }

def borrowedNotes : Devices notes where
  state i := if i then [] else [8, 8, 8, 8, 8]
  access i := if i then .exclusive else .free

def shortNotes : Devices notes where
  state i := if i then [2] else [1]

def scribbled : Host notes :=
  performAll { engine := { config := {} }, devices := { state := fun _ => [] } } [
    .startUp fun r => (.ok (), (r.insert (.singleton ⟨65, 0, 0, 0⟩) false .startup).insert
      (.singleton ⟨66, 0, 0, 0⟩) true .startup),
    .addRoot,
    .change { state := fun i => if i then [4, 5, 6, 7] else [1, 2, 3] },
    .save ⟨0⟩,
    .change borrowedNotes,
    .save ⟨0⟩,
    .change shortNotes]

theorem bytes_of_save_scribbled :
    (scribbled.engine.snapshot? ⟨0⟩).map (·.blob.length) = some 27 ∧
      (scribbled.perform (.save ⟨0⟩)).1 = .ok () ∧
      ∃ s, (scribbled.perform (.save ⟨0⟩)).2.engine.snapshot? ⟨0⟩ = some s ∧
        s.blob.bytes = [65, 0, 0, 0, 0, 0, 1, 0, 0, 0, 1, 66, 0, 0, 0, 0, 0, 1, 0, 0, 0, 2] := by
  have hnew : Engine.new {} = .ok ({ config := {} } : Engine Bool) := rfl
  have hreach : Reachable scribbled := (Reachable.start hnew _).performAll _
  have hactive : scribbled.engine.active = some ⟨0⟩ := by decide +kernel
  have hputs : ∀ descriptor ∈ scribbled.engine.registry.descriptors,
      scribbled.devices.Puts descriptor.device (shortNotes.state descriptor.device) := by
    intro descriptor _
    have hdevices : scribbled.devices = shortNotes := rfl
    rw [hdevices]
    refine ⟨by simp [shortNotes], ?_, ?_⟩
    · simp [notes, Program.putBytes, Program.written?]
    · cases descriptor.device <;> decide
  obtain ⟨hok, s, hs, hbytes⟩ := bytes_of_save hreach hactive hputs
  refine ⟨by decide +kernel, hok, s, hs, ?_⟩
  rw [hbytes]
  decide +kernel

end Host

end MachineFork
