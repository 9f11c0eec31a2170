import Mathlib.Data.List.Infix
import MachineFork.Proofs.Engine.Histories
import MachineFork.Proofs.Engine.HostLedgers

/-!
This module contains walks: runs of an engine in which every read is taken apart into its beginning,
the calls in its middle and its end. All states that an engine is ever in are on the way of a walk,
and so a walk tells what has been the case at some time.
-/

namespace MachineFork

variable {ι : Type} {M : Machine ι}

namespace Engine

variable {e : Engine ι} {devices : Devices M}

/-! No call changes the configuration. -/

theorem config_settle (e : Engine ι) : e.settle.config = e.config := by
  unfold settle
  split <;> rfl

theorem config_deactivate (e : Engine ι) (id : SnapshotId) :
    (e.deactivate id).config = e.config := by
  unfold deactivate
  split <;> rfl

theorem config_addSnapshot (e : Engine ι) (blob : Stream) (node : NodeId) :
    (e.addSnapshot blob node).2.config = e.config :=
  rfl

theorem config_attach (e : Engine ι) (name : String) (image : BaseImage) :
    (e.attach name image).2.config = e.config := by
  rw [← e.config_settle]
  unfold attach
  dsimp only
  split <;> rfl

theorem config_detach (e : Engine ι) (disk : DiskHandle) :
    (e.detach disk).2.config = e.config := by
  rw [← e.config_settle]
  unfold detach
  dsimp only
  split <;> rfl

theorem config_withNode (e : Engine ι) (id : SnapshotId)
    (write : Lineage → NodeId → Except DiskError Unit × Lineage) :
    (e.withNode id write).2.config = e.config := by
  unfold withNode
  split
  · rfl
  · split
    · rfl
    · exact e.config_settle

theorem config_addRoot (e : Engine ι) : e.addRoot.2.config = e.config := by
  unfold addRoot
  split
  · rfl
  · split
    · rfl
    · split
      · rfl
      · rw [← e.config_settle]
        dsimp only
        split <;> rfl

theorem config_save (e : Engine ι) (devices : Devices M) (id : SnapshotId) :
    (e.save devices id).2.config = e.config := by
  cases hs : e.snapshot? id with
  | none => simp [save, hs]
  | some s =>
    rcases save_cases devices hs with
      ⟨-, error, hsave, -⟩ | ⟨-, ⟨failure, blob, -, hsave⟩ | ⟨blob, -, hsave⟩⟩
    · rw [hsave]
    · rw [hsave]
      rfl
    · rw [hsave]
      rfl

theorem config_restore [DecidableEq ι] (e : Engine ι) (devices : Devices M) (id : SnapshotId) :
    (e.restore devices id).2.1.config = e.config := by
  cases hs : e.snapshot? id with
  | none => simp [restore, hs]
  | some s =>
    rcases restore_cases devices hs with
      ⟨-, hrestore⟩ | ⟨-, ⟨-, hrestore⟩ | ⟨_, _, _, hrestore⟩ | ⟨_, _, hrestore⟩⟩
    · rw [hrestore]
    · rw [hrestore]
    · rw [hrestore]
      rfl
    · rw [hrestore]
      rfl

theorem config_fork (e : Engine ι) (id : SnapshotId) : (e.fork id).2.config = e.config := by
  unfold fork
  split
  · rfl
  · split
    · rfl
    · rw [← e.config_settle]
      split
      · rfl
      · dsimp only
        split
        · rfl
        · rw [config_addSnapshot, config_addSnapshot, config_deactivate]
          rfl

theorem config_destroy (e : Engine ι) (id : SnapshotId) :
    (e.destroy id).2.config = e.config := by
  cases hs : e.snapshot? id with
  | none => simp [destroy, hs]
  | some s =>
    obtain ⟨active, hdestroy⟩ := destroy_eq_settle hs
    rw [hdestroy, config_settle]

end Engine

namespace Host

inductive Step (M : Machine ι) where
  | perform (call : Call M) (hread : ¬call.IsRead)
  | enter (id : SnapshotId)
  | leave

variable [DecidableEq ι]

def step (h : Host M) : Step M → Host M
  | .perform call _ => (h.perform call).2
  | .enter id => if (h.engine.snapshot? id).isSome then h.enter id else h
  | .leave => if h.reading.isEmpty then h else h.leave

def walk (h : Host M) (steps : List (Step M)) : Host M :=
  steps.foldl step h

def stepBirths (h : Host M) : Step M → List Birth
  | .perform call _ => h.births call
  | _ => []

def Happened (start : Host M) (steps : List (Step M)) (P : Host M → Step M → Prop) : Prop :=
  ∃ before step, before ++ [step] <+: steps ∧ P (start.walk before) step

def WasActive (start : Host M) (steps : List (Step M)) (id : SnapshotId) : Prop :=
  ∃ before, before <+: steps ∧ (start.walk before).engine.active = some id

variable {h start : Host M} {steps more : List (Step M)} {last : Step M}
variable {P : Host M → Step M → Prop} {id : SnapshotId}

theorem walk_append (h : Host M) (steps more : List (Step M)) :
    h.walk (steps ++ more) = (h.walk steps).walk more :=
  List.foldl_append

theorem walk_concat (h : Host M) (steps : List (Step M)) (step : Step M) :
    h.walk (steps ++ [step]) = (h.walk steps).step step :=
  h.walk_append steps [step]

theorem happened_nil : ¬start.Happened [] P := by
  intro h
  obtain ⟨before, step, hbefore, -⟩ := h
  simp at hbefore

theorem happened_concat :
    start.Happened (steps ++ [last]) P ↔ start.Happened steps P ∨ P (start.walk steps) last := by
  constructor
  · intro h
    obtain ⟨before, step, hbefore, hstep⟩ := h
    rw [List.prefix_concat_iff] at hbefore
    cases hbefore with
    | inl hall =>
      obtain ⟨rfl, hlast⟩ := List.append_inj' hall rfl
      obtain rfl := List.singleton_inj.mp hlast
      exact .inr hstep
    | inr hearlier => exact .inl ⟨before, step, hearlier, hstep⟩
  · intro h
    cases h with
    | inl hearlier =>
      obtain ⟨before, step, hbefore, hstep⟩ := hearlier
      exact ⟨before, step, hbefore.trans (List.prefix_append _ _), hstep⟩
    | inr hstep => exact ⟨steps, last, List.prefix_refl _, hstep⟩

theorem wasActive_nil : start.WasActive [] id ↔ start.engine.active = some id := by
  unfold WasActive
  simp only [List.prefix_nil, exists_eq_left]
  rfl

theorem wasActive_concat :
    start.WasActive (steps ++ [last]) id ↔
      start.WasActive steps id ∨ ((start.walk steps).step last).engine.active = some id := by
  unfold WasActive
  simp only [List.prefix_concat_iff, or_and_right, exists_or, exists_eq_left, walk_concat]
  rw [or_comm]

theorem WasActive.append (h : start.WasActive steps id) (more : List (Step M)) :
    start.WasActive (steps ++ more) id := by
  obtain ⟨before, hbefore, hactive⟩ := h
  exact ⟨before, hbefore.trans (List.prefix_append _ _), hactive⟩

/-! All states are on a walk. -/

mutual

theorem exists_walk_perform (h : Host M) :
    ∀ call : Call M, ∃ steps, (h.perform call).2 = h.walk steps := by
  intro call
  by_cases hread : call.IsRead
  · cases call with
    | read id disk index buffer meanwhile answer =>
      unfold perform
      apply Engine.readInto_preserves
        (fun engine devices => ∃ steps, ⟨engine, devices, id :: h.reading⟩ = h.walk steps)
        (fun engine devices => ∃ steps, ⟨engine, devices, h.reading⟩ = h.walk steps)
      · exact fun _ => ⟨[], rfl⟩
      · intro hid
        have hentered : h.step (.enter id) = h.enter id := if_pos hid
        refine ⟨⟨[.enter id], hentered.symm⟩, fun old => ?_⟩
        obtain ⟨steps, hsteps⟩ := exists_walk_performAll (h.enter id) meanwhile
        refine ⟨.enter id :: steps, ?_⟩
        have hreading := reading_performAll (h.enter id) meanwhile
        rw [hsteps] at hreading
        change _ = (h.step (.enter id)).walk steps
        rw [hentered]
        change (⟨((h.enter id).performAll meanwhile).engine,
          ((h.enter id).performAll meanwhile).devices, id :: h.reading⟩ : Host M) = _
        rw [hsteps]
        generalize (h.enter id).walk steps = after at *
        obtain ⟨engine, devices, reading⟩ := after
        obtain rfl : reading = id :: h.reading := hreading
        rfl
      · rintro engine devices ⟨steps, hsteps⟩
        refine ⟨steps ++ [.leave], ?_⟩
        rw [walk_concat, ← hsteps]
        rfl
    | _ => exact absurd hread id
  · exact ⟨[.perform call hread], rfl⟩

theorem exists_walk_performAll (h : Host M) :
    ∀ calls : List (Call M), ∃ steps, h.performAll calls = h.walk steps
  | [] => ⟨[], rfl⟩
  | call :: calls => by
    obtain ⟨first, hfirst⟩ := exists_walk_perform h call
    obtain ⟨rest, hrest⟩ := exists_walk_performAll (h.perform call).2 calls
    refine ⟨first ++ rest, ?_⟩
    rw [performAll, hrest, hfirst, walk_append]

end

/-! What a step keeps. -/

omit [DecidableEq ι] in
theorem Sound.leave (hsound : h.Sound) (hreading : h.reading ≠ []) : h.leave.Sound := by
  obtain ⟨engine, devices, reading⟩ := h
  cases reading with
  | nil => contradiction
  | cons id reading => exact Engine.Owns.leave hsound

theorem Sound.step (hsound : h.Sound) (step : Step M) : (h.step step).Sound := by
  cases step with
  | perform call hread => exact hsound.perform call
  | enter id =>
    rw [Host.step]
    split
    · next hid => exact hsound.enter hid
    · exact hsound
  | leave =>
    rw [Host.step]
    split
    · exact hsound
    · next hreading =>
      apply hsound.leave
      simpa using hreading

theorem Sound.walk (hsound : h.Sound) (steps : List (Step M)) : (h.walk steps).Sound := by
  induction steps generalizing h with
  | nil => exact hsound
  | cons step steps ih => exact ih (hsound.step step)

omit [DecidableEq ι] in
theorem config_useAlone {α : Type} {done : Except EngineError α × Engine ι}
    (hdone : done.2.config = h.engine.config) :
    (h.useAlone done).2.engine.config = h.engine.config := by
  rw [snd_useAlone]
  split
  · exact hdone
  · rfl

theorem config_step (h : Host M) (step : Step M) :
    (h.step step).engine.config = h.engine.config := by
  have hsettle := h.engine.config_settle
  cases step with
  | enter id =>
    rw [Host.step]
    split
    · exact hsettle
    · rfl
  | leave =>
    rw [Host.step]
    split <;> rfl
  | perform call hread =>
    cases call with
    | change | startUp | register => rfl
    | attach name image => exact config_useAlone (h.engine.config_attach name image)
    | detach disk => exact config_useAlone (h.engine.config_detach disk)
    | addRoot => exact config_useAlone h.engine.config_addRoot
    | save id => exact h.engine.config_save h.devices id
    | restore id => exact h.engine.config_restore h.devices id
    | fork id => exact config_useAlone (h.engine.config_fork id)
    | destroy id =>
      rw [Host.step]
      unfold Host.perform
      split
      · rfl
      · exact h.engine.config_destroy id
    | write id | writeRun id => exact config_useAlone (h.engine.config_withNode id _)
    | read => exact absurd trivial hread
    | sectorCount | depth | readThrough | readRunThrough | canTransfer | stats => exact hsettle

theorem config_walk (h : Host M) (steps : List (Step M)) :
    (h.walk steps).engine.config = h.engine.config := by
  induction steps generalizing h with
  | nil => rfl
  | cons step steps ih => exact (ih (h.step step)).trans (h.config_step step)

theorem config_perform (h : Host M) (call : Call M) :
    (h.perform call).2.engine.config = h.engine.config := by
  obtain ⟨steps, hsteps⟩ := h.exists_walk_perform call
  rw [hsteps, config_walk]

end Host

end MachineFork
