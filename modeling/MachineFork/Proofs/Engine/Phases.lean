import MachineFork.Proofs.Engine.Lifecycles

/-!
This module contains the phases that snapshots report. Every step of a walk is a turn of the engine's
lifecycle, so that a phase tells what has happened to a snapshot before. There is one exception: a
root that has never been restored passes for a snapshot that has never been active, as soon as its
first restore fails.
-/

namespace MachineFork

variable {ι : Type} {M : Machine ι}

theorem Snapshot.stage_noteSave (s : Snapshot) (config : Config) :
    (s.noteSave config).stage = s.stage := by
  unfold noteSave Snapshot.stage
  dsimp only
  split <;> split <;> rfl

/-! The calls of an engine. -/

namespace Engine

variable {e e' : Engine ι} {id : SnapshotId} {s t : Snapshot}
variable {reading : List SnapshotId}

def lifecycle (e : Engine ι) : Lifecycle where
  stage? id := (e.snapshot? id).map (·.stage)
  active := e.active
  nextId := e.nextId
  rootCreated := e.rootCreated

theorem stage?_lifecycle (hs : e.snapshot? id = some s) : e.lifecycle.stage? id = some s.stage :=
  congrArg (Option.map Snapshot.stage) hs

theorem lifecycle_settle (e : Engine ι) : e.settle.lifecycle = e.lifecycle := by
  unfold settle
  split <;> rfl

theorem lifecycle_attach (e : Engine ι) (name : String) (image : BaseImage) :
    (e.attach name image).2.lifecycle = e.lifecycle := by
  rw [← e.lifecycle_settle]
  unfold attach
  dsimp only
  split <;> rfl

theorem lifecycle_detach (e : Engine ι) (disk : DiskHandle) :
    (e.detach disk).2.lifecycle = e.lifecycle := by
  rw [← e.lifecycle_settle]
  unfold detach
  dsimp only
  split <;> rfl

theorem lifecycle_withNode (e : Engine ι) (id : SnapshotId)
    (write : Lineage → NodeId → Except DiskError Unit × Lineage) :
    (e.withNode id write).2.lifecycle = e.lifecycle := by
  unfold withNode
  split
  · rfl
  · split
    · rfl
    · exact e.lifecycle_settle

theorem stage?_setSnapshot (e : Engine ι) (t : Snapshot) (id : SnapshotId) :
    (e.setSnapshot t).lifecycle.stage? id
      =
    if id = t.id then some t.stage else e.lifecycle.stage? id := by
  dsimp only [lifecycle]
  rw [snapshot?_setSnapshot]
  by_cases hid : id = t.id
  · rw [if_pos hid.symm, if_pos hid]
    rfl
  · rw [if_neg (Ne.symm hid), if_neg hid]

theorem lifecycle_replace (hs : e.snapshot? t.id = some s) (hstage : t.stage = s.stage) :
    (e.setSnapshot t).lifecycle = e.lifecycle := by
  have hstages : (e.setSnapshot t).lifecycle.stage? = e.lifecycle.stage? := by
    funext id
    rw [stage?_setSnapshot]
    split
    · next heq => rw [heq, stage?_lifecycle hs, hstage]
    · rfl
  unfold lifecycle at *
  rw [Lifecycle.mk.injEq]
  exact ⟨hstages, rfl, rfl, rfl⟩

theorem lifecycle_save (h : e.Keeps reading) (devices : Devices M) (id : SnapshotId) :
    (e.save devices id).2.lifecycle = e.lifecycle := by
  cases hs : e.snapshot? id with
  | none => simp [save, hs]
  | some s =>
    have hkey : e.snapshot? s.id = some s := by rw [(h.keyed id s hs).1, hs]
    rcases save_cases devices hs with
      ⟨-, error, hsave, -⟩ | ⟨-, ⟨failure, blob, -, hsave⟩ | ⟨blob, -, hsave⟩⟩
    · rw [hsave]
    · rw [hsave]
      exact lifecycle_replace (t := { s with blob }) hkey rfl
    · rw [hsave]
      apply lifecycle_replace (s := s)
      · rw [Snapshot.id_noteSave]
        exact hkey
      · exact Snapshot.stage_noteSave _ _

theorem active_deactivate (e : Engine ι) (id : SnapshotId) :
    (e.deactivate id).active = e.lifecycle.activeBut id := by
  unfold deactivate
  split
  · next hactive => exact (if_pos hactive).symm
  · next hactive => exact (if_neg hactive).symm

theorem turn_destroy (e : Engine ι) (id : SnapshotId) :
    e.lifecycle.Turn [] none (e.destroy id).2.lifecycle := by
  have hdestroy : { e.deactivate id with snapshots := e.snapshots.erase id }.lifecycle
      = e.lifecycle.destroy id := by
    obtain ⟨active, heq⟩ := e.deactivate_eq id
    have hactive := e.active_deactivate id
    rw [heq] at hactive ⊢
    apply Lifecycle.ext
    · funext other
      dsimp only [lifecycle, Lifecycle.destroy, snapshot?]
      rw [Table.find?_erase]
      by_cases hother : other = id
      · rw [if_pos hother.symm, if_pos hother, Option.map_none]
      · rw [if_neg (Ne.symm hother), if_neg hother]
    · exact hactive
    · rfl
    · rfl
  unfold destroy
  split
  · exact .stay
  · dsimp only
    split
    · have hsettle := lifecycle_settle { e.deactivate id with snapshots := e.snapshots.erase id }
      rw [hdestroy] at hsettle
      have hturn := Lifecycle.Turn.destroyed (c := e.lifecycle) id
      rw [← hsettle] at hturn
      exact hturn
    · have hturn := Lifecycle.Turn.destroyed (c := e.lifecycle) id
      rw [← hdestroy] at hturn
      exact hturn

theorem turn_restore [DecidableEq ι] (h : e.Keeps reading) (devices : Devices M)
    (id : SnapshotId) :
    ∃ lost, e.lifecycle.Turn [] lost (e.restore devices id).2.1.lifecycle ∧
      ∀ other, lost = some other → other = id ∧ ∃ error, (e.restore devices id).1 = .error error := by
  cases hs : e.snapshot? id with
  | none =>
    refine ⟨none, ?_, by simp⟩
    rw [restore, hs]
    exact .stay
  | some s =>
    have hkey := (h.keyed id s hs).1
    have hself : e.snapshot? s.id = some s := by rw [hkey, hs]
    have hstage := stage?_lifecycle hs
    rcases restore_cases devices hs with
      ⟨-, hrestore⟩ | ⟨hopen, ⟨-, hrestore⟩ | ⟨failure, blob, _, hrestore⟩ | ⟨blob, _, hrestore⟩⟩
    · rw [hrestore]
      exact ⟨none, .stay, by simp⟩
    · rw [hrestore]
      exact ⟨none, .stay, by simp⟩
    · rw [hrestore]
      have hsame : (e.setSnapshot { s with blob }).lifecycle = e.lifecycle :=
        lifecycle_replace (t := { s with blob }) hself rfl
      refine ⟨some id, ?_, ?_⟩
      · have hturn := Lifecycle.Turn.failed hstage hopen
        rw [← hsame] at hturn ⊢
        exact hturn
      · intro other heq
        exact ⟨(Option.some.inj heq).symm, _, rfl⟩
    · rw [hrestore]
      have hrestored : { e.setSnapshot { s with blob, restored := true } with
          active := some id }.lifecycle = e.lifecycle.restore id s.stage := by
        apply Lifecycle.ext
        · funext other
          exact (stage?_setSnapshot e _ other).trans (by rw [hkey]; rfl)
        · rfl
        · rfl
        · rfl
      refine ⟨none, ?_, by simp⟩
      rw [hrestored]
      exact .restored hstage hopen

theorem lifecycle_addSnapshot (e : Engine ι) (blob : Stream) (node : NodeId) :
    (e.addSnapshot blob node).2.lifecycle
      =
    { e.lifecycle with
      stage? := fun id => if id = ⟨e.nextId⟩ then some {} else e.lifecycle.stage? id
      nextId := e.nextId + 1 } := by
  apply Lifecycle.ext
  · funext id
    exact stage?_setSnapshot e (e.addSnapshot blob node).1 id
  · rfl
  · rfl
  · rfl

theorem turn_addRoot (e : Engine ι) :
    e.lifecycle.Turn (Birth.ofRoot e.addRoot.1) none e.addRoot.2.lifecycle := by
  unfold addRoot
  split
  · exact .stay
  · split
    · exact .stay
    · next hroot =>
      split
      · exact .stay
      · next blob _ =>
        rw [← e.lifecycle_settle]
        dsimp only
        split
        · exact .stay
        · next node lineage _ =>
          have hadded : { ({ e.settle with lineage, rootCreated := true }.addSnapshot blob node).2 with
              active := some ⟨e.settle.nextId⟩ }.lifecycle = e.settle.lifecycle.addRoot := by
            apply Lifecycle.ext
            · funext id
              exact stage?_setSnapshot { e.settle with lineage, rootCreated := true } _ id
            · rfl
            · rfl
            · rfl
          have hfirst : e.settle.lifecycle.rootCreated = false := by
            rw [lifecycle_settle]
            exact Bool.eq_false_of_not_eq_true hroot
          have hturn := Lifecycle.Turn.root hfirst
          rw [← hadded] at hturn
          exact hturn

theorem lifecycle_freeze (hid : s.id = id) :
    ((e.setSnapshot { s with frozen := true }).deactivate id).lifecycle
      =
    { e.lifecycle with
      stage? := fun other => if other = id then some { s.stage with frozen := true }
        else e.lifecycle.stage? other
      active := e.lifecycle.activeBut id } := by
  rw [deactivate_setSnapshot]
  have hactive := e.active_deactivate id
  obtain ⟨active, heq⟩ := e.deactivate_eq id
  rw [heq] at hactive ⊢
  apply Lifecycle.ext
  · funext other
    exact (stage?_setSnapshot { e with active } _ other).trans (by rw [hid]; rfl)
  · exact hactive
  · rfl
  · rfl

theorem turn_fork (h : e.Keeps reading) (id : SnapshotId) :
    e.lifecycle.Turn (Birth.ofFork id (e.fork id).1) none (e.fork id).2.lifecycle := by
  unfold fork
  cases hs : e.snapshot? id with
  | none => exact .stay
  | some s =>
    have hkey := (h.keyed id s hs).1
    have hstage := stage?_lifecycle hs
    rw [← e.lifecycle_settle] at hstage ⊢
    dsimp only
    split
    · rw [lifecycle_settle]
      exact .stay
    · next hopen =>
      split
      · exact .stay
      · split
        · exact .stay
        · next left right lineage _ =>
          have hunfrozen : s.stage.frozen = false := Bool.eq_false_of_not_eq_true hopen
          have hfrozen := lifecycle_freeze (e := { e.settle with lineage }) hkey
          have hforked := Lifecycle.Turn.forked hstage hunfrozen
          generalize ({ e.settle with lineage }.setSnapshot { s with frozen := true }).deactivate id
            = e₁ at hfrozen ⊢
          have hnextId : e₁.nextId = e.settle.nextId := congrArg Lifecycle.nextId hfrozen
          have hchildren : ((e₁.addSnapshot s.blob.clone left).2.addSnapshot s.blob.clone
              right).2.lifecycle = e.settle.lifecycle.fork id s.stage := by
            rw [lifecycle_addSnapshot, lifecycle_addSnapshot, hfrozen]
            apply Lifecycle.ext
            · funext other
              have hnext : (e₁.addSnapshot s.blob.clone left).2.nextId = e.settle.nextId + 1 :=
                congrArg (· + 1) hnextId
              dsimp only [Lifecycle.fork]
              rw [hnext, hnextId, ite_or]
              rfl
            · rfl
            · exact congrArg (· + 2) hnextId
            · rfl
          rw [hchildren]
          dsimp only [Birth.ofFork, addSnapshot]
          rw [hnextId]
          exact hforked

end Engine

/-! The steps of a walk. -/

namespace Host

variable {h start : Host M} {id : SnapshotId} {born : List Birth} {p : Phase}

theorem turn_useAlone {α : Type} {done : Except EngineError α × Engine ι}
    (hdone : h.engine.lifecycle.Turn born none done.2.lifecycle) :
    h.engine.lifecycle.Turn (if h.engine.readers = 0 then born else []) none
      (h.useAlone done).2.engine.lifecycle := by
  rw [snd_useAlone]
  split
  · exact hdone
  · exact .stay

theorem lifecycle_useAlone {α : Type} {done : Except EngineError α × Engine ι}
    (hdone : done.2.lifecycle = h.engine.lifecycle) :
    (h.useAlone done).2.engine.lifecycle = h.engine.lifecycle := by
  rw [snd_useAlone]
  split
  · exact hdone
  · rfl

variable [DecidableEq ι]

def MakesChild (id : SnapshotId) (h : Host M) (step : Step M) : Prop :=
  ∃ parent, ⟨id, some parent⟩ ∈ h.stepBirths step

def FailsRestore (id : SnapshotId) (h : Host M) : Step M → Prop
  | .perform (.restore other) _ =>
    other = id ∧ ∃ error, (h.perform (.restore other)).1 = .error error
  | _ => False

theorem Sound.turn (hsound : h.Sound) (step : Step M) :
    ∃ lost, h.engine.lifecycle.Turn (h.stepBirths step) lost (h.step step).engine.lifecycle ∧
      ∀ id, lost = some id → FailsRestore id h step := by
  have hstay {e : Engine ι} (hsame : e.lifecycle = h.engine.lifecycle) :
      ∃ lost, h.engine.lifecycle.Turn [] lost e.lifecycle ∧
        ∀ id, lost = some id → FailsRestore id h step := by
    rw [hsame]
    exact ⟨none, .stay, by simp⟩
  have hsettle := h.engine.lifecycle_settle
  cases step with
  | enter id =>
    rw [Host.step]
    split
    · exact hstay hsettle
    · exact hstay rfl
  | leave =>
    rw [Host.step]
    split
    · exact hstay rfl
    · exact hstay rfl
  | perform call hread =>
    cases call with
    | change devices => exact hstay rfl
    | startUp body => exact hstay rfl
    | register id i => exact hstay rfl
    | attach name image => exact hstay (lifecycle_useAlone (h.engine.lifecycle_attach name image))
    | detach disk => exact hstay (lifecycle_useAlone (h.engine.lifecycle_detach disk))
    | addRoot => exact ⟨none, turn_useAlone h.engine.turn_addRoot, by simp⟩
    | save id => exact hstay (Engine.lifecycle_save hsound.toKeeps h.devices id)
    | restore id =>
      obtain ⟨lost, hturn, hlost⟩ := Engine.turn_restore hsound.toKeeps h.devices id
      refine ⟨lost, hturn, fun other hother => ?_⟩
      obtain ⟨rfl, hfailed⟩ := hlost other hother
      exact ⟨rfl, hfailed⟩
    | fork id => exact ⟨none, turn_useAlone (Engine.turn_fork hsound.toKeeps id), by simp⟩
    | destroy id =>
      rw [Host.step]
      unfold Host.perform
      split
      · exact hstay rfl
      · exact ⟨none, h.engine.turn_destroy id, by simp⟩
    | write id | writeRun id => exact hstay (lifecycle_useAlone (h.engine.lifecycle_withNode id _))
    | read => exact absurd trivial hread
    | sectorCount | depth | readThrough | readRunThrough | canTransfer | stats =>
      exact hstay hsettle

theorem tells_walk {config : Config} {engine : Engine ι}
    (hnew : Engine.new config = .ok engine) (devices : Devices M) (steps : List (Step M)) :
    (walk { engine, devices } steps).engine.lifecycle.Tells
      (fun id => Happened { engine, devices } steps (MakesChild id))
      (WasActive { engine, devices } steps)
      (fun id => Happened { engine, devices } steps (FailsRestore id)) := by
  obtain rfl := Engine.eq_of_new hnew
  have hstart : Host.Sound (M := M) { engine := { config }, devices } := .empty _
  induction steps using List.reverseRecOn with
  | nil =>
    have hnever : WasActive ({ engine := { config }, devices } : Host M) [] = fun _ => False := by
      funext id
      rw [wasActive_nil]
      simp
    simp only [happened_nil, hnever]
    exact .start
  | append_singleton steps step ih =>
    obtain ⟨lost, hturn, hlost⟩ := (hstart.walk steps).turn step
    have hfailures (id : SnapshotId) :
        Happened { engine := { config }, devices } steps (FailsRestore id) ∨ lost = some id →
          Happened { engine := { config }, devices } (steps ++ [step]) (FailsRestore id) := by
      rw [happened_concat]
      exact Or.imp_right (hlost id)
    have hwas : WasActive ({ engine := { config }, devices } : Host M) (steps ++ [step]) = fun id =>
        WasActive { engine := { config }, devices } steps id ∨
          ((walk { engine := { config }, devices } steps).step step).engine.active = some id := by
      funext id
      rw [wasActive_concat]
    have htells := (ih.turn hturn).mono hfailures
    rw [walk_concat, hwas]
    simp only [happened_concat] at htells ⊢
    exact htells

omit [DecidableEq ι] in
def phase? (h : Host M) (id : SnapshotId) : Option Phase :=
  (h.engine.snapshot? id).map (·.phase h.engine.active)

omit [DecidableEq ι] in
def Lapsed (h : Host M) (id : SnapshotId) : Prop :=
  id.number = 0 ∧ h.engine.active = none ∧
    ∃ s, h.engine.snapshot? id = some s ∧ s.frozen = false ∧ s.restored = false

omit [DecidableEq ι] in
theorem Sound.phase?_eq (hsound : h.Sound) (id : SnapshotId) :
    h.phase? id = h.engine.lifecycle.phase? id := by
  unfold phase? Lifecycle.phase? Engine.lifecycle
  dsimp only
  rw [Option.map_map]
  apply Option.map_congr
  intro s hs
  simp only [Snapshot.phase, (hsound.keyed id s hs).1]
  rfl

omit [DecidableEq ι] in
theorem lapsed_iff : h.Lapsed id ↔ h.engine.lifecycle.Lapsed id := by
  unfold Lapsed Lifecycle.Lapsed Engine.lifecycle
  simp only [Option.map_eq_some_iff]
  simp [Snapshot.stage]

theorem lapsed_of_restore_error {s : Snapshot} {error : EngineError} (hsound : h.Sound)
    (hs : h.engine.snapshot? ⟨0⟩ = some s) (hopen : s.frozen = false) (hnever : s.restored = false)
    (hfailed : (h.perform (.restore ⟨0⟩)).1 = .error error) :
    (h.perform (.restore ⟨0⟩)).2.Lapsed ⟨0⟩ := by
  have hresult : (h.engine.restore h.devices ⟨0⟩).1 = .error error := hfailed
  rcases Engine.restore_cases h.devices hs with
    ⟨hfrozen, -⟩ | ⟨-, ⟨-, hrestore⟩ | ⟨failure, blob, devices, hrestore⟩ | ⟨_, _, hrestore⟩⟩
  · rw [hopen] at hfrozen
    contradiction
  · rw [hrestore] at hresult
    contradiction
  · have hengine : (h.perform (.restore ⟨0⟩)).2.engine
        = { h.engine.setSnapshot { s with blob } with active := none } :=
      congrArg (·.2.1) hrestore
    refine ⟨rfl, ?_, { s with blob }, ?_, hopen, hnever⟩
    · rw [hengine]
    · rw [hengine]
      apply (Engine.snapshot?_setSnapshot h.engine { s with blob } ⟨0⟩).trans
      rw [if_pos (hsound.keyed ⟨0⟩ s hs).1]
  · rw [hrestore] at hresult
    contradiction

theorem Sound.frozen_stage (hsound : h.Sound) (hlt : id.number < h.engine.nextId)
    (more : List (Step M)) {next : Stage}
    (hnext : (h.walk more).engine.lifecycle.stage? id = some next) :
    ∃ stage, h.engine.lifecycle.stage? id = some stage ∧
      (stage.frozen = true → next.frozen = true) := by
  induction more generalizing h with
  | nil => exact ⟨next, hnext, fun h => h⟩
  | cons step more ih =>
    obtain ⟨lost, hturn, -⟩ := hsound.turn step
    obtain ⟨between, hbetween, hkept⟩ :=
      ih (hsound.step step) (Nat.lt_of_lt_of_le hlt hturn.nextId_le) hnext
    obtain ⟨stage, hstage, hkept'⟩ := hturn.frozen hlt hbetween
    exact ⟨stage, hstage, fun hfrozen => hkept (hkept' hfrozen)⟩

theorem Sound.frozen_walk (hsound : h.Sound) (hfrozen : h.phase? id = some .frozen)
    (more : List (Step M)) (hphase : (h.walk more).phase? id = some p) : p = .frozen := by
  rw [hsound.phase?_eq, Lifecycle.phase?_eq_frozen_iff] at hfrozen
  obtain ⟨stage, hstage, hfrozen⟩ := hfrozen
  have hlt : id.number < h.engine.nextId := by
    obtain ⟨s, hs, -⟩ := Option.map_eq_some_iff.mp hstage
    exact (hsound.keyed id s hs).2
  obtain ⟨next, hnext⟩ : ∃ next, (h.walk more).engine.lifecycle.stage? id = some next := by
    obtain ⟨s, hs, -⟩ := Option.map_eq_some_iff.mp hphase
    exact ⟨s.stage, Engine.stage?_lifecycle hs⟩
  obtain ⟨before, hbefore, hkept⟩ := hsound.frozen_stage hlt more hnext
  obtain rfl := Option.some.inj (hstage.symm.trans hbefore)
  have hphase' : (h.walk more).phase? id = some .frozen := by
    rw [(hsound.walk more).phase?_eq, Lifecycle.phase?_eq_frozen_iff]
    exact ⟨next, hnext, hkept hfrozen⟩
  exact Option.some.inj (hphase.symm.trans hphase')

/--
A snapshot that reports to be created is the child of a fork and has never been active, with the
exception of a lapsed root: the root is active from the start, but if its first restore fails, it
reports to be created afterwards. All other snapshots that have been active are active, suspended or
frozen at all later times, and a snapshot that is frozen stays so as long as it is there.
-/
theorem created_iff_of_walk {config : Config} {engine : Engine ι}
    (hnew : Engine.new config = .ok engine) (devices : Devices M) (steps : List (Step M)) :
    let start : Host M := { engine, devices }
    let h := start.walk steps
    (∀ id, (h.phase? id = some .created →
        start.Happened steps (MakesChild id) ∧ ¬start.WasActive steps id) ↔ ¬h.Lapsed id) ∧
    (∀ id, h.Lapsed id → h.phase? id = some .created ∧ start.WasActive steps id ∧
      ¬start.Happened steps (MakesChild id) ∧ start.Happened steps (FailsRestore id) ∧
      h.engine.nextId = 1) ∧
    (∀ s error, h.engine.snapshot? ⟨0⟩ = some s → s.frozen = false → s.restored = false →
      (h.perform (.restore ⟨0⟩)).1 = .error error → (h.perform (.restore ⟨0⟩)).2.Lapsed ⟨0⟩) ∧
    (∀ id, h.phase? id = some .active ↔ h.engine.active = some id) ∧
    (∀ id, start.WasActive steps id → ∀ more p, (h.walk more).phase? id = some p →
      p = .active ∨ p = .suspended ∨ p = .frozen ∨ (h.walk more).Lapsed id) ∧
    (∀ id, h.phase? id = some .frozen → ∀ more p, (h.walk more).phase? id = some p →
      p = .frozen) ∧
    ∀ call, ∃ more, (h.perform call).2 = h.walk more := by
  intro start h
  have hstart : start.Sound := (Reachable.start hnew devices).sound
  have hsound : h.Sound := hstart.walk steps
  have htells := tells_walk hnew devices steps
  refine ⟨?_, ?_, ?_, ?_, ?_, ?_, h.exists_walk_perform⟩
  · intro id
    rw [hsound.phase?_eq, lapsed_iff]
    exact htells.created_iff
  · intro id hlapsed
    rw [hsound.phase?_eq]
    exact htells.of_lapsed (lapsed_iff.mp hlapsed)
  · exact fun s error hs hopen hnever hfailed => lapsed_of_restore_error hsound hs hopen hnever hfailed
  · intro id
    rw [hsound.phase?_eq]
    exact htells.phase?_eq_active_iff
  · intro id hwas more p hphase
    have hlater := tells_walk hnew devices (steps ++ more)
    rw [walk_append] at hlater
    by_cases hlapsed : (h.walk more).Lapsed id
    · exact .inr (.inr (.inr hlapsed))
    · cases p with
      | active => exact .inl rfl
      | suspended => exact .inr (.inl rfl)
      | frozen => exact .inr (.inr (.inl rfl))
      | created =>
        rw [(hsound.walk more).phase?_eq] at hphase
        rw [lapsed_iff] at hlapsed
        exact absurd (hwas.append more) (hlater.created_iff.mpr hlapsed hphase).2
  · exact fun id hfrozen more p hphase => hsound.frozen_walk hfrozen more hphase

-- The root is saved, and then restored for the first time, while its device is borrowed.
def firstRestoreFails : List (Step counters) := [
  .perform (.startUp fun r => r.register zeroes.devices (.singleton ⟨65, 0, 0, 0⟩) false) (fun h => h),
  .perform .addRoot (fun h => h),
  .perform (.save ⟨0⟩) (fun h => h),
  .perform (.change { zeroes.devices with access := fun _ => .shared }) (fun h => h),
  .perform (.restore ⟨0⟩) (fun h => h)]

theorem created_iff_of_walk_firstRestoreFails :
    (zeroes.walk firstRestoreFails).Lapsed ⟨0⟩ ∧
      (zeroes.walk firstRestoreFails).phase? ⟨0⟩ = some .created ∧
      zeroes.WasActive firstRestoreFails ⟨0⟩ ∧
      ¬zeroes.Happened firstRestoreFails (MakesChild ⟨0⟩) ∧
      zeroes.Happened firstRestoreFails (FailsRestore ⟨0⟩) := by
  have hnew : Engine.new {} = .ok zeroes.engine := rfl
  obtain ⟨-, hlapse, -⟩ := created_iff_of_walk hnew zeroes.devices firstRestoreFails
  have hroot : ((zeroes.walk firstRestoreFails).engine.snapshot? ⟨0⟩).any
      (fun s => !s.frozen && !s.restored) = true := by decide +kernel
  obtain ⟨s, hs, hstage⟩ := (Option.any_eq_true _ _).mp hroot
  rw [Bool.and_eq_true, Bool.not_eq_true', Bool.not_eq_true'] at hstage
  have hlapsed : (zeroes.walk firstRestoreFails).Lapsed ⟨0⟩ :=
    ⟨rfl, by decide +kernel, s, hs, hstage⟩
  obtain ⟨hphase, hwas, hchild, hfailed, -⟩ := hlapse ⟨0⟩ hlapsed
  exact ⟨hlapsed, hphase, hwas, hchild, hfailed⟩

end Host

end MachineFork
