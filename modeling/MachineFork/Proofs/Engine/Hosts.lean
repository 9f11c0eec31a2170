import MachineFork.Proofs.Engine.Failures
import MachineFork.Proofs.Registry.RoundTrip

/-!
This module contains programs that use an engine and its snapshots in any way. A read asks the
program for the sectors that nobody has written. While it answers, the program may make other calls,
and so snapshots may go away and other reads may come and go in the middle of a read.
-/

namespace MachineFork

variable {ι : Type}

structure Host (M : Machine ι) where
  engine : Engine ι
  devices : Devices M
  reading : List SnapshotId := []

namespace Host

variable {M : Machine ι}

inductive Call (M : Machine ι) where
  /-- The devices go on, or somebody borrows some of them. -/
  | change (devices : Devices M)
  | startUp (body : Registry ι → Except BlobError Unit × Registry ι)
  | register (id : DeviceId) (i : ι)
  | attach (name : String) (image : BaseImage)
  | detach (disk : DiskHandle)
  | sectorCount (disk : DiskHandle)
  | addRoot
  | save (id : SnapshotId)
  | restore (id : SnapshotId)
  | fork (id : SnapshotId)
  /-- A snapshot that is being read stays. -/
  | destroy (id : SnapshotId)
  | depth (id : SnapshotId)
  | write (id : SnapshotId) (disk : DiskHandle) (index : UInt64) (data : Bytes)
  | writeRun (id : SnapshotId) (disk : DiskHandle) (first : UInt64) (data : Bytes)
  /-- The fallback makes the calls `meanwhile` before it answers. -/
  | read (id : SnapshotId) (disk : DiskHandle) (index : UInt64) (buffer : Bytes)
    (meanwhile : List (Call M)) (answer : Except DiskError Unit × Sector)
  | readThrough (id : SnapshotId) (disk : DiskHandle) (index : UInt64)
  | readRunThrough (id : SnapshotId) (disk : DiskHandle) (first : UInt64) (buffer : Bytes)
  | canTransfer (id : SnapshotId) (disk : DiskHandle)
  | stats

def use {α : Type} (h : Host M) (done : Except EngineError α × Engine ι) :
    Except EngineError Unit × Host M :=
  (done.1.map fun _ => (), { h with engine := done.2 })

/--
A call that may change the lineage. During a read it can only be refused before it gets there. What
the lineage itself would have answered, be it an error, cannot be asked for then, and the call is
left out.
-/
def useAlone {α : Type} (h : Host M) (done : Except EngineError α × Engine ι) :
    Except EngineError Unit × Host M :=
  if h.engine.readers = 0 then
    h.use done
  else
    match done.1 with
    | .ok _ | .error (.disk _) => (.ok (), h)
    | .error refusal => (.error refusal, h)

variable [DecidableEq ι]

mutual

def perform (h : Host M) : Call M → Except EngineError Unit × Host M
  | .change devices => (.ok (), { h with devices })
  | .startUp body => h.use (h.engine.startUp body)
  | .register id i => h.use (h.engine.register h.devices id i)
  | .attach name image => h.useAlone (h.engine.attach name image)
  | .detach disk => h.useAlone (h.engine.detach disk)
  | .sectorCount disk => h.use (h.engine.sectorCount disk, h.engine.settle)
  | .addRoot => h.useAlone h.engine.addRoot
  | .save id => h.use (h.engine.save h.devices id)
  | .restore id =>
    let (result, engine, devices) := h.engine.restore h.devices id
    (result, { h with engine, devices })
  | .fork id => h.useAlone (h.engine.fork id)
  | .destroy id => if id ∈ h.reading then (.ok (), h) else h.use (h.engine.destroy id)
  | .depth id => h.use (h.engine.depth id, h.engine.settle)
  | .write id disk index data => h.useAlone (h.engine.write id disk index data)
  | .writeRun id disk first data => h.useAlone (h.engine.writeRun id disk first data)
  | .read id disk index buffer meanwhile answer =>
    let fallback : Fallback (Engine ι × Devices M) := fun _ _ _ (engine, devices) =>
      let during := performAll { engine, devices, reading := id :: h.reading } meanwhile
      (answer.1, answer.2, during.engine, during.devices)
    let (result, _, engine, devices) :=
      h.engine.readInto id disk index buffer fallback h.devices
    (result, { h with engine, devices })
  | .readThrough id disk index => h.use (h.engine.readThrough id disk index, h.engine.settle)
  | .readRunThrough id disk first buffer =>
    h.use ((h.engine.readRunThrough id disk first buffer).1, h.engine.settle)
  | .canTransfer id disk => h.use (h.engine.canTransfer id disk, h.engine.settle)
  | .stats => h.use (.ok h.engine.stats, h.engine.settle)

def performAll (h : Host M) : List (Call M) → Host M
  | [] => h
  | call :: calls => performAll (perform h call).2 calls

end

def enter (h : Host M) (id : SnapshotId) : Host M where
  engine := { h.engine.settle with readers := h.engine.settle.readers + 1 }
  devices := h.devices
  reading := id :: h.reading

inductive Reachable : Host M → Prop where
  | start {config : Config} {engine : Engine ι} (hnew : Engine.new config = .ok engine)
    (devices : Devices M) : Reachable { engine, devices }
  | perform {h : Host M} (hreach : Reachable h) (call : Call M) : Reachable (h.perform call).2
  | enter {h : Host M} {id : SnapshotId} (hreach : Reachable h)
    (hid : (h.engine.snapshot? id).isSome) : Reachable (h.enter id)

/-! What the calls keep. -/

def Sound (h : Host M) : Prop :=
  h.engine.Owns h.reading

omit [DecidableEq ι] in
theorem useAlone_of_readers {α : Type} {h : Host M} (hreaders : h.engine.readers ≠ 0)
    (done : Except EngineError α × Engine ι) : (h.useAlone done).2 = h := by
  unfold useAlone
  rw [if_neg hreaders]
  split <;> rfl

omit [DecidableEq ι] in
theorem snd_useAlone {α : Type} (h : Host M) (done : Except EngineError α × Engine ι) :
    (h.useAlone done).2
      =
    if h.engine.readers = 0 then { h with engine := done.2 } else h := by
  split
  · next hreaders =>
    unfold useAlone
    rw [if_pos hreaders]
    rfl
  · next hreaders => exact useAlone_of_readers hreaders done

omit [DecidableEq ι] in
theorem Sound.useAlone {α : Type} {h : Host M} {done : Except EngineError α × Engine ι}
    (hsound : h.Sound) (hdone : done.2.Owns h.reading) : (h.useAlone done).2.Sound := by
  rw [snd_useAlone]
  split
  · exact hdone
  · exact hsound

omit [DecidableEq ι] in
theorem reading_useAlone {α : Type} (h : Host M) (done : Except EngineError α × Engine ι) :
    (h.useAlone done).2.reading = h.reading := by
  rw [snd_useAlone]
  split <;> rfl

omit [DecidableEq ι] in
theorem Sound.enter {h : Host M} (hsound : h.Sound) {id : SnapshotId}
    (hid : (h.engine.snapshot? id).isSome) : (h.enter id).Sound := by
  apply Engine.Owns.enter (Engine.Owns.settle hsound)
  rwa [Engine.snapshot?_settle]

omit [DecidableEq ι] in
theorem Sound.readers_ne_zero {h : Host M} (hsound : h.Sound) (hreading : h.reading ≠ []) :
    h.engine.readers ≠ 0 := by
  rw [hsound.readers]
  exact List.length_pos_iff.mpr hreading |>.ne'

theorem reading_perform (h : Host M) (call : Call M) : (h.perform call).2.reading = h.reading := by
  cases call with
  | attach | detach | addRoot | fork | write | writeRun => apply reading_useAlone
  | destroy id =>
    unfold perform
    split <;> rfl
  | _ => rfl

theorem reading_performAll (h : Host M) (calls : List (Call M)) :
    (h.performAll calls).reading = h.reading := by
  induction calls generalizing h with
  | nil => rfl
  | cons call calls ih => exact (ih _).trans (reading_perform h call)

mutual

theorem Sound.perform {h : Host M} (hsound : h.Sound) :
    ∀ call : Call M, (h.perform call).2.Sound
  | .change _ => hsound
  | .startUp _ => hsound.setRegistry _
  | .register _ _ => hsound.setRegistry _
  | .attach name image => hsound.useAlone (Engine.Owns.attach hsound name image)
  | .detach disk => hsound.useAlone (Engine.Owns.detach hsound disk)
  | .sectorCount _ => hsound.settle
  | .addRoot => hsound.useAlone (Engine.Owns.addRoot hsound)
  | .save id => Engine.Owns.save hsound h.devices id
  | .restore id => Engine.Owns.restore hsound h.devices id
  | .fork id => hsound.useAlone (Engine.Owns.fork hsound id)
  | .destroy id => by
    unfold Host.perform
    split
    · exact hsound
    · next hid => exact Engine.Owns.destroy hsound hid
  | .depth _ => hsound.settle
  | .write id disk index data => hsound.useAlone (Engine.Owns.write hsound id disk index data)
  | .writeRun id disk first data => hsound.useAlone (Engine.Owns.writeRun hsound id disk first data)
  -- The calls in the middle of a read are smaller than the read, and made with one more reader.
  | .read id disk index buffer meanwhile answer => by
    unfold Host.perform
    apply Engine.Owns.readInto hsound
    intro _ engine devices howns
    have hinside : Host.Sound ⟨engine, devices, id :: h.reading⟩ := howns
    have hduring := hinside.performAll meanwhile
    rwa [Sound, reading_performAll] at hduring
  | .readThrough _ _ _ => hsound.settle
  | .readRunThrough _ _ _ _ => hsound.settle
  | .canTransfer _ _ => hsound.settle
  | .stats => hsound.settle

theorem Sound.performAll {h : Host M} (hsound : h.Sound) :
    ∀ calls : List (Call M), (h.performAll calls).Sound
  | [] => hsound
  | call :: calls => (hsound.perform call).performAll calls

end

theorem Reachable.sound {h : Host M} (hreach : Reachable h) : h.Sound := by
  induction hreach with
  | start hnew devices =>
    obtain rfl := Engine.eq_of_new hnew
    exact .empty _
  | perform _ call ih => exact ih.perform call
  | enter _ hid ih => exact ih.enter hid

theorem Reachable.performAll {h : Host M} (hreach : Reachable h) (calls : List (Call M)) :
    Reachable (h.performAll calls) := by
  induction calls generalizing h with
  | nil => exact hreach
  | cons call calls ih => exact ih (hreach.perform call)

theorem snapshot?_destroyAll {h : Host M} (hreading : h.reading = []) (ids : List SnapshotId)
    (other : SnapshotId) :
    (h.performAll (ids.map .destroy)).engine.snapshot? other
      =
    if other ∈ ids then none else h.engine.snapshot? other := by
  induction ids generalizing h with
  | nil => rfl
  | cons id rest ih =>
    have hdestroy : (h.perform (.destroy id)).2.engine = (h.engine.destroy id).2 := by
      unfold perform
      rw [if_neg (by simp [hreading])]
      rfl
    rw [List.map_cons, performAll, ih ((reading_perform h _).trans hreading), hdestroy,
      Engine.snapshot?_destroy]
    by_cases heq : id = other
    · simp [heq]
    · simp [heq, Ne.symm heq]

/-! How the calls fail. -/

def Call.Reports (e : Engine ι) (error : DiskError) : Call M → Prop
  | .read _ _ _ _ _ answer => answer.1 = .error error
  | .readThrough _ disk _ | .readRunThrough _ disk _ _ =>
    ∃ image, e.images.find? disk = some image ∧ ∃ index, image.fetch index = .error error
  | _ => False

omit [DecidableEq ι] in
theorem error_of_useAlone {α : Type} {h : Host M} {done : Except EngineError α × Engine ι}
    {error : EngineError} (hfailed : (h.useAlone done).1 = .error error) :
    done.1 = .error error := by
  unfold useAlone at hfailed
  split at hfailed
  · exact map_eq_error_iff.mp hfailed
  · split at hfailed
    · cases hfailed
    · cases hfailed
    · next hrefused =>
      cases hfailed
      exact hrefused

theorem Sound.reports {h : Host M} {error : DiskError} (hsound : h.Sound) (call : Call M)
    (hfailed : (h.perform call).1 = .error (.disk error)) (hnames : error.NamesNode) :
    call.Reports h.engine error := by
  have howns : h.engine.Owns h.reading := hsound
  cases call with
  | change => simp [Host.perform] at hfailed
  | startUp body => exact absurd (map_eq_error_iff.mp hfailed) (Engine.startUp_ne_disk body)
  | register id i =>
    exact absurd (map_eq_error_iff.mp hfailed) (Engine.register_ne_disk h.devices id i)
  | attach =>
    exact absurd hnames (Engine.not_namesNode_of_attach (error_of_useAlone hfailed))
  | detach =>
    exact absurd hnames (Engine.not_namesNode_of_detach (error_of_useAlone hfailed))
  | sectorCount =>
    exact absurd hnames (Engine.not_namesNode_of_sectorCount (map_eq_error_iff.mp hfailed))
  | addRoot =>
    exact absurd hnames (Engine.not_namesNode_of_addRoot (error_of_useAlone hfailed))
  | save id => exact absurd (map_eq_error_iff.mp hfailed) (Engine.save_ne_disk h.devices id)
  | restore id => exact absurd hfailed (Engine.restore_ne_disk h.devices id)
  | fork => exact absurd hnames (howns.not_namesNode_of_fork (error_of_useAlone hfailed))
  | destroy id =>
    unfold Host.perform at hfailed
    split at hfailed
    · simp at hfailed
    · exact absurd (map_eq_error_iff.mp hfailed) (Engine.destroy_ne_disk id)
  | depth id => exact absurd (map_eq_error_iff.mp hfailed) (howns.depth_ne_disk id)
  | write =>
    have hwrite := error_of_useAlone hfailed
    exact absurd hnames (howns.not_namesNode_of_withNode Lineage.not_namesNode_of_write hwrite)
  | writeRun =>
    have hwrite := error_of_useAlone hfailed
    exact absurd hnames (howns.not_namesNode_of_withNode Lineage.not_namesNode_of_writeRun hwrite)
  | read id disk index buffer meanwhile answer =>
    unfold Host.perform at hfailed
    obtain ⟨_, _, hanswer⟩ := howns.exists_fallback_of_readInto hfailed hnames
    exact hanswer
  | readThrough id disk index =>
    have hread : h.engine.readThrough id disk index = .error (.disk error) :=
      map_eq_error_iff.mp hfailed
    exact howns.exists_image_of_readThrough hread hnames
  | readRunThrough id disk first buffer =>
    have hread : (h.engine.readRunThrough id disk first buffer).1 = .error (.disk error) :=
      map_eq_error_iff.mp hfailed
    exact howns.exists_image_of_readRunThrough hread hnames
  | canTransfer id disk =>
    exact absurd (map_eq_error_iff.mp hfailed) (Engine.canTransfer_ne_disk id disk)
  | stats => simp [Host.perform, Host.use, Except.map] at hfailed

/--
Snapshots own the nodes of the lineage, whatever goes away in the middle of a read: every reference
to a node belongs to a snapshot, to a release that is still to be done, or to a child. So a snapshot
never finds its node released, or frozen without being so itself, and when all snapshots are
destroyed, no node is left.
-/
theorem refcount_eq_owners (h : Host M) (hreach : Reachable h) :
    (∀ id node, h.engine.lineage.node? id = some node →
      node.refcount = h.engine.snapshots.entries.countP (·.2.node = id)
        + h.engine.pending.count id + h.engine.lineage.childCount id) ∧
    (∀ id s, h.engine.snapshot? id = some s →
      h.engine.lineage.isFrozen s.node = .ok s.frozen) ∧
    (∀ call error, (h.perform call).1 = .error (.disk error) → error.NamesNode →
      call.Reports h.engine error) ∧
    ((∀ id, h.engine.snapshot? id = none) → h.engine.stats.liveNodes = 0 ∧
      h.engine.stats.overlaySectors = 0 ∧ h.engine.stats.overlayBytes = 0) ∧
    (h.reading = [] → ∀ ids : List SnapshotId, (∀ id, (h.engine.snapshot? id).isSome → id ∈ ids) →
      (h.performAll (ids.map .destroy)).engine.stats.liveNodes = 0 ∧
        (h.performAll (ids.map .destroy)).engine.stats.overlaySectors = 0 ∧
        (h.performAll (ids.map .destroy)).engine.stats.overlayBytes = 0) := by
  have howns : h.engine.Owns h.reading := hreach.sound
  refine ⟨?_, ?_, ?_, howns.stats_eq_zero, ?_⟩
  · intro id node hnode
    exact howns.refcount_eq hnode
  · intro id s hs
    exact howns.isFrozen hs
  · intro call error
    exact hreach.sound.reports call
  · intro hreading ids hall
    apply Engine.Owns.stats_eq_zero (hreach.performAll (ids.map .destroy)).sound
    intro id
    rw [snapshot?_destroyAll hreading]
    split
    · rfl
    · next hnotMem =>
      rw [← Option.not_isSome_iff_eq_none]
      exact fun hsome => hnotMem (hall id hsome)

def zeroes : Host counters where
  engine := { config := {} }
  devices := { state := fun _ => (0 : UInt8) }

-- One of the two paths is going to be destroyed while the other one is read.
def twoPaths : Host counters :=
  zeroes.performAll [
    .startUp fun r => (.ok (), r),
    .attach "disk" (.zero 4),
    .addRoot,
    .fork ⟨0⟩,
    .destroy ⟨0⟩,
    .write ⟨1⟩ ⟨0⟩ 0 (Sector.fill 7).bytes]

def twoPathsReading : Host counters :=
  ((twoPaths.enter ⟨1⟩).perform (.destroy ⟨2⟩)).2

def twoPathsEnded : Host counters :=
  twoPaths.performAll [
    .read ⟨1⟩ ⟨0⟩ 3 Sector.zero.bytes [.destroy ⟨2⟩, .stats] (.ok (), Sector.fill 51),
    .destroy ⟨1⟩]

theorem refcount_eq_owners_twoPaths :
    twoPathsReading.engine.pending = [⟨2, 0⟩] ∧
      (∃ node, twoPathsReading.engine.lineage.node? ⟨2, 0⟩ = some node ∧ node.refcount = 1) ∧
      twoPathsEnded.engine.stats.liveNodes = 0 ∧
      twoPathsEnded.engine.stats.overlaySectors = 0 := by
  have hnew : Engine.new {} = .ok zeroes.engine := rfl
  have hreach : Reachable twoPaths := (Reachable.start hnew zeroes.devices).performAll _
  have hreading : Reachable twoPathsReading := (hreach.enter (by decide +kernel)).perform _
  have hended : Reachable twoPathsEnded := hreach.performAll _
  have hpending : twoPathsReading.engine.pending = [⟨2, 0⟩] := by decide +kernel
  obtain ⟨hrefs, -⟩ := refcount_eq_owners twoPathsReading hreading
  have hgone : twoPathsEnded.engine.snapshots.entries = [] :=
    List.isEmpty_iff.mp (by decide +kernel)
  have hnone (id : SnapshotId) : twoPathsEnded.engine.snapshot? id = none := by
    rw [Engine.snapshot?, Table.find?, hgone]
    rfl
  obtain ⟨-, -, -, hzero, -⟩ := refcount_eq_owners twoPathsEnded hended
  obtain ⟨hlive, hsectors, -⟩ := hzero hnone
  have hnode : (twoPathsReading.engine.lineage.node? ⟨2, 0⟩).isSome := by decide +kernel
  obtain ⟨node, hnode⟩ := Option.isSome_iff_exists.mp hnode
  refine ⟨hpending, ⟨node, hnode, ?_⟩, hlive, hsectors⟩
  rw [hrefs _ node hnode]
  decide +kernel

end Host

end MachineFork
