import MachineFork.Proofs.Engine.Histories
import MachineFork.Proofs.Engine.Mounts
import MachineFork.Proofs.Lineage.Reads

/-!
This module contains hosts together with a log of their disks: the images that have been attached, the
disks that have been detached, and what has been written on the path of each snapshot. Whatever is done,
disks and images are those that the log has, and the nodes of the snapshots hold what was written.
-/

namespace MachineFork

variable {ι : Type} {M : Machine ι}

structure SectorRun where
  disk : DiskHandle
  first : UInt64
  data : Bytes

def lastWritten (runs : List SectorRun) (key : DiskHandle × UInt64) : Option Bytes :=
  runs.findSome? fun run => runSector? run.disk run.first run.data key

theorem lastWritten_cons (run : SectorRun) (runs : List SectorRun) (key : DiskHandle × UInt64) :
    lastWritten (run :: runs) key
      = (runSector? run.disk run.first run.data key).or (lastWritten runs key) := by
  unfold lastWritten
  rw [List.findSome?_cons]
  cases runSector? run.disk run.first run.data key <;> rfl

structure DiskLog where
  /-- All disks that have ever been attached, with their images, the first one in front. -/
  attached : List (DiskHandle × BaseImage) := []
  detached : List DiskHandle := []
  /-- What has been written on the path of each snapshot, the last run in front. -/
  written : SnapshotId → List SectorRun := fun _ => []

namespace DiskLog

def attach (log : DiskLog) (image : BaseImage) : Except EngineError DiskHandle → DiskLog
  | .ok disk => { log with attached := log.attached ++ [(disk, image)] }
  | .error _ => log

def detach (log : DiskLog) (disk : DiskHandle) : Except EngineError Unit → DiskLog
  | .ok () => { log with detached := disk :: log.detached }
  | .error _ => log

def addRoot (log : DiskLog) : Except EngineError Snapshot → DiskLog
  | .ok root => { log with written := Function.update log.written root.id [] }
  | .error _ => log

def fork (log : DiskLog) (id : SnapshotId) : Except EngineError (Snapshot × Snapshot) → DiskLog
  | .ok (left, right) =>
    { log with
      written := Function.update (Function.update log.written left.id (log.written id)) right.id
        (log.written id) }
  | .error _ => log

def write (log : DiskLog) (id : SnapshotId) (run : SectorRun) : Except EngineError Unit → DiskLog
  | .ok () => { log with written := Function.update log.written id (run :: log.written id) }
  | .error _ => log

def after (log : DiskLog) (h : Host M) (call : Host.Call M) : DiskLog :=
  if h.engine.readers = 0 then
    match call with
    | .attach name image => log.attach image (h.engine.attach name image).1
    | .detach disk => log.detach disk (h.engine.detach disk).1
    | .addRoot => log.addRoot h.engine.addRoot.1
    | .fork id => log.fork id (h.engine.fork id).1
    | .write id disk index data =>
      log.write id ⟨disk, index, data⟩ (h.engine.write id disk index data).1
    | .writeRun id disk first data =>
      log.write id ⟨disk, first, data⟩ (h.engine.writeRun id disk first data).1
    | _ => log
  else
    log

/-! What has been detached stays so. -/

@[simp]
theorem detached_attach (log : DiskLog) (image : BaseImage)
    (done : Except EngineError DiskHandle) : (log.attach image done).detached = log.detached := by
  cases done <;> rfl

theorem detached_subset_detach (log : DiskLog) (disk : DiskHandle)
    (done : Except EngineError Unit) : log.detached ⊆ (log.detach disk done).detached := by
  cases done with
  | error error => exact List.Subset.refl _
  | ok _ => exact List.subset_cons_self disk log.detached

@[simp]
theorem detached_addRoot (log : DiskLog) (done : Except EngineError Snapshot) :
    (log.addRoot done).detached = log.detached := by
  cases done <;> rfl

@[simp]
theorem detached_fork (log : DiskLog) (id : SnapshotId)
    (done : Except EngineError (Snapshot × Snapshot)) :
    (log.fork id done).detached = log.detached := by
  cases done <;> rfl

@[simp]
theorem detached_write (log : DiskLog) (id : SnapshotId) (run : SectorRun)
    (done : Except EngineError Unit) : (log.write id run done).detached = log.detached := by
  cases done <;> rfl

theorem detached_subset_after (log : DiskLog) (h : Host M) (call : Host.Call M) :
    log.detached ⊆ (log.after h call).detached := by
  unfold after
  split
  · cases call with
    | detach disk => apply detached_subset_detach
    | _ => simp
  · exact List.Subset.refl _

def seen (log : DiskLog) (id : SnapshotId) (disk : DiskHandle) (image : BaseImage)
    (index : UInt64) : Except DiskError Bytes :=
  Lineage.sectorSeen (lastWritten (log.written id) (disk, index)) (image.fetch index)

end DiskLog

namespace Host

variable [DecidableEq ι]

inductive Logged : Host M → DiskLog → Prop where
  | start {config : Config} {engine : Engine ι} (hnew : Engine.new config = .ok engine)
    (devices : Devices M) : Logged { engine, devices } {}
  | perform {h : Host M} {log : DiskLog} (hlog : Logged h log) (call : Call M) :
    Logged (h.perform call).2 (log.after h call)
  | enter {h : Host M} {log : DiskLog} {id : SnapshotId} (hlog : Logged h log)
    (hid : (h.engine.snapshot? id).isSome) : Logged (h.enter id) log

variable {h : Host M} {log : DiskLog}

theorem Logged.reachable (hlog : h.Logged log) : h.Reachable := by
  induction hlog with
  | start hnew devices => exact .start hnew devices
  | perform _ call ih => exact ih.perform call
  | enter _ hid ih => exact ih.enter hid

theorem Reachable.exists_logged (hreach : h.Reachable) : ∃ log, h.Logged log := by
  induction hreach with
  | start hnew devices => exact ⟨_, .start hnew devices⟩
  | perform _ call ih =>
    obtain ⟨log, hlog⟩ := ih
    exact ⟨_, hlog.perform call⟩
  | enter _ hid ih =>
    obtain ⟨log, hlog⟩ := ih
    exact ⟨log, hlog.enter hid⟩

theorem Later.exists_logged {g : Host M} {born : List Birth} (later : h.Later born g)
    (hlog : h.Logged log) : ∃ log', g.Logged log' ∧ log.detached ⊆ log'.detached := by
  induction later with
  | refl => exact ⟨log, hlog, List.Subset.refl _⟩
  | @perform g _ _ call ih =>
    obtain ⟨log', hlog', hsubset⟩ := ih
    exact ⟨_, hlog'.perform call, List.Subset.trans hsubset (log'.detached_subset_after g call)⟩
  | enter _ hid ih =>
    obtain ⟨log', hlog', hsubset⟩ := ih
    exact ⟨log', hlog'.enter hid, hsubset⟩

def logAfterAll (h : Host M) (log : DiskLog) : List (Call M) → DiskLog
  | [] => log
  | call :: calls => (h.perform call).2.logAfterAll (log.after h call) calls

theorem Logged.performAll (hlog : h.Logged log) (calls : List (Call M)) :
    (h.performAll calls).Logged (h.logAfterAll log calls) := by
  induction calls generalizing h log with
  | nil => exact hlog
  | cons call calls ih => exact ih (hlog.perform call)

end Host

/-! The invariant of a log. -/

namespace DiskLog

variable {log : DiskLog} {c c' : Copies} {e e' : Engine ι} {id : SnapshotId} {s : Snapshot}
variable {reading : List SnapshotId} {disk : DiskHandle} {image : BaseImage} {lineage : Lineage}

/--
Whether the copies that the nodes of snapshots would have are what has been written on their paths,
for all disks that have not been detached.
-/
def Shows (log : DiskLog) (c : Copies) (e : Engine ι) : Prop :=
  ∀ id s, e.snapshot? id = some s → ∀ key, key.1 ∉ log.detached →
    c s.node key = lastWritten (log.written id) key

theorem Shows.update (h : log.Shows c e) (howns : e.Owns reading) {node : NodeId}
    (hnew : e.lineage.node? node = none) (copy : DiskHandle × UInt64 → Option Bytes) :
    log.Shows (Function.update c node copy) e := by
  intro id s hs key hkey
  have hne : s.node ≠ node := by
    rintro rfl
    obtain ⟨live, hlive, -⟩ := howns.live hs
    rw [hnew] at hlive
    contradiction
  rw [Function.update_of_ne hne]
  exact h id s hs key hkey

theorem Shows.spare (h : log.Shows c e) (hspares : e.SparesDisks e') : log.Shows c e' := by
  intro id t ht key hkey
  obtain ⟨s, hs, hnode⟩ := hspares.nodes id t ht
  rw [hnode]
  exact h id s hs key hkey

theorem Shows.addSnapshot (h : log.Shows c e) (blob : Stream) {node : NodeId}
    {runs : List SectorRun} (hnode : ∀ key, key.1 ∉ log.detached → c node key = lastWritten runs key) :
    Shows { log with written := Function.update log.written ⟨e.nextId⟩ runs } c
      (e.addSnapshot blob node).2 := by
  intro id s hs key hkey
  dsimp only at hkey ⊢
  rw [Engine.snapshot?_addSnapshot] at hs
  split at hs
  · next heq =>
    cases hs
    rw [← heq, Function.update_self]
    exact hnode key hkey
  · next hne =>
    rw [Function.update_of_ne (Ne.symm hne)]
    exact h id s hs key hkey

structure Sound (log : DiskLog) (e : Engine ι) : Prop where
  handles : log.attached.map (·.1.number) = List.range e.lineage.disks.size
  detached : ∀ disk ∈ log.detached, disk.number < e.lineage.disks.size
  images : ∀ disk image, e.images.find? disk = some image ↔
    (disk, image) ∈ log.attached ∧ disk ∉ log.detached
  sizes : ∀ disk, (e.lineage.disk? disk).map (·.sectorCount)
    = (e.images.find? disk).map (·.sectorCount)
  shown : ∃ c, e.lineage.Mirrors c ∧ log.Shows c e

namespace Sound

theorem start (config : Config) : Sound {} ({ config } : Engine ι) where
  handles := rfl
  detached := by simp
  images := by simp
  sizes := by simp [Lineage.disk?]
  shown := ⟨Copies.none, by simp [Lineage.Mirrors, Lineage.node?], by simp [Shows, Engine.snapshot?]⟩

theorem rewrite (h : log.Sound e) {written : SnapshotId → List SectorRun}
    (hdisks : e'.lineage.disks = e.lineage.disks) (himages : e'.images = e.images)
    (hmirrors : e'.lineage.Mirrors c) (hshows : Shows { log with written } c e') :
    Sound { log with written } e' where
  handles := by
    rw [hdisks]
    exact h.handles
  detached := by
    rw [hdisks]
    exact h.detached
  images := by
    rw [himages]
    exact h.images
  sizes := by
    unfold Lineage.disk?
    rw [hdisks, himages]
    exact h.sizes
  shown := ⟨c, hmirrors, hshows⟩

theorem spare (h : log.Sound e) (hspares : e.SparesDisks e') : log.Sound e' := by
  obtain ⟨c, hmirrors, hshows⟩ := h.shown
  exact h.rewrite hspares.disks hspares.images (hmirrors.of_kept hspares.kept)
    (hshows.spare hspares)

theorem settle (h : log.Sound e) : log.Sound e.settle :=
  h.spare .settle

theorem lt_of_mem (h : log.Sound e) (hmem : (disk, image) ∈ log.attached) :
    disk.number < e.lineage.disks.size := by
  have hnumber : disk.number ∈ log.attached.map (·.1.number) := List.mem_map_of_mem hmem
  rwa [h.handles, List.mem_range] at hnumber

theorem push (h : log.Sound e) (name : String) (image : BaseImage) :
    Sound { log with attached := log.attached ++ [(⟨e.lineage.disks.size⟩, image)] }
      { e with
        lineage := { e.lineage with
          disks := e.lineage.disks.push (some { name, sectorCount := image.sectorCount }) }
        images := e.images.insert ⟨e.lineage.disks.size⟩ image } where
  handles := by
    dsimp only
    rw [List.map_append, h.handles, Array.size_push, List.range_succ]
    rfl
  detached := by
    intro disk hdisk
    have hlt := h.detached disk hdisk
    dsimp only
    rw [Array.size_push]
    omega
  images := by
    intro disk found
    dsimp only
    rw [Table.find?_insert, List.mem_append, List.mem_singleton, Prod.mk.injEq]
    split
    · next heq =>
      have hnew : (disk, found) ∉ log.attached := by
        intro hmem
        have hlt := h.lt_of_mem hmem
        rw [← heq] at hlt
        exact Nat.lt_irrefl _ hlt
      have hkept : disk ∉ log.detached := by
        intro hmem
        have hlt := h.detached disk hmem
        rw [← heq] at hlt
        exact Nat.lt_irrefl _ hlt
      simp [hnew, hkept, heq, eq_comm]
    · next hne =>
      rw [h.images]
      simp [Ne.symm hne]
  sizes := by
    intro disk
    dsimp only
    rw [Lineage.disk?_push, Table.find?_insert]
    by_cases heq : disk.number = e.lineage.disks.size
    · have heq' : (⟨e.lineage.disks.size⟩ : DiskHandle) = disk := by rw [← heq]
      rw [if_pos heq, if_pos heq']
      rfl
    · have hne : (⟨e.lineage.disks.size⟩ : DiskHandle) ≠ disk := by
        rintro rfl
        exact heq rfl
      rw [if_neg heq, if_neg hne]
      exact h.sizes disk
  shown := h.shown

theorem attach (h : log.Sound e) (name : String) (image : BaseImage) :
    (log.attach image (e.attach name image).1).Sound (e.attach name image).2 := by
  rcases e.attach_cases name image with ⟨error, hattach⟩ | hattach
  · rw [hattach]
    exact h.settle
  · rw [hattach]
    exact h.settle.push name image

theorem erase (h : log.Sound e) (hdetach : e.lineage.detach disk = (.ok (), lineage)) :
    Sound { log with detached := disk :: log.detached }
      { e with lineage, images := e.images.erase disk } := by
  obtain ⟨c, hmirrors, hshows⟩ := h.shown
  obtain ⟨-, -, hdisks⟩ := Lineage.eq_of_detach hdetach
  have hsize : lineage.disks.size = e.lineage.disks.size := by
    rw [hdisks, Array.size_setIfInBounds]
  refine ⟨?_, ?_, ?_, ?_, c.drop disk, hmirrors.drop hdetach, ?_⟩
  · rw [hsize]
    exact h.handles
  · dsimp only
    rw [hsize, List.forall_mem_cons]
    obtain ⟨found, hfound⟩ := Option.isSome_iff_exists.mp (Lineage.isSome_of_detach hdetach)
    exact ⟨Lineage.lt_size_of_disk? hfound, h.detached⟩
  · intro other image
    dsimp only
    rw [Table.find?_erase, List.mem_cons, not_or]
    split
    · next heq => simp [heq]
    · next hne =>
      rw [h.images]
      simp [Ne.symm hne]
  · intro other
    dsimp only
    rw [Lineage.disk?_of_detach hdetach, Table.find?_erase]
    split
    · rfl
    · exact h.sizes other
  · intro id s hs key hkey
    dsimp only at hkey
    rw [List.mem_cons, not_or] at hkey
    rw [Copies.drop, if_neg hkey.1]
    exact hshows id s hs key hkey.2

theorem detach (h : log.Sound e) (disk : DiskHandle) :
    (log.detach disk (e.detach disk).1).Sound (e.detach disk).2 := by
  rcases e.detach_cases disk with ⟨error, hdetach⟩ | ⟨lineage, hlineage, hdetach⟩
  · rw [hdetach]
    exact h.settle
  · rw [hdetach]
    exact h.settle.erase hlineage

theorem addRoot (h : log.Sound e) (howns : e.Owns reading) :
    (log.addRoot e.addRoot.1).Sound e.addRoot.2 := by
  unfold Engine.addRoot
  split
  · exact h
  · split
    · exact h
    · split
      · exact h
      · next blob _ =>
        have hsettled := h.settle
        have howned := howns.settle
        dsimp only
        split
        · next hroot =>
          rw [Lineage.eq_of_addRoot_error hroot]
          exact hsettled
        · next node lineage hroot =>
          obtain ⟨c, hmirrors, hshows⟩ := hsettled.shown
          have hfree := howned.owned.counted.freeSlots
          have hinsert := Lineage.insertNode_of_addRoot hroot
          have hnew := Lineage.node?_insertNode_self hfree { parent := none, depth := 0 }
          have hothers := Lineage.node?_insertNode hfree { parent := none, depth := 0 }
          rw [hinsert] at hnew hothers
          have hroots := hmirrors.root howned.owned.counted hnew hothers
          have hkept : log.Shows (Function.update c node fun _ => none)
              { e.settle with lineage, rootCreated := true } :=
            hshows.update howned hnew _
          have hempty (key : DiskHandle × UInt64) (_ : key.1 ∉ log.detached) :
              Function.update c node (fun _ => none) node key = lastWritten [] key := by
            rw [Function.update_self]
            rfl
          have hadded := hkept.addSnapshot blob hempty
          exact hsettled.rewrite (Lineage.disks_of_addRoot hroot) rfl hroots hadded

theorem fork (h : log.Sound e) (howns : e.Owns reading) (id : SnapshotId) :
    (log.fork id (e.fork id).1).Sound (e.fork id).2 := by
  unfold Engine.fork
  split
  · exact h
  · next s hs =>
    split
    · exact h
    · split
      · exact h.settle
      · have hsettled := h.settle
        have howned := howns.settle
        have hs' := (e.snapshot?_settle id).trans hs
        dsimp only
        split
        · next hfork =>
          rw [Lineage.eq_of_fork_error hfork]
          exact hsettled
        · next left right lineage hfork =>
          obtain ⟨c, hmirrors, hshows⟩ := hsettled.shown
          obtain ⟨node, hforks⟩ := Lineage.forks_of_fork hfork
          have hforked := hmirrors.forks howned.owned.counted hforks
          obtain ⟨hnewLeft, hnewRight⟩ := hforks.children_new howned.owned.counted.freeSlots
          have hkept := (hshows.update howned hnewLeft (c s.node)).update howned hnewRight (c s.node)
          generalize hcopies :
            Function.update (Function.update c left (c s.node)) right (c s.node) = c' at hforked hkept
          have hleft (key : DiskHandle × UInt64) (hkey : key.1 ∉ log.detached) :
              c' left key = lastWritten (log.written id) key := by
            rw [← hshows id s hs' key hkey, ← hcopies]
            simp [Function.update_apply]
          have hright (key : DiskHandle × UInt64) (hkey : key.1 ∉ log.detached) :
              c' right key = lastWritten (log.written id) key := by
            rw [← hshows id s hs' key hkey, ← hcopies, Function.update_self]
          have hfrozen : log.Shows c'
              (({ e.settle with lineage }.setSnapshot { s with frozen := true }).deactivate id) := by
            have hset := Engine.SparesDisks.setSnapshot (t := { s with frozen := true })
              howned.toKeeps hs' rfl rfl
            intro other t ht
            rw [Engine.snapshot?_deactivate] at ht
            exact hkept.spare hset other t ht
          have hboth := (hfrozen.addSnapshot s.blob.clone hleft).addSnapshot s.blob.clone hright
          obtain ⟨active, hactive⟩ := Engine.deactivate_eq
            ({ e.settle with lineage }.setSnapshot { s with frozen := true }) id
          rw [hactive] at hboth ⊢
          exact hsettled.rewrite (Lineage.disks_of_fork hfork) rfl hforked hboth

theorem withNode (h : log.Sound e) (howns : e.Owns reading) (id : SnapshotId) (run : SectorRun)
    {write : Lineage → NodeId → Except DiskError Unit × Lineage}
    (hwrite : ∀ l id, (∃ error, write l id = (.error error, l)) ∨
      ∃ node m, l.node? id = some node ∧ node.frozen = false ∧ write l id = (.ok (), m) ∧
        l.Stores id run.disk run.first run.data m) :
    (log.write id run (e.withNode id write).1).Sound (e.withNode id write).2 := by
  unfold Engine.withNode
  split
  · exact h
  · next s hs =>
    split
    · exact h
    · have hsettled := h.settle
      have howned := howns.settle
      have hs' := (e.snapshot?_settle id).trans hs
      dsimp only
      rcases hwrite e.settle.lineage s.node with
        ⟨error, hrefused⟩ | ⟨node, lineage, hid, hopen, hdone, hstores⟩
      · rw [hrefused]
        exact hsettled
      · rw [hdone]
        obtain ⟨c, hmirrors, hshows⟩ := hsettled.shown
        have hstored := hmirrors.stores howned.owned.counted hid hopen hstores
        obtain ⟨-, -, -, hdisks, -, -⟩ := hstores
        refine hsettled.rewrite hdisks rfl hstored ?_
        intro other t ht key hkey
        dsimp only at hkey ⊢
        by_cases heq : id = other
        · subst heq
          have ht' : e.settle.snapshot? id = some t := ht
          rw [hs', Option.some.injEq] at ht'
          rw [← ht', Copies.put, Function.update_self, Function.update_self, lastWritten_cons]
          rw [hshows id s hs' key hkey]
        · rw [Copies.put, Function.update_of_ne (howned.node_ne hs' ht heq)]
          rw [Function.update_of_ne (Ne.symm heq)]
          exact hshows other t ht key hkey

theorem write (h : log.Sound e) (howns : e.Owns reading) (id : SnapshotId) (disk : DiskHandle)
    (index : UInt64) (data : Bytes) :
    (log.write id ⟨disk, index, data⟩ (e.write id disk index data).1).Sound
      (e.write id disk index data).2 := by
  apply h.withNode howns id ⟨disk, index, data⟩
  intro l node
  rcases l.write_cases node disk index data with
    hrefused | ⟨old, sector, hid, hopen, rfl, hdone⟩
  · exact .inl hrefused
  · exact .inr ⟨old, _, hid, hopen, hdone, Lineage.stores_store hid sector⟩

theorem writeRun (h : log.Sound e) (howns : e.Owns reading) (id : SnapshotId) (disk : DiskHandle)
    (first : UInt64) (data : Bytes) :
    (log.write id ⟨disk, first, data⟩ (e.writeRun id disk first data).1).Sound
      (e.writeRun id disk first data).2 :=
  h.withNode howns id ⟨disk, first, data⟩ fun l node => l.writeRun_cases node disk first data

variable {h : Host M}

theorem useAlone {α : Type} (hlog : log.Sound h.engine) {log' : DiskLog}
    {done : Except EngineError α × Engine ι} (hdone : log'.Sound done.2) :
    (if h.engine.readers = 0 then log' else log).Sound (h.useAlone done).2.engine := by
  rw [Host.snd_useAlone]
  split
  · exact hdone
  · exact hlog

variable [DecidableEq ι]

theorem perform (hlog : log.Sound h.engine) (hsound : h.Sound) (call : Host.Call M) :
    (log.after h call).Sound (h.perform call).2.engine := by
  cases hcall : call.isExclusive with
  | false =>
    have hafter : log.after h call = log := by
      unfold DiskLog.after
      cases call with
      | attach | detach | addRoot | fork | write | writeRun => contradiction
      | _ => exact ite_self _
    rw [hafter]
    exact hlog.spare (hsound.sparesDisks call hcall)
  | true =>
    have howns : h.engine.Owns h.reading := hsound
    unfold DiskLog.after
    cases call with
    | attach name image => exact hlog.useAlone (hlog.attach name image)
    | detach disk => exact hlog.useAlone (hlog.detach disk)
    | addRoot => exact hlog.useAlone (hlog.addRoot howns)
    | fork id => exact hlog.useAlone (hlog.fork howns id)
    | write id disk index data => exact hlog.useAlone (hlog.write howns id disk index data)
    | writeRun id disk first data => exact hlog.useAlone (hlog.writeRun howns id disk first data)
    | _ => contradiction

end Sound

end DiskLog

theorem Host.Logged.sound [DecidableEq ι] {h : Host M} {log : DiskLog} (hlog : h.Logged log) :
    log.Sound h.engine := by
  induction hlog with
  | start hnew devices =>
    obtain rfl := Engine.eq_of_new hnew
    exact .start _
  | perform hlog call ih => exact ih.perform hlog.reachable.sound call
  | enter _ _ ih => exact ih.spare (Engine.SparesDisks.settle.trans (.of_eq rfl rfl rfl))

end MachineFork
