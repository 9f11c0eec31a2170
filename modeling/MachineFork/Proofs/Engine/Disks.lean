import MachineFork.Proofs.Engine.DiskLogs

/-!
This module contains what snapshots read from disks. From a disk that is attached every snapshot reads
what has been written last on its path, or else what the disk's own image says; a disk that has been
detached is missing for good.
-/

namespace MachineFork

namespace Engine

variable {ι : Type} {e : Engine ι} {disk : DiskHandle} {image : BaseImage}

/--
Whether `disk` is as large as its image, and reading it yields what each snapshot has `seen`. No read
fails but with a failure of the image.
-/
structure Serves (e : Engine ι) (disk : DiskHandle) (image : BaseImage)
    (seen : SnapshotId → UInt64 → Except DiskError Bytes) : Prop where
  sectorCount : e.sectorCount disk = .ok image.sectorCount
  own : ∀ id index failure, seen id index = .error failure → image.fetch index = .error failure
  sector : ∀ id index, (e.snapshot? id).isSome → index < image.sectorCount →
    e.readThrough id disk index = (seen id index).mapError .disk
  run : ∀ id first buffer, (e.snapshot? id).isSome → sectorSize ∣ buffer.length →
    (buffer = [] ∨ first.toNat + buffer.length / sectorSize ≤ image.sectorCount.toNat) →
      Fills (fun i => (seen id (first + .ofNat i)).mapError .disk) (buffer.length / sectorSize)
        buffer (e.readRunThrough id disk first buffer)

structure Misses (e : Engine ι) (disk : DiskHandle) : Prop where
  sectorCount : e.sectorCount disk = .error (.disk (.missingDisk disk))
  canTransfer : ∀ id, (e.snapshot? id).isSome → e.canTransfer id disk = .ok false
  readInto : ∀ id, (e.snapshot? id).isSome →
    ∀ (τ : Type) index buffer (fallback : Fallback (Engine ι × τ)) state,
      (e.readInto id disk index buffer fallback state).1 = .error (.disk (.missingDisk disk))
  read : ∀ id, (e.snapshot? id).isSome →
    ∀ (τ : Type) index (fallback : Fallback (Engine ι × τ)) state,
      (e.read id disk index fallback state).1 = .error (.disk (.missingDisk disk))
  readThrough : ∀ id, (e.snapshot? id).isSome → ∀ index,
    e.readThrough id disk index = .error (.disk (.missingDisk disk))
  readRunThrough : ∀ id, (e.snapshot? id).isSome → ∀ first buffer, sectorSize ∣ buffer.length →
    (e.readRunThrough id disk first buffer).1 = .error (.disk (.missingDisk disk))
  write : ∀ id s, e.snapshot? id = some s → s.frozen = false → ∀ index data,
    (e.write id disk index data).1 = .error (.disk (.missingDisk disk))
  writeRun : ∀ id s, e.snapshot? id = some s → s.frozen = false → ∀ first data,
    sectorSize ∣ data.length →
      (e.writeRun id disk first data).1 = .error (.disk (.missingDisk disk))

theorem disk?_settle (e : Engine ι) (disk : DiskHandle) :
    e.settle.lineage.disk? disk = e.lineage.disk? disk := by
  have hsettle : e.SparesDisks e.settle := .settle
  unfold Lineage.disk?
  rw [hsettle.disks]

section

variable {id : SnapshotId} {s : Snapshot} (h : e.settle.lineage.disk? disk = none)

include h

theorem readInto_of_missing (hs : e.snapshot? id = some s) {τ : Type} (index : UInt64)
    (buffer : Bytes) (fallback : Fallback (Engine ι × τ)) (state : τ) :
    (e.readInto id disk index buffer fallback state).1 = .error (.disk (.missingDisk disk)) := by
  unfold readInto
  rw [hs]
  dsimp only
  rw [Lineage.read_of_missing h]
  rfl

theorem readThrough_of_missing (hs : e.snapshot? id = some s) (index : UInt64) :
    e.readThrough id disk index = .error (.disk (.missingDisk disk)) := by
  unfold readThrough
  rw [hs]
  dsimp only
  rw [Lineage.read_of_missing h]
  rfl

theorem readRunThrough_of_missing (hs : e.snapshot? id = some s) (first : UInt64)
    {buffer : Bytes} (hlength : sectorSize ∣ buffer.length) :
    (e.readRunThrough id disk first buffer).1 = .error (.disk (.missingDisk disk)) := by
  unfold readRunThrough
  rw [hs]
  dsimp only
  rw [Lineage.readRun_of_missing h hlength]
  rfl

theorem canTransfer_of_missing (hs : e.snapshot? id = some s) :
    e.canTransfer id disk = .ok false := by
  unfold canTransfer
  rw [hs]
  dsimp only
  rw [Lineage.canTransfer_of_missing h]

end

theorem withNode_of_error {id : SnapshotId} {s : Snapshot} {failure : DiskError} {lineage : Lineage}
    {write : Lineage → NodeId → Except DiskError Unit × Lineage} (hs : e.snapshot? id = some s)
    (hopen : s.frozen = false)
    (hwrite : write e.settle.lineage s.node = (.error failure, lineage)) :
    (e.withNode id write).1 = .error (.disk failure) := by
  unfold withNode
  rw [hs]
  dsimp only
  rw [if_neg (by simp [hopen]), hwrite]
  rfl

theorem misses (h : e.lineage.disk? disk = none) : e.Misses disk := by
  rw [← disk?_settle] at h
  constructor
  · unfold Engine.sectorCount
    rw [Lineage.sectorCount_of_missing h]
    rfl
  · intro id hid
    obtain ⟨s, hs⟩ := Option.isSome_iff_exists.mp hid
    exact canTransfer_of_missing h hs
  · intro id hid τ index buffer fallback state
    obtain ⟨s, hs⟩ := Option.isSome_iff_exists.mp hid
    exact readInto_of_missing h hs index buffer fallback state
  · intro id hid τ index fallback state
    obtain ⟨s, hs⟩ := Option.isSome_iff_exists.mp hid
    unfold Engine.read
    dsimp only
    rw [readInto_of_missing h hs]
    rfl
  · intro id hid index
    obtain ⟨s, hs⟩ := Option.isSome_iff_exists.mp hid
    exact readThrough_of_missing h hs index
  · intro id hid first buffer hlength
    obtain ⟨s, hs⟩ := Option.isSome_iff_exists.mp hid
    exact readRunThrough_of_missing h hs first hlength
  · intro id s hs hopen index data
    exact withNode_of_error hs hopen (Lineage.write_of_missing h)
  · intro id s hs hopen first data hlength
    exact withNode_of_error hs hopen (Lineage.writeRun_of_missing h hlength)

theorem baseFallback_of_image (h : e.images.find? disk = some image) (index : UInt64)
    (old : Sector) :
    e.baseFallback disk index old ()
      =
    match image.fetch index with
    | .error error => (.error error, old, ())
    | .ok sector => (.ok (), sector, ()) := by
  cases hfetch : image.fetch index with
  | error error => simp [baseFallback, fetchBase, h, hfetch]
  | ok sector => simp [baseFallback, fetchBase, h, hfetch]

end Engine

namespace DiskLog

variable {ι : Type} {log : DiskLog} {e : Engine ι} {reading : List SnapshotId}
variable {disk : DiskHandle} {image : BaseImage}

theorem fetch_of_seen {id : SnapshotId} {index : UInt64} {failure : DiskError}
    (h : log.seen id disk image index = .error failure) : image.fetch index = .error failure := by
  unfold seen Lineage.sectorSeen at h
  split at h
  · simp at h
  · exact map_eq_error_iff.mp h

namespace Sound

theorem sectorCount (h : log.Sound e) (himage : e.images.find? disk = some image) :
    e.lineage.sectorCount disk = .ok image.sectorCount := by
  have hsize := h.sizes disk
  rw [himage, Option.map_some, Option.map_eq_some_iff] at hsize
  obtain ⟨found, hfound, hcount⟩ := hsize
  unfold Lineage.sectorCount
  rw [hfound]
  exact congrArg Except.ok hcount

theorem read_seen (h : log.Sound e) (howns : e.Owns reading)
    (himage : e.images.find? disk = some image) {id : SnapshotId} {s : Snapshot}
    (hs : e.snapshot? id = some s) {index : UInt64} (hindex : index < image.sectorCount)
    (old : Sector) :
    e.lineage.read s.node disk index old.bytes e.baseFallback ()
      =
    match log.seen id disk image index with
    | .ok bytes => (.ok (), bytes, ())
    | .error error => (.error error, old.bytes, ()) := by
  obtain ⟨c, hmirrors, hshows⟩ := h.shown
  obtain ⟨node, hnode, -⟩ := howns.live hs
  have hrequire : e.lineage.requireSector disk index = .ok () :=
    Lineage.requireSector_ok_iff.mpr ⟨_, h.sectorCount himage, hindex⟩
  have hattached := ((h.images disk image).mp himage).2
  rw [hmirrors.read_seen howns.owned.counted hnode hrequire
    (Engine.baseFallback_of_image himage index)]
  rw [hshows id s hs (disk, index) hattached]
  rfl

theorem readThrough_eq (h : log.Sound e) (howns : e.Owns reading)
    (himage : e.images.find? disk = some image) {id : SnapshotId} {s : Snapshot}
    (hs : e.snapshot? id = some s) {index : UInt64} (hindex : index < image.sectorCount) :
    e.readThrough id disk index = (log.seen id disk image index).mapError .disk := by
  have hread := h.settle.read_seen howns.settle ((congrArg (Table.find? · disk)
    e.images_settle).trans himage) ((e.snapshot?_settle id).trans hs) hindex
  unfold Engine.readThrough
  rw [hs]
  dsimp only
  rw [hread]
  cases log.seen id disk image index with
  | error failure => rfl
  | ok bytes => rfl

theorem fills_readRunThrough (h : log.Sound e) (howns : e.Owns reading)
    (himage : e.images.find? disk = some image) {id : SnapshotId} {s : Snapshot}
    (hs : e.snapshot? id = some s) {first : UInt64} {buffer : Bytes}
    (haligned : sectorSize ∣ buffer.length)
    (hrange : buffer = [] ∨
      first.toNat + buffer.length / sectorSize ≤ image.sectorCount.toNat) :
    Fills (fun i => (log.seen id disk image (first + .ofNat i)).mapError .disk)
      (buffer.length / sectorSize) buffer (e.readRunThrough id disk first buffer) := by
  have himage' : e.settle.images.find? disk = some image :=
    (congrArg (Table.find? · disk) e.images_settle).trans himage
  have hrequire : e.settle.lineage.requireRun disk first buffer.length = .ok () := by
    rw [Lineage.requireRun_ok_iff]
    refine ⟨_, h.settle.sectorCount himage', Nat.mod_eq_zero_of_dvd haligned, ?_⟩
    rwa [List.length_eq_zero_iff]
  have hindex (i : Nat) (hi : i < buffer.length / sectorSize) :
      first + .ofNat i < image.sectorCount := by
    have hpos : buffer ≠ [] := by
      rintro rfl
      simp at hi
    have hfits := hrange.resolve_left hpos
    have hlt := image.sectorCount.toNat_lt
    rw [UInt64.lt_iff_toNat_lt, UInt64.toNat_add, UInt64.toNat_ofNat']
    omega
  unfold Engine.readRunThrough Lineage.readRun
  rw [hs]
  dsimp only
  rw [hrequire]
  dsimp only
  apply Fills.mapError
  apply Lineage.fills_readEach
  · intro i hi old
    exact h.settle.read_seen howns.settle himage' ((e.snapshot?_settle id).trans hs)
      (hindex i hi) old
  · exact Nat.div_mul_le_self ..

theorem serves (h : log.Sound e) (howns : e.Owns reading)
    (himage : e.images.find? disk = some image) :
    e.Serves disk image fun id index => log.seen id disk image index := by
  constructor
  · unfold Engine.sectorCount Lineage.sectorCount
    rw [Engine.disk?_settle]
    exact congrArg (Except.mapError EngineError.disk) (h.sectorCount himage)
  · intro id index failure hseen
    exact fetch_of_seen hseen
  · intro id index hid hindex
    obtain ⟨s, hs⟩ := Option.isSome_iff_exists.mp hid
    exact h.readThrough_eq howns himage hs hindex
  · intro id first buffer hid haligned hrange
    obtain ⟨s, hs⟩ := Option.isSome_iff_exists.mp hid
    exact h.fills_readRunThrough howns himage hs haligned hrange

end Sound

end DiskLog

namespace Host

variable {ι : Type} [DecidableEq ι] {M : Machine ι} {h : Host M} {log : DiskLog}

theorem Logged.isSome_iff (hlog : h.Logged log) (disk : DiskHandle) :
    (h.engine.images.find? disk).isSome ↔ (h.engine.lineage.disk? disk).isSome := by
  have hsize := congrArg Option.isSome (hlog.sound.sizes disk)
  rw [Option.isSome_map, Option.isSome_map] at hsize
  rw [hsize]

theorem Logged.misses (hlog : h.Logged log) {disk : DiskHandle} (hdisk : disk ∈ log.detached) :
    h.engine.Misses disk := by
  apply Engine.misses
  rw [← Option.not_isSome_iff_eq_none, ← hlog.isSome_iff]
  intro hsome
  obtain ⟨image, himage⟩ := Option.isSome_iff_exists.mp hsome
  exact ((hlog.sound.images disk image).mp himage).2 hdisk

/--
Disks, images and lineage agree whatever is done with an engine. Disks get the numbers from zero on in
the order in which they are attached, and no number is used twice. A disk that is attached has the
image that it was attached with, and one that has been detached is missing for good.
-/
theorem disks_of_log (hreach : h.Reachable) :
    (∀ disk, (h.engine.images.find? disk).isSome ↔ (h.engine.lineage.disk? disk).isSome) ∧
    (∃ log, h.Logged log) ∧
    ∀ log, h.Logged log →
      (∀ disk image, h.engine.images.find? disk = some image ↔
        (disk, image) ∈ log.attached ∧ disk ∉ log.detached) ∧
      log.attached.map (·.1.number) = List.range log.attached.length ∧
      (∀ disk image, (disk, image) ∈ log.attached → disk ∉ log.detached →
        h.engine.Serves disk image fun id index => log.seen id disk image index) ∧
      ∀ disk ∈ log.detached, ∀ born g, h.Later born g → g.engine.Misses disk := by
  obtain ⟨log, hlog⟩ := hreach.exists_logged
  refine ⟨hlog.isSome_iff, ⟨log, hlog⟩, ?_⟩
  clear hlog log
  intro log hlog
  have hsound := hlog.sound
  refine ⟨hsound.images, ?_, ?_, ?_⟩
  · have hcount := congrArg List.length hsound.handles
    rw [List.length_map, List.length_range] at hcount
    rw [hsound.handles, hcount]
  · intro disk image hattached hkept
    have howns : h.engine.Owns h.reading := hreach.sound
    exact hsound.serves howns ((hsound.images disk image).mpr ⟨hattached, hkept⟩)
  · intro disk hdetached born g later
    obtain ⟨log', hlog', hsubset⟩ := later.exists_logged hlog
    exact hlog'.misses (hsubset hdetached)

def badImage : BaseImage :=
  .ofSectors 4 fun index => if index = 2 then .error (.io "bad sector") else .ok (.fill 5)

-- The second disk takes the place of the first one, which has been written to as well.
def replacedCalls : List (Call counters) :=
  [ .startUp fun r => (.ok (), r),
    .attach "old" (.zero 4),
    .addRoot,
    .write ⟨0⟩ ⟨0⟩ 1 (Sector.fill 3).bytes,
    .attach "new" badImage,
    .write ⟨0⟩ ⟨1⟩ 1 (Sector.fill 7).bytes,
    .fork ⟨0⟩,
    .detach ⟨0⟩,
    .write ⟨2⟩ ⟨1⟩ 1 (Sector.fill 8).bytes ]

def replaced : Host counters :=
  zeroes.performAll replacedCalls

def replacedLog : DiskLog :=
  zeroes.logAfterAll {} replacedCalls

theorem disks_of_log_replaced :
    (replaced.perform (.attach "third" (.zero 2))).2.engine.Misses ⟨0⟩ ∧
      replaced.engine.readThrough ⟨1⟩ ⟨1⟩ 0 = .ok (Sector.fill 5).bytes ∧
      replaced.engine.readThrough ⟨1⟩ ⟨1⟩ 1 = .ok (Sector.fill 7).bytes ∧
      replaced.engine.readThrough ⟨2⟩ ⟨1⟩ 1 = .ok (Sector.fill 8).bytes ∧
      replaced.engine.readThrough ⟨1⟩ ⟨1⟩ 2 = .error (.disk (.io "bad sector")) := by
  have hnew : Engine.new {} = .ok zeroes.engine := rfl
  have hlog : replaced.Logged replacedLog :=
    (Logged.start hnew zeroes.devices).performAll replacedCalls
  have hdetached : replacedLog.detached = [⟨0⟩] := by decide +kernel
  obtain ⟨-, -, hdisks⟩ := disks_of_log hlog.reachable
  obtain ⟨himages, -, hserves, hmisses⟩ := hdisks replacedLog hlog
  rw [hdetached] at hmisses
  obtain ⟨image, himage⟩ : ∃ image, replaced.engine.images.find? ⟨1⟩ = some image :=
    Option.isSome_iff_exists.mp (by decide +kernel)
  obtain ⟨hattached, hkept⟩ := (himages ⟨1⟩ image).mp himage
  have hcount : (replaced.engine.images.find? ⟨1⟩).map (·.sectorCount) = some 4 := by
    decide +kernel
  rw [himage, Option.map_some, Option.some.injEq] at hcount
  have hread (id : SnapshotId) (index : UInt64) (expected : Except DiskError Bytes)
      (hid : (replaced.engine.snapshot? id).isSome) (hindex : index < 4)
      (hseen : (replaced.engine.images.find? ⟨1⟩).map
        (fun image => replacedLog.seen id ⟨1⟩ image index) = some expected) :
      replaced.engine.readThrough id ⟨1⟩ index = expected.mapError .disk := by
    rw [himage, Option.map_some, Option.some.injEq] at hseen
    rw [(hserves ⟨1⟩ image hattached hkept).sector id index hid (hcount ▸ hindex), hseen]
  have hleft : (replaced.engine.snapshot? ⟨1⟩).isSome := by decide +kernel
  have hright : (replaced.engine.snapshot? ⟨2⟩).isSome := by decide +kernel
  have hlater := (Later.refl (h := replaced)).perform (.attach "third" (.zero 2))
  refine ⟨hmisses ⟨0⟩ (.head _) _ _ hlater, ?_, ?_, ?_, ?_⟩
  · exact hread ⟨1⟩ 0 (.ok (Sector.fill 5).bytes) hleft (by decide) (by decide +kernel)
  · exact hread ⟨1⟩ 1 (.ok (Sector.fill 7).bytes) hleft (by decide) (by decide +kernel)
  · exact hread ⟨2⟩ 1 (.ok (Sector.fill 8).bytes) hright (by decide) (by decide +kernel)
  · exact hread ⟨1⟩ 2 (.error (.io "bad sector")) hleft (by decide) (by decide +kernel)

end Host

end MachineFork
