import MachineFork.Proofs.Engine.Hosts
import MachineFork.Proofs.Lineage.Atomicity
import MachineFork.Proofs.Lineage.Changes
import MachineFork.Proofs.Registry.Records

/-!
This module contains what a call that fails leaves behind in an engine. Nothing is changed by it,
but the releases that have been put off may have been carried out on the occasion, which no snapshot
notices.
-/

namespace MachineFork

namespace Lineage

variable {l m : Lineage} {held : NodeId → Bool} {owed : NodeId → Nat} {id : NodeId} {node : Node}
variable {call : Call} {e : DiskError}

theorem Kept.lookup_eq (h : Kept l m) (hcounted : Counted m held owed)
    (hsize : m.slots.size = l.slots.size) (hid : m.node? id = some node)
    (key : DiskHandle × UInt64) : (m.trail id).lookup key = (l.trail id).lookup key := by
  unfold trail
  rw [hsize]
  generalize l.slots.size + 1 = rounds
  induction rounds generalizing id node with
  | zero => rfl
  | succ rounds ih =>
    obtain ⟨refcount, hold⟩ := h id node hid
    rw [trailFrom, trailFrom, hid, hold]
    dsimp only [Trail.lookup]
    cases hparent : node.parent with
    | none => rw [trailFrom, trailFrom]
    | some parent =>
      obtain ⟨above, habove, -⟩ := hcounted.parent_live hid hparent
      rw [ih habove]

end Lineage

namespace Engine

variable {ι : Type} {M : Machine ι} {α : Type} {e : Engine ι}

theorem kept_releaseAll (l : Lineage) (nodes : List NodeId) :
    Lineage.Kept l (releaseAll l nodes) := by
  induction nodes generalizing l with
  | nil => exact .refl l
  | cons node rest ih => exact (Lineage.kept_release l node).trans (ih _)

theorem frame_releaseAll (l : Lineage) (nodes : List NodeId) :
    (releaseAll l nodes).disks = l.disks ∧ (releaseAll l nodes).slots.size = l.slots.size := by
  induction nodes generalizing l with
  | nil => exact ⟨rfl, rfl⟩
  | cons node rest ih =>
    obtain ⟨hdisks, hsize⟩ := Lineage.frame_release l node
    obtain ⟨hdisks', hsize'⟩ := ih (l.release node).2
    exact ⟨hdisks'.trans hdisks, hsize'.trans hsize⟩

inductive AllOrNothing (e : Engine ι) : Except EngineError α × Engine ι → Prop where
  | done (value : α) (e' : Engine ι) : AllOrNothing e (.ok value, e')
  | refused (error : EngineError) : AllOrNothing e (.error error, e)
  | settled (error : EngineError) : AllOrNothing e (.error error, e.settle)

namespace AllOrNothing

theorem query (e : Engine ι) (result : Except EngineError α) :
    e.AllOrNothing (result, e.settle) := by
  cases result with
  | error error => exact .settled error
  | ok value => exact .done value _

theorem register [DecidableEq ι] (e : Engine ι) (devices : Devices M) (id : DeviceId) (i : ι) :
    e.AllOrNothing (e.register devices id i) := by
  unfold Engine.register
  rcases hresult : e.registry.register devices id i with ⟨failure | _, registry⟩
  · rw [Registry.eq_of_register_error hresult]
    exact .refused _
  · exact .done _ _

theorem attach (e : Engine ι) (name : String) (image : BaseImage) :
    e.AllOrNothing (e.attach name image) := by
  unfold Engine.attach
  dsimp only
  split
  · next hattach =>
    rw [Lineage.eq_of_attach_error hattach]
    exact .settled _
  · exact .done _ _

theorem detach (e : Engine ι) (disk : DiskHandle) : e.AllOrNothing (e.detach disk) := by
  unfold Engine.detach
  dsimp only
  split
  · next hdetach =>
    rw [Lineage.eq_of_detach_error hdetach]
    exact .settled _
  · exact .done _ _

theorem addRoot (e : Engine ι) : e.AllOrNothing e.addRoot := by
  unfold Engine.addRoot
  split
  · exact .refused _
  · split
    · exact .refused _
    · split
      · exact .refused _
      · dsimp only
        split
        · next hroot =>
          rw [Lineage.eq_of_addRoot_error hroot]
          exact .settled _
        · exact .done _ _

theorem fork (e : Engine ι) (id : SnapshotId) : e.AllOrNothing (e.fork id) := by
  unfold Engine.fork
  split
  · exact .refused _
  · split
    · exact .refused _
    · split
      · exact .settled _
      · dsimp only
        split
        · next hfork =>
          rw [Lineage.eq_of_fork_error hfork]
          exact .settled _
        · exact .done _ _

theorem withNode (e : Engine ι) (id : SnapshotId)
    {write : Lineage → NodeId → Except DiskError Unit × Lineage}
    (hwrite : ∀ {l node failure m}, write l node = (.error failure, m) → m = l) :
    e.AllOrNothing (e.withNode id write) := by
  unfold Engine.withNode
  split
  · exact .refused _
  · next s _ =>
    split
    · exact .refused _
    · dsimp only
      rcases hresult : write e.settle.lineage s.node with ⟨failure | _, lineage⟩
      · rw [hwrite hresult]
        exact .settled _
      · exact .done _ _

theorem destroy (e : Engine ι) (id : SnapshotId) : e.AllOrNothing (e.destroy id) := by
  unfold Engine.destroy
  split
  · exact .refused _
  · dsimp only
    split
    · exact .done _ _
    · exact .done _ _

end AllOrNothing

end Engine

namespace Host

variable {ι : Type} {M : Machine ι} {h : Host M} {call : Call M} {error : EngineError}

/--
Whether a call either succeeds or changes nothing. A read is none of these, because its fallback may
make other calls.
-/
def Call.isAtomic : Call M → Bool
  | .change _ | .startUp _ | .save _ | .restore _ | .read .. => false
  | _ => true

/--
What a call on `h` leaves behind that has failed: everything, but for the releases that were put off
and may have been carried out. No snapshot notices them, and no node changes that is still there.
-/
structure Spares (h h' : Host M) : Prop where
  devices : h'.devices = h.devices
  reading : h'.reading = h.reading
  registry : h'.engine.registry = h.engine.registry
  disks : h'.engine.lineage.disks = h.engine.lineage.disks
  images : h'.engine.images = h.engine.images
  active : h'.engine.active = h.engine.active
  nextId : h'.engine.nextId = h.engine.nextId
  rootCreated : h'.engine.rootCreated = h.engine.rootCreated
  snapshots : h'.engine.snapshots = h.engine.snapshots
  released : h'.engine.lineage = h.engine.lineage ∧ h'.engine.pending = h.engine.pending ∨
    h'.engine.lineage = Engine.releaseAll h.engine.lineage h.engine.pending ∧
      h'.engine.pending = []
  nodes : ∀ id node, h'.engine.lineage.node? id = some node →
    ∃ refcount, h.engine.lineage.node? id = some { node with refcount }
  sectors : ∀ id s, h.engine.snapshot? id = some s → ∀ key,
    (h'.engine.lineage.trail s.node).lookup key = (h.engine.lineage.trail s.node).lookup key

theorem Spares.refl (h : Host M) : Spares h h where
  devices := rfl
  reading := rfl
  registry := rfl
  disks := rfl
  images := rfl
  active := rfl
  nextId := rfl
  rootCreated := rfl
  snapshots := rfl
  released := .inl ⟨rfl, rfl⟩
  nodes := Lineage.Kept.refl h.engine.lineage
  sectors _ _ _ _ := rfl

theorem Sound.spares_settle (hsound : h.Sound) :
    Spares h { h with engine := h.engine.settle } := by
  have hsettled : h.engine.settle.Owns h.reading := Engine.Owns.settle hsound
  have hlive {id s} (hs : h.engine.snapshot? id = some s) :
      h.engine.settle.lineage.isFrozen s.node = .ok s.frozen :=
    Engine.Owns.isFrozen_settle hsound hs
  unfold Engine.settle at *
  split
  · next hreaders =>
    rw [if_pos hreaders] at hsettled hlive
    have hkept := Engine.kept_releaseAll h.engine.lineage h.engine.pending
    obtain ⟨hdisks, hsize⟩ := Engine.frame_releaseAll h.engine.lineage h.engine.pending
    exact {
      devices := rfl
      reading := rfl
      registry := rfl
      disks := hdisks
      images := rfl
      active := rfl
      nextId := rfl
      rootCreated := rfl
      snapshots := rfl
      released := .inr ⟨rfl, rfl⟩
      nodes := hkept
      sectors := by
        intro id s hs key
        obtain ⟨node, hnode, -⟩ := Lineage.isFrozen_eq_ok_iff.mp (hlive hs)
        exact hkept.lookup_eq hsettled.owned.counted hsize hnode key }
  · exact .refl h

theorem eq_or_settle_of_use {α : Type} {done : Except EngineError α × Engine ι}
    (hdone : h.engine.AllOrNothing done) (herror : (h.use done).1 = .error error) :
    (h.use done).2 = h ∨ (h.use done).2 = { h with engine := h.engine.settle } := by
  cases hdone with
  | done value e' => contradiction
  | refused => exact .inl rfl
  | settled => exact .inr rfl

theorem eq_or_settle_of_useAlone {α : Type} {done : Except EngineError α × Engine ι}
    (hdone : h.engine.AllOrNothing done) (herror : (h.useAlone done).1 = .error error) :
    (h.useAlone done).2 = h ∨ (h.useAlone done).2 = { h with engine := h.engine.settle } := by
  by_cases hreaders : h.engine.readers = 0
  · unfold useAlone at herror ⊢
    rw [if_pos hreaders] at herror ⊢
    exact eq_or_settle_of_use hdone herror
  · exact .inl (useAlone_of_readers hreaders done)

variable [DecidableEq ι]

theorem eq_or_settle_of_error (hcall : call.isAtomic = true)
    (herror : (h.perform call).1 = .error error) :
    (h.perform call).2 = h ∨ (h.perform call).2 = { h with engine := h.engine.settle } := by
  cases call with
  | change => contradiction
  | startUp => contradiction
  | save => contradiction
  | restore => contradiction
  | read => contradiction
  | register id i => exact eq_or_settle_of_use (.register _ _ id i) herror
  | attach name image => exact eq_or_settle_of_useAlone (.attach _ name image) herror
  | detach disk => exact eq_or_settle_of_useAlone (.detach _ disk) herror
  | addRoot => exact eq_or_settle_of_useAlone (.addRoot _) herror
  | fork id => exact eq_or_settle_of_useAlone (.fork _ id) herror
  | write id => exact eq_or_settle_of_useAlone (.withNode _ id Lineage.eq_of_write_error) herror
  | writeRun id =>
    exact eq_or_settle_of_useAlone (.withNode _ id Lineage.eq_of_writeRun_error) herror
  | destroy id =>
    unfold perform at herror ⊢
    split at herror
    · contradiction
    · next hid =>
      rw [if_neg hid]
      exact eq_or_settle_of_use (.destroy _ id) herror
  | sectorCount => exact eq_or_settle_of_use (.query _ _) herror
  | depth => exact eq_or_settle_of_use (.query _ _) herror
  | readThrough => exact eq_or_settle_of_use (.query _ _) herror
  | readRunThrough => exact eq_or_settle_of_use (.query _ _) herror
  | canTransfer => exact eq_or_settle_of_use (.query _ _) herror
  | stats => exact eq_or_settle_of_use (.query _ _) herror

/--
No call that fails leaves anything half done, but for startup, saves and restores.
-/
theorem spares_of_error (hreach : h.Reachable) (hcall : call.isAtomic = true)
    (herror : (h.perform call).1 = .error error) : Spares h (h.perform call).2 := by
  cases eq_or_settle_of_error hcall herror with
  | inl heq =>
    rw [heq]
    exact .refl h
  | inr heq =>
    rw [heq]
    exact hreach.sound.spares_settle

-- One of the two paths has been destroyed while the other one was read.
def twoPathsRead : Host counters :=
  twoPaths.performAll [
    .read ⟨1⟩ ⟨0⟩ 3 Sector.zero.bytes [.destroy ⟨2⟩] (.ok (), Sector.fill 51)]

theorem spares_of_error_twoPaths :
    (twoPathsRead.perform (.write ⟨1⟩ ⟨7⟩ 0 Sector.zero.bytes)).1
        = .error (.disk (.missingDisk ⟨7⟩)) ∧
      twoPathsRead.engine.pending = [⟨2, 0⟩] ∧
      (twoPathsRead.perform (.write ⟨1⟩ ⟨7⟩ 0 Sector.zero.bytes)).2.engine.pending = [] ∧
      Spares twoPathsRead (twoPathsRead.perform (.write ⟨1⟩ ⟨7⟩ 0 Sector.zero.bytes)).2 ∧
      (twoPathsReading.perform .addRoot).1 = .error .rootExists ∧
      Spares twoPathsReading (twoPathsReading.perform .addRoot).2 := by
  have hnew : Engine.new {} = .ok zeroes.engine := rfl
  have htwo : Reachable twoPaths := (Reachable.start hnew zeroes.devices).performAll _
  have hread : Reachable twoPathsRead := htwo.performAll _
  have hreading : Reachable twoPathsReading := (htwo.enter (by decide +kernel)).perform _
  have hwrite : (twoPathsRead.perform (.write ⟨1⟩ ⟨7⟩ 0 Sector.zero.bytes)).1
      = .error (.disk (.missingDisk ⟨7⟩)) := by decide +kernel
  have hroot : (twoPathsReading.perform .addRoot).1 = .error .rootExists := by decide +kernel
  exact ⟨hwrite, by decide +kernel, by decide +kernel, spares_of_error hread rfl hwrite,
    hroot, spares_of_error hreading rfl hroot⟩

end Host

end MachineFork
