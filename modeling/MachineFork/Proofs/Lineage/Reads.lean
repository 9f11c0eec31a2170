import MachineFork.Proofs.Lineage.Failures
import MachineFork.Proofs.Lineage.FullCopy

/-!
This module contains what a node reads that is there: what has been written on its path, and else
what the fallback answers. A run is read sector by sector, up to the first failure. Nothing is read
from a disk that is not attached, and nothing is written to it.
-/

namespace MachineFork

theorem index_zero (first : UInt64) : first + .ofNat 0 = first :=
  UInt64.add_zero first

theorem index_succ (first : UInt64) (i : Nat) :
    first + .ofNat (i + 1) = first + 1 + .ofNat i := by
  rw [UInt64.add_assoc, UInt64.ofNat_add, UInt64.add_comm (.ofNat i)]
  rfl

/--
Whether `done` is what comes of laying `count` sectors over the start of a buffer, one after the
other, up to the first that cannot be had.
-/
def Fills {ε : Type} (sector : Nat → Except ε Bytes) (count : Nat) (buffer : Bytes)
    (done : Except ε Unit × Bytes) : Prop :=
  ∃ sectors : List Bytes,
    (∀ i bytes, sectors[i]? = some bytes → sector i = .ok bytes) ∧
    done.2 = sectors.flatten ++ buffer.drop (sectors.length * sectorSize) ∧
    (done.1 = .ok () ∧ sectors.length = count ∨
      ∃ e, done.1 = .error e ∧ sectors.length < count ∧ sector sectors.length = .error e)

namespace Fills

variable {ε ε' : Type} {sector : Nat → Except ε Bytes} {count : Nat} {buffer bytes rest : Bytes}
variable {result : Except ε Unit}

theorem nil : Fills sector 0 buffer (.ok (), buffer) :=
  ⟨[], by simp, by simp, .inl ⟨rfl, rfl⟩⟩

theorem failed {e : ε} (hfirst : sector 0 = .error e) :
    Fills sector (count + 1) buffer (.error e, buffer) :=
  ⟨[], by simp, by simp, .inr ⟨e, rfl, Nat.succ_pos count, hfirst⟩⟩

theorem cons (hfirst : sector 0 = .ok bytes)
    (hrest : Fills (fun i => sector (i + 1)) count (buffer.drop sectorSize) (result, rest)) :
    Fills sector (count + 1) buffer (result, bytes ++ rest) := by
  obtain ⟨sectors, hsectors, hbuffer, hdone⟩ := hrest
  dsimp only at hbuffer hdone
  refine ⟨bytes :: sectors, ?_, ?_, ?_⟩
  · intro i found hfound
    cases i with
    | zero =>
      cases hfound
      exact hfirst
    | succ i => exact hsectors i found hfound
  · dsimp only
    rw [hbuffer, List.drop_drop, List.flatten_cons, List.append_assoc]
    rw [List.length_cons, Nat.add_one_mul, Nat.add_comm sectorSize]
  · rw [List.length_cons]
    cases hdone with
    | inl hdone => exact .inl ⟨hdone.1, congrArg (· + 1) hdone.2⟩
    | inr hdone =>
      obtain ⟨e, herror, hlt, hlast⟩ := hdone
      exact .inr ⟨e, herror, Nat.succ_lt_succ hlt, hlast⟩

theorem mapError (h : Fills sector count buffer (result, rest)) (f : ε → ε') :
    Fills (fun i => (sector i).mapError f) count buffer (result.mapError f, rest) := by
  obtain ⟨sectors, hsectors, hbuffer, hdone⟩ := h
  dsimp only at hbuffer hdone
  refine ⟨sectors, ?_, hbuffer, ?_⟩
  · intro i bytes hbytes
    dsimp only
    rw [hsectors i bytes hbytes]
    rfl
  · dsimp only
    rcases hdone with ⟨rfl, hlength⟩ | ⟨e, rfl, hlt, hlast⟩
    · exact .inl ⟨rfl, hlength⟩
    · rw [hlast]
      exact .inr ⟨f e, rfl, hlt, rfl⟩

end Fills

namespace Lineage

variable {l : Lineage} {c : Copies} {held : NodeId → Bool} {owed : NodeId → Nat} {id : NodeId}
variable {node : Node} {disk : DiskHandle} {index first : UInt64} {buffer data : Bytes}

/-! Disks that are attached. -/

section

variable {τ : Type} {fallback : Fallback τ} {state : τ}

theorem Mirrors.read_eq (h : Mirrors l c) (hcounted : Counted l held owed)
    (hid : l.node? id = some node) (hrequire : l.requireSector disk index = .ok ()) (old : Sector) :
    l.read id disk index old.bytes fallback state
      =
    match c id (disk, index) with
    | some bytes => (.ok (), bytes, state)
    | none =>
      let (result, sector, state) := fallback disk index old state
      (result, sector.bytes, state) := by
  have hdepth := hcounted.depth_lt hid
  obtain ⟨found, hlookup, hsame, -⟩ :=
    lookup_trailFrom hcounted h hid (show node.depth < l.slots.size + 1 by omega) (disk, index)
  unfold read
  rw [hrequire, Sector.ofBytes?_bytes, trail, hlookup, ← hsame]
  cases found with
  | none => rfl
  | some found => rfl

end

def sectorSeen (written : Option Bytes) (fetched : Except DiskError Sector) :
    Except DiskError Bytes :=
  match written with
  | some bytes => .ok bytes
  | none => fetched.map (·.bytes)

variable {fallback : Fallback Unit} {fetched : Except DiskError Sector}

theorem Mirrors.read_seen (h : Mirrors l c) (hcounted : Counted l held owed)
    (hid : l.node? id = some node) (hrequire : l.requireSector disk index = .ok ())
    (hfallback : ∀ old, fallback disk index old ()
      =
      match fetched with
      | .error e => (.error e, old, ())
      | .ok sector => (.ok (), sector, ()))
    (old : Sector) :
    l.read id disk index old.bytes fallback ()
      =
    match sectorSeen (c id (disk, index)) fetched with
    | .ok bytes => (.ok (), bytes, ())
    | .error e => (.error e, old.bytes, ()) := by
  rw [h.read_eq hcounted hid hrequire, hfallback]
  cases c id (disk, index) with
  | some bytes => rfl
  | none =>
    cases fetched with
    | error e => rfl
    | ok sector => rfl

theorem fills_readEach {count : Nat} {seen : Nat → Except DiskError Bytes}
    (hread : ∀ i < count, ∀ old : Sector,
      l.read id disk (first + .ofNat i) old.bytes fallback ()
        =
      match seen i with
      | .ok bytes => (.ok (), bytes, ())
      | .error e => (.error e, old.bytes, ()))
    (hlength : count * sectorSize ≤ buffer.length) :
    Fills seen count buffer
      ((l.readEach id disk fallback count first buffer ()).1,
        (l.readEach id disk fallback count first buffer ()).2.1) := by
  induction count generalizing first buffer seen with
  | zero => exact .nil
  | succ count ih =>
    rw [Nat.add_one_mul] at hlength
    obtain ⟨old, hold⟩ : ∃ old : Sector, old.bytes = buffer.take sectorSize := by
      refine ⟨⟨buffer.take sectorSize, ?_⟩, rfl⟩
      rw [List.length_take]
      omega
    have hone := hread 0 (Nat.succ_pos count) old
    rw [hold, index_zero] at hone
    rw [readEach, hone]
    cases hseen : seen 0 with
    | error e =>
      dsimp only
      rw [List.take_append_drop]
      exact .failed hseen
    | ok bytes =>
      dsimp only
      apply Fills.cons hseen
      apply ih
      · intro i hi old
        rw [← index_succ]
        exact hread (i + 1) (by omega) old
      · rw [List.length_drop]
        omega

/-! Disks that are not attached. -/

theorem sectorCount_of_missing (hdisk : l.disk? disk = none) :
    l.sectorCount disk = .error (.missingDisk disk) := by
  unfold sectorCount
  rw [hdisk]

theorem requireSector_of_missing (hdisk : l.disk? disk = none) :
    l.requireSector disk index = .error (.missingDisk disk) := by
  unfold requireSector
  rw [sectorCount_of_missing hdisk]

theorem requireRun_of_missing (hdisk : l.disk? disk = none) {length : Nat}
    (hlength : sectorSize ∣ length) :
    l.requireRun disk first length = .error (.missingDisk disk) := by
  unfold requireRun
  rw [if_neg (not_not.mpr (Nat.mod_eq_zero_of_dvd hlength))]
  split
  · rw [sectorCount_of_missing hdisk]
    rfl
  · exact requireSector_of_missing hdisk

theorem canTransfer_of_missing (hdisk : l.disk? disk = none) : l.canTransfer id disk = false := by
  unfold canTransfer
  rw [hdisk]
  rfl

theorem write_of_missing (hdisk : l.disk? disk = none) :
    l.write id disk index data = (.error (.missingDisk disk), l) := by
  unfold write
  rw [requireSector_of_missing hdisk]

theorem writeRun_of_missing (hdisk : l.disk? disk = none) (hlength : sectorSize ∣ data.length) :
    l.writeRun id disk first data = (.error (.missingDisk disk), l) := by
  unfold writeRun
  rw [requireRun_of_missing hdisk hlength]

variable {τ : Type} {ask : Fallback τ} {state : τ}

theorem read_of_missing (hdisk : l.disk? disk = none) :
    l.read id disk index buffer ask state = (.error (.missingDisk disk), buffer, state) := by
  unfold read
  rw [requireSector_of_missing hdisk]

theorem readRun_of_missing (hdisk : l.disk? disk = none) (hlength : sectorSize ∣ buffer.length) :
    l.readRun id disk first buffer ask state = (.error (.missingDisk disk), buffer, state) := by
  unfold readRun
  rw [requireRun_of_missing hdisk hlength]

end Lineage

end MachineFork
