import MachineFork.Proofs.Lineage.Reads
import MachineFork.Proofs.Lineage.Trails

/-!
This module contains that runs of sectors come to the same as their sectors one by one: a run that
is accepted is written as a whole, and a run is read up to the first sector that cannot be had. What
is accepted lies within the disk, so that no index of a run is beyond 2^64.
-/

namespace MachineFork

def sectorAt (bytes : Bytes) (i : Nat) : Bytes :=
  (bytes.drop (i * sectorSize)).take sectorSize

@[simp]
theorem sectorAt_zero (bytes : Bytes) : sectorAt bytes 0 = bytes.take sectorSize := by
  rw [sectorAt, Nat.zero_mul, List.drop_zero]

theorem sectorAt_drop (bytes : Bytes) (i : Nat) :
    sectorAt (bytes.drop sectorSize) i = sectorAt bytes (i + 1) := by
  rw [sectorAt, sectorAt, List.drop_drop, Nat.add_one_mul, Nat.add_comm]

def Fallback.logged {τ : Type} (fallback : Fallback τ) :
    Fallback (List (DiskHandle × UInt64) × τ) :=
  fun disk index old (calls, state) =>
    let (result, sector, state) := fallback disk index old state
    (result, sector, calls ++ [(disk, index)], state)

theorem length_div_sectorSize {data : Bytes} {n : Nat} (h : data.length = n * sectorSize) :
    data.length / sectorSize = n := by
  rw [h]
  exact Nat.mul_div_cancel n (by decide)

namespace Lineage

variable {l : Lineage} {id : NodeId} {disk : DiskHandle} {index first : UInt64} {n : Nat}
variable {data buffer : Bytes}

def Spans (l : Lineage) (disk : DiskHandle) (first : UInt64) (count : Nat) : Prop :=
  ∃ found, l.disk? disk = some found ∧ first.toNat + count ≤ found.sectorCount.toNat

theorem requireRun_ok_iff_spans (hn : 0 < n) :
    l.requireRun disk first (n * sectorSize) = .ok () ↔ l.Spans disk first n := by
  have hlength : n * sectorSize / sectorSize = n := Nat.mul_div_cancel n (by decide)
  have hpos : n * sectorSize ≠ 0 := Nat.mul_ne_zero (by omega) (by decide)
  rw [requireRun_ok_iff, hlength]
  unfold Spans sectorCount
  cases l.disk? disk with
  | none => simp
  | some found => simp [hpos]

theorem Spans.toNat_add (h : l.Spans disk first n) {i : Nat} (hi : i < n) :
    (first + .ofNat i).toNat = first.toNat + i := by
  obtain ⟨found, -, hrange⟩ := h
  have hlt := found.sectorCount.toNat_lt
  rw [UInt64.toNat_add, UInt64.toNat_ofNat', Nat.mod_eq_of_lt (a := i) (by omega)]
  apply Nat.mod_eq_of_lt
  omega

/-! Writes. -/

def singleWrites (id : NodeId) (disk : DiskHandle) (first : UInt64) (count : Nat) (data : Bytes) :
    List Call :=
  (List.range count).map fun i => .write id disk (first + .ofNat i) (sectorAt data i)

theorem singleWrites_succ (id : NodeId) (disk : DiskHandle) (first : UInt64) (count : Nat)
    (data : Bytes) :
    singleWrites id disk first (count + 1) data
      =
    .write id disk first (data.take sectorSize)
      :: singleWrites id disk (first + 1) count (data.drop sectorSize) := by
  unfold singleWrites
  rw [List.range_succ_eq_map, List.map_cons, List.map_map, sectorAt_zero]
  simp only [Function.comp_def, index_zero, index_succ, sectorAt_drop]

theorem writeEach_singly {count : Nat} (h : (l.writeEach id disk count first data).1 = .ok ()) :
    (l.writeEach id disk count first data).2
        = l.performAll (singleWrites id disk first count data) ∧
      ∀ made ∈ l.trace (singleWrites id disk first count data), made.1.outcome made.2 = .ok () := by
  induction count generalizing l first data with
  | zero => exact ⟨rfl, by simp [singleWrites, trace]⟩
  | succ count ih =>
    rw [singleWrites_succ, performAll_cons, trace]
    rw [writeEach] at h ⊢
    cases hone : l.write id disk first (data.take sectorSize) with
    | mk result m =>
      have hm : l.perform (.write id disk first (data.take sectorSize)) = m :=
        congrArg Prod.snd hone
      have houtcome : l.outcome (.write id disk first (data.take sectorSize)) = result :=
        congrArg Prod.fst hone
      rw [hone] at h
      cases result with
      | error e => simp at h
      | ok =>
        obtain ⟨hrest, htrace⟩ := ih h
        rw [hm]
        refine ⟨hrest, ?_⟩
        intro made hmade
        rw [List.mem_cons] at hmade
        cases hmade with
        | inl heq =>
          rw [heq]
          exact houtcome
        | inr hlater => exact htrace made hlater

theorem writeRun_of_ok (hdata : data.length = n * sectorSize)
    (h : (l.writeRun id disk first data).1 = .ok ()) :
    l.requireRun disk first (n * sectorSize) = .ok () ∧ l.isFrozen id = .ok false ∧
      l.writeRun id disk first data = l.writeEach id disk n first data := by
  unfold writeRun at h ⊢
  rw [length_div_sectorSize hdata, hdata] at h ⊢
  split at h
  · simp at h
  · next hrequire =>
    split at h
    · simp at h
    · simp at h
    · next hopen => exact ⟨hrequire, hopen, rfl⟩

theorem writeRun_ok_iff (hn : 0 < n) (hdata : data.length = n * sectorSize) :
    (l.writeRun id disk first data).1 = .ok () ↔
      l.Spans disk first n ∧ l.isFrozen id = .ok false := by
  constructor
  · intro h
    obtain ⟨hrequire, hopen, -⟩ := writeRun_of_ok hdata h
    exact ⟨(requireRun_ok_iff_spans hn).mp hrequire, hopen⟩
  · intro h
    obtain ⟨hspans, hopen⟩ := h
    have hrequire := (requireRun_ok_iff_spans hn).mpr hspans
    obtain ⟨node, hid, hfrozen⟩ := isFrozen_eq_ok_iff.mp hopen
    obtain ⟨found, hfound, hrange⟩ := hspans
    have hdisk : l.sectorCount disk = .ok found.sectorCount := by rw [sectorCount, hfound]
    unfold writeRun
    rw [length_div_sectorSize hdata, hdata, hrequire, hopen]
    obtain ⟨m, hm, -⟩ := writeEach_stores hid hfrozen hdisk (fun _ => hrange) hdata
    exact congrArg Prod.fst hm

theorem writeRun_singly (hdata : data.length = n * sectorSize)
    (h : (l.writeRun id disk first data).1 = .ok ()) :
    (l.writeRun id disk first data).2 = l.performAll (singleWrites id disk first n data) ∧
      ∀ made ∈ l.trace (singleWrites id disk first n data), made.1.outcome made.2 = .ok () := by
  obtain ⟨-, -, heach⟩ := writeRun_of_ok hdata h
  rw [heach] at h ⊢
  exact writeEach_singly h

/-! Reads. -/

section

variable {τ : Type} {fallback : Fallback τ} {state : τ}

/--
Whether `done` is what comes of reading `n` sectors one by one, each into its own part of `buffer`,
up to the first that cannot be had. So `tried` sectors are read, and `states i` is the state that
the sector `i` is read in.
-/
structure ReadsSingly (l : Lineage) (id : NodeId) (disk : DiskHandle) (first : UInt64)
    (fallback : Fallback τ) (buffer : Bytes) (n tried : Nat) (states : Nat → τ)
    (done : Except DiskError Unit × Bytes × τ) : Prop where
  started : tried = 0 → n = 0 ∧ done.1 = .ok ()
  tried_le : tried ≤ n
  complete : done.1 = .ok () → tried = n
  read : ∀ i < tried, l.read id disk (first + .ofNat i) (sectorAt buffer i) fallback (states i)
    = (if i + 1 < tried then .ok () else done.1, sectorAt done.2.1 i, states (i + 1))
  length : done.2.1.length = buffer.length
  untouched : done.2.1.drop (tried * sectorSize) = buffer.drop (tried * sectorSize)
  last : states tried = done.2.2

def fallbackCalls (l : Lineage) (id : NodeId) (disk : DiskHandle) (first : UInt64) (tried : Nat) :
    List (DiskHandle × UInt64) :=
  ((List.range tried).map fun i => (disk, first + .ofNat i)).filter fun call =>
    l.owner? id call.1 call.2 = .ok none

theorem fallbackCalls_succ (l : Lineage) (id : NodeId) (disk : DiskHandle) (first : UInt64)
    (tried : Nat) :
    l.fallbackCalls id disk first (tried + 1)
      =
    l.fallbackCalls id disk first 1 ++ l.fallbackCalls id disk (first + 1) tried := by
  unfold fallbackCalls
  rw [List.range_succ_eq_map, List.map_cons, List.map_map, ← List.filter_append]
  simp only [Function.comp_def, index_succ]
  rfl

theorem fallbackCalls_one (l : Lineage) (id : NodeId) (disk : DiskHandle) (first : UInt64) :
    l.fallbackCalls id disk first 1
      = if l.owner? id disk first = .ok none then [(disk, first)] else [] := by
  unfold fallbackCalls
  rw [List.range_one, List.map_singleton, index_zero]
  by_cases howner : l.owner? id disk first = .ok none <;> simp [howner]

theorem length_of_read {result : Except DiskError Unit} {bytes : Bytes} {last : τ}
    (hbuffer : sectorSize ≤ buffer.length)
    (h : l.read id disk index (buffer.take sectorSize) fallback state = (result, bytes, last)) :
    bytes.length = sectorSize := by
  have htaken : (buffer.take sectorSize).length = sectorSize := List.length_take_of_le hbuffer
  obtain rfl := congrArg (·.2.1) h
  unfold Lineage.read
  split
  · exact htaken
  · split
    · exact htaken
    · split
      · exact htaken
      · next sector _ => exact sector.length_eq
      · exact Sector.length_eq _

theorem read_logged (hbuffer : buffer.length = sectorSize) (calls : List (DiskHandle × UInt64)) :
    l.read id disk index buffer fallback.logged (calls, state)
      =
    let (result, bytes, state) := l.read id disk index buffer fallback state
    (result, bytes, calls ++ l.fallbackCalls id disk index 1, state) := by
  rw [fallbackCalls_one]
  unfold Lineage.read owner?
  cases l.requireSector disk index with
  | error e => simp
  | ok =>
    have hold : Sector.ofBytes? buffer = some ⟨buffer, hbuffer⟩ := by
      rw [Sector.ofBytes?, dif_pos hbuffer]
    rw [hold]
    dsimp only
    cases (l.trail id).lookup (disk, index) with
    | error e => simp [Except.map]
    | ok found =>
      cases found with
      | none => rfl
      | some found => simp [Except.map]

theorem ReadsSingly.nil : ReadsSingly l id disk first fallback buffer 0 0 (fun _ => state)
    (.ok (), buffer, state) where
  started _ := ⟨rfl, rfl⟩
  tried_le := Nat.le_refl 0
  complete _ := rfl
  read i hi := by omega
  length := rfl
  untouched := rfl
  last := rfl

theorem ReadsSingly.failed {e : DiskError} {bytes : Bytes} {next : τ}
    (hbuffer : sectorSize ≤ buffer.length)
    (hone : l.read id disk first (buffer.take sectorSize) fallback state = (.error e, bytes, next)) :
    ReadsSingly l id disk first fallback buffer (n + 1) 1 (fun i => if i = 0 then state else next)
      (.error e, bytes ++ buffer.drop sectorSize, next) := by
  have hbytes := length_of_read hbuffer hone
  constructor
  · simp
  · exact Nat.succ_pos n
  · simp
  · intro i hi
    obtain rfl : i = 0 := by omega
    rw [index_zero, sectorAt_zero, sectorAt_zero, List.take_left' hbytes]
    exact hone
  · dsimp only
    rw [List.length_append, List.length_drop, hbytes]
    omega
  · rw [Nat.one_mul, List.drop_left' hbytes]
  · rfl

theorem ReadsSingly.cons {bytes rest : Bytes} {next last : τ} {tried : Nat} {states : Nat → τ}
    {result : Except DiskError Unit} (hbuffer : sectorSize ≤ buffer.length)
    (hone : l.read id disk first (buffer.take sectorSize) fallback state = (.ok (), bytes, next))
    (hnext : states 0 = next)
    (hrest : ReadsSingly l id disk (first + 1) fallback (buffer.drop sectorSize) n tried states
      (result, rest, last)) :
    ReadsSingly l id disk first fallback buffer (n + 1) (tried + 1)
      (fun | 0 => state | i + 1 => states i) (result, bytes ++ rest, last) := by
  have hbytes := length_of_read hbuffer hone
  have hlength := hrest.length
  have huntouched := hrest.untouched
  dsimp only at hlength huntouched
  rw [List.length_drop] at hlength
  constructor
  · simp
  · exact Nat.succ_le_succ hrest.tried_le
  · exact fun hok => congrArg (· + 1) (hrest.complete hok)
  · intro i hi
    cases i with
    | zero =>
      rw [index_zero, sectorAt_zero, sectorAt_zero, List.take_left' hbytes]
      dsimp only
      rw [hone, hnext]
      split
      · rfl
      · next hlast =>
        obtain ⟨-, rfl⟩ := hrest.started (by omega)
        rfl
    | succ i =>
      have hread := hrest.read i (by omega)
      rw [sectorAt_drop] at hread
      dsimp only at hread ⊢
      rw [index_succ, hread, ← sectorAt_drop (bytes ++ rest), List.drop_left' hbytes]
      simp only [Nat.add_lt_add_iff_right]
  · dsimp only
    rw [List.length_append, hbytes, hlength]
    omega
  · dsimp only
    rw [Nat.add_one_mul, Nat.add_comm, ← List.drop_drop, ← List.drop_drop, List.drop_left' hbytes]
    exact huntouched
  · exact hrest.last

theorem readEach_singly (l : Lineage) (id : NodeId) (disk : DiskHandle) (first : UInt64)
    (fallback : Fallback τ) (count : Nat) (hlength : buffer.length = count * sectorSize)
    (calls : List (DiskHandle × UInt64)) (state : τ) :
    ∃ tried states, states 0 = state ∧
      ReadsSingly l id disk first fallback buffer count tried states
        (l.readEach id disk fallback count first buffer state) ∧
      l.readEach id disk fallback.logged count first buffer (calls, state)
        =
      let (result, bytes, last) := l.readEach id disk fallback count first buffer state
      (result, bytes, calls ++ l.fallbackCalls id disk first tried, last) := by
  induction count generalizing first buffer calls state with
  | zero =>
    refine ⟨0, fun _ => state, rfl, .nil, ?_⟩
    simp [readEach, fallbackCalls]
  | succ count ih =>
    rw [Nat.add_one_mul] at hlength
    have hbuffer : sectorSize ≤ buffer.length := by omega
    have htaken : (buffer.take sectorSize).length = sectorSize := List.length_take_of_le hbuffer
    rw [readEach, readEach, read_logged htaken calls]
    cases hone : l.read id disk first (buffer.take sectorSize) fallback state with
    | mk result done =>
      obtain ⟨bytes, next⟩ := done
      cases result with
      | error e => exact ⟨1, _, rfl, .failed hbuffer hone, rfl⟩
      | ok =>
        have hrest : (buffer.drop sectorSize).length = count * sectorSize := by
          rw [List.length_drop]
          omega
        obtain ⟨tried, states, hnext, hsingly, hcalls⟩ :=
          ih (first + 1) hrest (calls ++ l.fallbackCalls id disk first 1) next
        dsimp only
        rw [hcalls, List.append_assoc, ← fallbackCalls_succ]
        exact ⟨tried + 1, _, rfl, .cons hbuffer hone hnext hsingly, rfl⟩

end

/--
A run of at least one sector agrees with its sectors one by one. It is written if and only if it
lies within the disk and the node is there and not frozen, and else nothing is written at all.
-/
theorem runs_eq_singles (l : Lineage) (id : NodeId) (disk : DiskHandle) (first : UInt64) (n : Nat)
    (hn : 0 < n) (buffer : Bytes) (hbuffer : buffer.length = n * sectorSize) :
    ((l.writeRun id disk first buffer).1 = .ok () ↔
      l.Spans disk first n ∧ ∃ node, l.node? id = some node ∧ node.frozen = false) ∧
    ((l.writeRun id disk first buffer).1 = .ok () →
      (l.writeRun id disk first buffer).2 = l.performAll (singleWrites id disk first n buffer) ∧
        ∀ made ∈ l.trace (singleWrites id disk first n buffer), made.1.outcome made.2 = .ok ()) ∧
    ((l.writeRun id disk first buffer).1 ≠ .ok () → (l.writeRun id disk first buffer).2 = l) ∧
    (l.Spans disk first n → ∀ i < n, (first + .ofNat i).toNat = first.toNat + i ∧
      (l.owner? id disk (first + .ofNat i) = .ok none ↔
        ∃ path, l.Climbs (some id) path ∧
          ∀ entry ∈ path, entry.2.overlay.find? (disk, first + .ofNat i) = none)) ∧
    ∀ (τ : Type) (fallback : Fallback τ) (state : τ),
      (l.Spans disk first n → ∃ tried states, states 0 = state ∧
        ReadsSingly l id disk first fallback buffer n tried states
          (l.readRun id disk first buffer fallback state) ∧
        l.readRun id disk first buffer fallback.logged ([], state)
          =
        let (result, bytes, last) := l.readRun id disk first buffer fallback state
        (result, bytes, l.fallbackCalls id disk first tried, last)) ∧
      (¬l.Spans disk first n →
        ∃ e, l.readRun id disk first buffer fallback state = (.error e, buffer, state)) := by
  have hrequire : l.requireRun disk first (n * sectorSize) = .ok () ↔ l.Spans disk first n :=
    requireRun_ok_iff_spans hn
  refine ⟨?_, writeRun_singly hbuffer, ?_, ?_, ?_⟩
  · rw [writeRun_ok_iff hn hbuffer, isFrozen_eq_ok_iff]
  · intro hrefused
    cases writeRun_cases l id disk first buffer with
    | inl hcase =>
      obtain ⟨e, hcase⟩ := hcase
      rw [hcase]
    | inr hcase =>
      obtain ⟨node, m, -, -, hcase, -⟩ := hcase
      rw [hcase] at hrefused
      contradiction
  · intro hspans i hi
    have htoNat := hspans.toNat_add hi
    refine ⟨htoNat, ?_⟩
    obtain ⟨found, hfound, hrange⟩ := hspans
    have hindex : l.requireSector disk (first + .ofNat i) = .ok () := by
      rw [requireSector_iff_of_disk? hfound, UInt64.lt_iff_toNat_lt, htoNat]
      omega
    rw [owner?_eq_ok_none_iff, hindex]
    exact and_iff_right rfl
  · intro τ fallback state
    unfold readRun
    constructor
    · intro hspans
      rw [length_div_sectorSize hbuffer, hbuffer, hrequire.mpr hspans]
      exact readEach_singly l id disk first fallback n hbuffer [] state
    · intro hbeyond
      cases herror : l.requireRun disk first buffer.length with
      | error e => exact ⟨e, rfl⟩
      | ok =>
        rw [hbuffer] at herror
        exact absurd (hrequire.mp herror) hbeyond

-- A disk that ends right below the greatest index, and a node that sees one of its last sectors
-- through its parent.
def nearTop : Lineage := performAll {} [
  .attach "disk" 18446744073709551615,
  .addRoot,
  .write ⟨0, 0⟩ ⟨0⟩ 18446744073709551613 (Sector.fill 7).bytes,
  .fork ⟨0, 0⟩]

theorem runs_eq_singles_nearTop :
    0 < 3 ∧ (List.replicate (3 * sectorSize) (5 : UInt8)).length = 3 * sectorSize ∧
      (nearTop.writeRun ⟨1, 0⟩ ⟨0⟩ 18446744073709551612 (List.replicate (3 * sectorSize) 5)).2
        = nearTop.performAll (singleWrites ⟨1, 0⟩ ⟨0⟩ 18446744073709551612 3
          (List.replicate (3 * sectorSize) 5)) ∧
      (nearTop.writeRun ⟨1, 0⟩ ⟨0⟩ 18446744073709551612 (List.replicate (4 * sectorSize) 5)).2
        = nearTop ∧
      nearTop.fallbackCalls ⟨1, 0⟩ ⟨0⟩ 18446744073709551612 3
        = [(⟨0⟩, 18446744073709551612), (⟨0⟩, 18446744073709551614)] := by
  have hlength (n : Nat) := List.length_replicate (n := n * sectorSize) (a := (5 : UInt8))
  have hdisk : nearTop.disk? ⟨0⟩ = some ⟨"disk", 18446744073709551615⟩ := by decide +kernel
  have hopen : nearTop.isFrozen ⟨1, 0⟩ = .ok false := by decide +kernel
  obtain ⟨haccept, hsingly, -⟩ := runs_eq_singles nearTop ⟨1, 0⟩ ⟨0⟩ 18446744073709551612 3
    (by decide) _ (hlength 3)
  obtain ⟨hrefuse, -, hsame, -⟩ := runs_eq_singles nearTop ⟨1, 0⟩ ⟨0⟩ 18446744073709551612 4
    (by decide) _ (hlength 4)
  refine ⟨by decide, hlength 3, (hsingly (haccept.mpr ⟨?_, ?_⟩)).1, hsame ?_, by decide +kernel⟩
  · exact ⟨_, hdisk, by decide⟩
  · exact isFrozen_eq_ok_iff.mp hopen
  · rw [ne_eq, hrefuse]
    intro h
    obtain ⟨found, hfound, hrange⟩ := h.1
    cases hdisk.symm.trans hfound
    exact absurd hrange (by decide)

end Lineage

end MachineFork
