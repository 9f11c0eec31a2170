import MachineFork.Proofs.Lineage.References

/-!
This module contains what the writing of sectors does to a lineage. A run that is accepted is stored
as a whole in the overlay of a node that is live and not frozen; a run that is refused changes
nothing.
-/

namespace MachineFork

def runSector? (disk : DiskHandle) (first : UInt64) (data : Bytes) (key : DiskHandle × UInt64) :
    Option Bytes :=
  let offset := key.2.toNat - first.toNat
  if key.1 = disk ∧ first ≤ key.2 ∧ offset < data.length / sectorSize then
    some ((data.drop (offset * sectorSize)).take sectorSize)
  else
    none

namespace Lineage

variable {l m : Lineage} {id : NodeId} {node : Node} {disk : DiskHandle} {first : UInt64}
variable {data : Bytes} {held : NodeId → Bool} {owed : NodeId → Nat}

/-! What is refused. -/

theorem requireSector_ok_iff {index : UInt64} :
    l.requireSector disk index = .ok () ↔
      ∃ sectorCount, l.sectorCount disk = .ok sectorCount ∧ index < sectorCount := by
  unfold requireSector
  cases l.sectorCount disk with
  | error e => simp
  | ok sectorCount =>
    simp only [Except.ok.injEq, exists_eq_left']
    split <;> simp_all

theorem requireRun_ok_iff {length : Nat} :
    l.requireRun disk first length = .ok () ↔
      ∃ sectorCount, l.sectorCount disk = .ok sectorCount ∧ length % sectorSize = 0 ∧
        (length = 0 ∨ first.toNat + length / sectorSize ≤ sectorCount.toNat) := by
  unfold requireRun
  split
  · next hlength => simp [hlength]
  · next hlength =>
    rw [not_not] at hlength
    split
    · next hzero =>
      subst hzero
      cases l.sectorCount disk with
      | error e => simp [Except.map]
      | ok sectorCount => simp [Except.map]
    · next hpos =>
      dsimp only
      rw [requireSector_ok_iff]
      have hcount : 0 < length / sectorSize := by
        unfold sectorSize at *
        omega
      constructor
      · intro h
        obtain ⟨sectorCount, hdisk, hlt⟩ := h
        refine ⟨sectorCount, hdisk, hlength, .inr ?_⟩
        rw [UInt64.lt_iff_toNat_lt, UInt64.toNat_ofNat'] at hlt
        have := sectorCount.toNat_lt
        simp only [UInt64.size] at hlt
        omega
      · intro h
        obtain ⟨sectorCount, hdisk, _, hrange⟩ := h
        refine ⟨sectorCount, hdisk, ?_⟩
        rw [UInt64.lt_iff_toNat_lt, UInt64.toNat_ofNat']
        have := sectorCount.toNat_lt
        simp only [UInt64.size]
        omega

/-! What is stored. -/

def Stores (l : Lineage) (id : NodeId) (disk : DiskHandle) (first : UInt64) (data : Bytes)
    (m : Lineage) : Prop :=
  ∃ node overlay, l.node? id = some node ∧ m.disks = l.disks ∧
    (∀ other, m.node? other = if other = id then some { node with overlay } else l.node? other) ∧
    ∀ key, (overlay.find? key).map (·.bytes)
      = (runSector? disk first data key).or ((node.overlay.find? key).map (·.bytes))

theorem node?_store (h : l.node? id = some node) (key : DiskHandle × UInt64) (sector : Sector)
    (other : NodeId) :
    (l.store id node key sector).node? other
      =
    if other = id then some { node with overlay := node.overlay.insert key sector }
    else l.node? other := by
  rw [← node?_setNode_of_live h]
  unfold store
  dsimp only
  split <;> rfl

@[simp]
theorem disks_store (key : DiskHandle × UInt64) (sector : Sector) :
    (l.store id node key sector).disks = l.disks := by
  unfold store
  dsimp only
  split <;> rfl

theorem sectorCount_of_disks_eq (h : m.disks = l.disks) (disk : DiskHandle) :
    m.sectorCount disk = l.sectorCount disk := by
  unfold sectorCount disk?
  rw [h]

theorem Counted.store (h : Counted l held owed) (hid : l.node? id = some node)
    (key : DiskHandle × UInt64) (sector : Sector) :
    Counted (l.store id node key sector) held owed := by
  have hset : Counted (l.setNode id { node with overlay := node.overlay.insert key sector })
      held owed := by
    apply h.setNode hid _
    · rfl
    · rfl
    · exact fun hfrozen => hfrozen
    · rfl
    · exact fun _ _ => rfl
  unfold Lineage.store
  dsimp only
  split
  · exact hset.of_slots_eq rfl rfl
  · exact hset

theorem write_cases (l : Lineage) (id : NodeId) (disk : DiskHandle) (index : UInt64)
    (data : Bytes) :
    (∃ e, l.write id disk index data = (.error e, l)) ∨
      ∃ node sector, l.node? id = some node ∧ node.frozen = false ∧ sector.bytes = data ∧
        l.write id disk index data = (.ok (), l.store id node (disk, index) sector) := by
  unfold write
  split
  · exact .inl ⟨_, rfl⟩
  · split
    · exact .inl ⟨_, rfl⟩
    · next sector hsector =>
      split
      · exact .inl ⟨_, rfl⟩
      · next node hnode =>
        split
        · exact .inl ⟨_, rfl⟩
        · next hfrozen =>
          refine .inr ⟨node, sector, hnode, by simpa using hfrozen, ?_, rfl⟩
          apply Sector.bytes_of_ofBytes?_eq_some hsector

theorem write_eq_ok {sectorCount index : UInt64} (hdisk : l.sectorCount disk = .ok sectorCount)
    (hindex : index < sectorCount) (hid : l.node? id = some node) (hfrozen : node.frozen = false)
    (sector : Sector) :
    l.write id disk index sector.bytes = (.ok (), l.store id node (disk, index) sector) := by
  have hrequire : l.requireSector disk index = .ok () := requireSector_ok_iff.mpr ⟨_, hdisk, hindex⟩
  unfold write
  simp [hrequire, hid, hfrozen]

theorem runSector?_nil (key : DiskHandle × UInt64) : runSector? disk first [] key = none := by
  simp [runSector?]

theorem runSector?_single (sector : Sector) (key : DiskHandle × UInt64) :
    runSector? disk first sector.bytes key
      =
    if (disk, first) = key then some sector.bytes else none := by
  obtain ⟨disk', index⟩ := key
  have hcount : sector.bytes.length / sectorSize = 1 := by
    rw [sector.length_eq]
    rfl
  unfold runSector?
  simp only [hcount, Prod.mk.injEq]
  by_cases hkey : disk = disk' ∧ first = index
  · obtain ⟨rfl, rfl⟩ := hkey
    simp [← sector.length_eq]
  · rw [if_neg hkey, if_neg]
    intro h
    apply hkey
    rw [UInt64.le_iff_toNat_le] at h
    refine ⟨h.1.symm, UInt64.toNat_inj.mp (by omega)⟩

theorem runSector?_cons (hlength : sectorSize ≤ data.length) (hfirst : first.toNat + 1 < UInt64.size)
    (key : DiskHandle × UInt64) :
    runSector? disk first data key
      =
    (runSector? disk (first + 1) (data.drop sectorSize) key).or
      (if (disk, first) = key then some (data.take sectorSize) else none) := by
  obtain ⟨disk', index⟩ := key
  have hcount : data.length / sectorSize = (data.drop sectorSize).length / sectorSize + 1 := by
    rw [List.length_drop]
    unfold sectorSize at *
    omega
  have hnext : (first + 1).toNat = first.toNat + 1 := by
    rw [UInt64.toNat_add]
    simp only [UInt64.size] at hfirst
    simp
    omega
  unfold runSector?
  simp only [hcount, Prod.mk.injEq, UInt64.le_iff_toNat_le, hnext]
  by_cases hdisk : disk' = disk
  · cases Nat.lt_or_ge first.toNat index.toNat with
    | inl hlt =>
      have hne : first ≠ index := by
        intro heq
        subst heq
        omega
      have hoffset : index.toNat - first.toNat = index.toNat - (first.toNat + 1) + 1 := by omega
      have hle : first.toNat ≤ index.toNat := by omega
      have hlt' : first.toNat + 1 ≤ index.toNat := by omega
      simp only [hoffset, hdisk, hne, hle, hlt', Nat.add_lt_add_iff_right, true_and, and_false,
        if_false, Option.or_none, List.drop_drop]
      rw [Nat.add_one_mul, Nat.add_comm sectorSize]
    | inr hge =>
      have hpast : ¬ first.toNat + 1 ≤ index.toNat := by omega
      by_cases heq : first = index
      · subst heq
        simp [hdisk, hpast]
      · have hne : first.toNat ≠ index.toNat := by
          rw [ne_eq, UInt64.toNat_inj]
          exact heq
        have hpast' : ¬ first.toNat ≤ index.toNat := by omega
        simp [hpast, hpast', heq]
  · simp [hdisk, Ne.symm hdisk]

theorem stores_store (h : l.node? id = some node) (sector : Sector) :
    Stores l id disk first sector.bytes (l.store id node (disk, first) sector) := by
  refine ⟨node, _, h, by simp, node?_store h _ sector, ?_⟩
  intro key
  rw [Table.find?_insert, runSector?_single]
  split <;> simp

theorem Stores.trans {n : Lineage} {sector : Sector} (hone : Stores l id disk first sector.bytes m)
    (hrest : Stores m id disk (first + 1) (data.drop sectorSize) n)
    (hsector : sector.bytes = data.take sectorSize) (hfirst : first.toNat + 1 < UInt64.size) :
    Stores l id disk first data n := by
  obtain ⟨node, overlay, hnode, hdisks, hothers, hsectors⟩ := hone
  obtain ⟨node', overlay', hnode', hdisks', hothers', hsectors'⟩ := hrest
  have hsame : node' = { node with overlay } := by
    rw [hothers, if_pos rfl, Option.some.injEq] at hnode'
    exact hnode'.symm
  subst hsame
  refine ⟨node, overlay', hnode, hdisks'.trans hdisks, ?_, ?_⟩
  · intro other
    rw [hothers', hothers]
    split <;> rfl
  · intro key
    have hlength : sectorSize ≤ data.length := by
      have := sector.length_eq
      rw [hsector, List.length_take] at this
      omega
    rw [hsectors', runSector?_cons hlength hfirst, ← hsector]
    dsimp only
    rw [hsectors, runSector?_single]
    rw [Option.or_assoc]

theorem writeEach_stores {count : Nat} {sectorCount : UInt64} (hid : l.node? id = some node)
    (hfrozen : node.frozen = false) (hdisk : l.sectorCount disk = .ok sectorCount)
    (hrange : 0 < count → first.toNat + count ≤ sectorCount.toNat)
    (hlength : data.length = count * sectorSize) :
    ∃ m, l.writeEach id disk count first data = (.ok (), m) ∧ Stores l id disk first data m := by
  induction count generalizing l node first data with
  | zero =>
    have hnil : data = [] := by
      apply List.eq_nil_of_length_eq_zero
      omega
    subst hnil
    refine ⟨l, rfl, node, node.overlay, hid, rfl, ?_, ?_⟩
    · intro other
      split
      · next heq =>
        subst heq
        exact hid
      · rfl
    · intro key
      rw [runSector?_nil, Option.none_or]
  | succ count ih =>
    rw [Nat.add_one_mul] at hlength
    specialize hrange (Nat.succ_pos count)
    have hlt := sectorCount.toNat_lt
    have hnext : (first + 1).toNat = first.toNat + 1 := by
      rw [UInt64.toNat_add]
      simp
      omega
    obtain ⟨sector, hsector⟩ : ∃ sector : Sector, sector.bytes = data.take sectorSize := by
      refine ⟨⟨data.take sectorSize, ?_⟩, rfl⟩
      rw [List.length_take]
      omega
    have hindex : first < sectorCount := by
      rw [UInt64.lt_iff_toNat_lt]
      omega
    have hone : Stores l id disk first sector.bytes (l.store id node (disk, first) sector) :=
      stores_store hid sector
    have hstored : (l.store id node (disk, first) sector).node? id
        = some { node with overlay := node.overlay.insert (disk, first) sector } := by
      rw [node?_store hid, if_pos rfl]
    have hdiskStored : (l.store id node (disk, first) sector).sectorCount disk
        = .ok sectorCount := by
      rw [sectorCount_of_disks_eq (disks_store _ _), hdisk]
    have hrangeNext : 0 < count → (first + 1).toNat + count ≤ sectorCount.toNat := by omega
    have hlengthRest : (data.drop sectorSize).length = count * sectorSize := by
      rw [List.length_drop]
      omega
    obtain ⟨m, hm, hrest⟩ := ih hstored hfrozen hdiskStored hrangeNext hlengthRest
    refine ⟨m, ?_, hone.trans hrest hsector ?_⟩
    · unfold writeEach
      rw [← hsector, write_eq_ok hdisk hindex hid hfrozen]
      exact hm
    · simp only [UInt64.size]
      omega

/-! Whatever storing a sector preserves, writing preserves. -/

section

variable {P : Lineage → Prop}
  (hstore : ∀ {l id node} key sector, l.node? id = some node →
    l.requireSector key.1 key.2 = .ok () → P l → P (l.store id node key sector))

include hstore

theorem write_preserves (h : P l) (id : NodeId) (disk : DiskHandle) (index : UInt64)
    (data : Bytes) : P (l.write id disk index data).2 := by
  unfold Lineage.write
  split
  · exact h
  · next hrequire =>
    split
    · exact h
    · split
      · exact h
      · next node hid =>
        split
        · exact h
        · exact hstore (disk, index) _ hid hrequire h

theorem writeEach_preserves (h : P l) (id : NodeId) (disk : DiskHandle) (count : Nat)
    (index : UInt64) (data : Bytes) : P (l.writeEach id disk count index data).2 := by
  induction count generalizing l index data with
  | zero => exact h
  | succ count ih =>
    have hone := write_preserves hstore h id disk index (data.take sectorSize)
    unfold Lineage.writeEach
    split
    · next e m heq =>
      rw [heq] at hone
      exact hone
    · next m heq =>
      rw [heq] at hone
      apply ih hone

theorem writeRun_preserves (h : P l) (id : NodeId) (disk : DiskHandle) (first : UInt64)
    (data : Bytes) : P (l.writeRun id disk first data).2 := by
  unfold Lineage.writeRun
  split
  · exact h
  · split
    · exact h
    · exact h
    · apply writeEach_preserves hstore h

end

theorem Counted.write (h : Counted l held owed) (id : NodeId) (disk : DiskHandle) (index : UInt64)
    (data : Bytes) : Counted (l.write id disk index data).2 held owed :=
  write_preserves (P := (Counted · held owed)) (fun key sector hid _ h => h.store hid key sector) h id
    disk index data

theorem Counted.writeRun (h : Counted l held owed) (id : NodeId) (disk : DiskHandle)
    (first : UInt64) (data : Bytes) : Counted (l.writeRun id disk first data).2 held owed :=
  writeRun_preserves (P := (Counted · held owed)) (fun key sector hid _ h => h.store hid key sector) h
    id disk first data

theorem writeRun_cases (l : Lineage) (id : NodeId) (disk : DiskHandle) (first : UInt64)
    (data : Bytes) :
    (∃ e, l.writeRun id disk first data = (.error e, l)) ∨
      ∃ node m, l.node? id = some node ∧ node.frozen = false ∧
        l.writeRun id disk first data = (.ok (), m) ∧ Stores l id disk first data m := by
  unfold writeRun
  split
  · exact .inl ⟨_, rfl⟩
  · next hrequire =>
    split
    · exact .inl ⟨_, rfl⟩
    · exact .inl ⟨_, rfl⟩
    · next hopen =>
      refine .inr ?_
      obtain ⟨node, hid, hfrozen⟩ : ∃ node, l.node? id = some node ∧ node.frozen = false := by
        unfold isFrozen Lineage.node at hopen
        split at hopen
        · next node hid =>
          exact ⟨node, hid, by simpa [Except.map] using hopen⟩
        · simp [Except.map] at hopen
      obtain ⟨sectorCount, hdisk, haligned, hrange⟩ := requireRun_ok_iff.mp hrequire
      have hlength : data.length = data.length / sectorSize * sectorSize := by
        unfold sectorSize at *
        omega
      have hfits : 0 < data.length / sectorSize →
          first.toNat + data.length / sectorSize ≤ sectorCount.toNat := by
        intro hpos
        cases hrange with
        | inl hzero => simp [hzero] at hpos
        | inr hle => exact hle
      obtain ⟨m, hm, hstores⟩ := writeEach_stores hid hfrozen hdisk hfits hlength
      exact ⟨node, m, hid, hfrozen, hm, hstores⟩

end Lineage

end MachineFork
