import Mathlib.Algebra.Order.BigOperators.Group.List
import Mathlib.Algebra.Order.Ring.Nat
import MachineFork.Proofs.Lineage.Calls

/-!
This module contains what the statistics of a lineage stand for: the number of live nodes, and the
number and size of the sectors that they hold. This is so after any calls, whoever makes them.
-/

namespace MachineFork

theorem sum_modify {α : Type} {xs : List α} {i : Nat} {a : α} (h : xs[i]? = some a)
    (size : α → Nat) (f : α → α) :
    ((xs.modify i f).map size).sum + size a = (xs.map size).sum + size (f a) := by
  induction xs generalizing i with
  | nil => simp at h
  | cons x rest ih =>
    cases i with
    | zero =>
      rw [List.getElem?_cons_zero, Option.some.injEq] at h
      subst h
      simp only [List.modify_zero_cons, List.map_cons, List.sum_cons]
      omega
    | succ i =>
      rw [List.getElem?_cons_succ] at h
      have := ih h
      simp only [List.modify_succ_cons, List.map_cons, List.sum_cons]
      omega

namespace Lineage

variable {l : Lineage} {id : NodeId} {node old : Node}

def liveCount (l : Lineage) : Nat :=
  l.slots.countP (·.node.isSome)

theorem heldSectors_eq_sum (l : Lineage) :
    l.heldSectors = (l.slots.toList.map Slot.heldSectors).sum := by
  unfold heldSectors
  rw [← Array.foldr_toList, List.sum, List.foldr_map]

/-! Nothing is live and nothing is held where there are no nodes. -/

theorem node_eq_none_of_mem (h : ∀ id, l.node? id = none) {slot : Slot} (hmem : slot ∈ l.slots) :
    slot.node = none := by
  obtain ⟨i, hslot⟩ := Array.getElem?_of_mem hmem
  have := h ⟨i, slot.generation⟩
  simpa [node?, hslot] using this

theorem liveCount_eq_zero (h : ∀ id, l.node? id = none) : l.liveCount = 0 := by
  unfold liveCount
  rw [Array.countP_eq_zero]
  intro slot hmem
  rw [node_eq_none_of_mem h hmem]
  simp

theorem heldSectors_eq_zero (h : ∀ id, l.node? id = none) : l.heldSectors = 0 := by
  rw [heldSectors_eq_sum]
  apply List.sum_eq_zero
  intro size hmem
  obtain ⟨slot, hslot, rfl⟩ := List.mem_map.mp hmem
  rw [Slot.heldSectors, node_eq_none_of_mem h (Array.mem_toList_iff.mp hslot)]

/-! Putting a node into a slot. -/

theorem liveCount_setNode {slot : Slot} (id : NodeId) (hslot : l.slots[id.slot]? = some slot)
    (node : Node) :
    (l.setNode id node).liveCount + slot.node.isSome.toNat = l.liveCount + 1 := by
  unfold liveCount setNode
  exact countP_modify hslot _ _

theorem heldSectors_setNode {slot : Slot} (id : NodeId) (hslot : l.slots[id.slot]? = some slot)
    (node : Node) :
    (l.setNode id node).heldSectors + slot.heldSectors = l.heldSectors + node.overlay.size := by
  rw [heldSectors_eq_sum, heldSectors_eq_sum]
  simp only [setNode, Array.toList_modify]
  rw [← Array.getElem?_toList] at hslot
  exact sum_modify hslot _ _

theorem liveCount_insertNode (hfree : l.FreeSlots) (node : Node) :
    (l.insertNode node).2.liveCount = l.liveCount + 1 := by
  unfold Lineage.insertNode
  split
  · next i free heq =>
    obtain ⟨slot, hslot, hnode⟩ := hfree.vacant i (by simp [heq])
    have := liveCount_setNode ⟨i, (l.slots.getD i {}).generation⟩ hslot node
    rw [hnode] at this
    exact this
  · simp [liveCount]

theorem heldSectors_insertNode (hfree : l.FreeSlots) (node : Node) :
    (l.insertNode node).2.heldSectors = l.heldSectors + node.overlay.size := by
  unfold Lineage.insertNode
  split
  · next i free heq =>
    obtain ⟨slot, hslot, hnode⟩ := hfree.vacant i (by simp [heq])
    have := heldSectors_setNode ⟨i, (l.slots.getD i {}).generation⟩ hslot node
    rw [Slot.heldSectors, hnode] at this
    exact this
  · simp [heldSectors_eq_sum, Slot.heldSectors]

theorem stats_insertNode (l : Lineage) (node : Node) :
    (l.insertNode node).2.stats = { l.stats with liveNodes := l.stats.liveNodes + 1 } := by
  unfold Lineage.insertNode
  split <;> rfl

theorem liveCount_freeNode (h : l.node? id = some node) :
    (l.freeNode id node).liveCount + 1 = l.liveCount := by
  obtain ⟨slot, hslot, -, hnode⟩ := node?_eq_some_iff.mp h
  have := countP_modify hslot (·.node.isSome)
    fun slot => { slot with generation := slot.generation + 1, node := none }
  simpa [liveCount, Lineage.freeNode, hnode] using this

theorem heldSectors_freeNode (h : l.node? id = some node) :
    (l.freeNode id node).heldSectors + node.overlay.size = l.heldSectors := by
  obtain ⟨slot, hslot, -, hnode⟩ := node?_eq_some_iff.mp h
  rw [← Array.getElem?_toList] at hslot
  have := sum_modify hslot Slot.heldSectors
    fun slot => { slot with generation := slot.generation + 1, node := none }
  rw [heldSectors_eq_sum, heldSectors_eq_sum]
  simpa [Slot.heldSectors, hnode, Lineage.freeNode] using this

theorem stats_freeNode (l : Lineage) (id : NodeId) (node : Node) :
    (l.freeNode id node).stats =
      { l.stats with
        liveNodes := l.stats.liveNodes - 1
        overlaySectors := l.stats.overlaySectors - node.overlay.size
        overlayBytes := l.stats.overlayBytes - node.overlay.size * sectorSize
        releasedNodes := l.stats.releasedNodes + 1 } := rfl

/-! Dropping a disk. -/

theorem liveCount_dropDisk (l : Lineage) (disk : DiskHandle) :
    (l.dropDisk disk).liveCount = l.liveCount := by
  unfold liveCount dropDisk
  rw [Array.countP_map]
  congr 1
  funext slot
  simp [Slot.dropDisk]

def heldOf (l : Lineage) (disk : DiskHandle) : Nat :=
  (l.slots.toList.map fun slot =>
    match slot.node with
    | some node => (node.overlay.filterKeys (·.1 = disk)).size
    | none => 0).sum

theorem heldSectors_dropDisk (l : Lineage) (disk : DiskHandle) :
    (l.dropDisk disk).heldSectors + l.heldOf disk = l.heldSectors := by
  rw [heldSectors_eq_sum, heldSectors_eq_sum, dropDisk, Array.toList_map, List.map_map, heldOf,
    ← List.sum_map_add]
  congr 1
  apply List.map_congr_left
  intro slot _
  unfold Function.comp Slot.heldSectors Slot.dropDisk
  cases slot.node with
  | none => rfl
  | some node =>
    dsimp only [Option.map_some, Table.size, Table.filterKeys]
    have := List.length_eq_length_filter_add (l := node.overlay.entries) (·.1.1 ≠ disk)
    simp at this ⊢
    omega

structure Tallied (l : Lineage) : Prop where
  freeSlots : l.FreeSlots
  referenced : ∀ {id node}, l.node? id = some node → 0 < node.refcount
  liveNodes : l.stats.liveNodes = l.liveCount
  overlaySectors : l.stats.overlaySectors = l.heldSectors
  overlayBytes : l.stats.overlayBytes = l.heldSectors * sectorSize

namespace Tallied

theorem empty : Tallied {} where
  freeSlots := (counted_empty fun _ => false).freeSlots
  referenced h := by simp [node?] at h
  liveNodes := rfl
  overlaySectors := rfl
  overlayBytes := rfl

theorem eq_zero (h : Tallied l) (hnone : ∀ id, l.node? id = none) :
    l.stats.liveNodes = 0 ∧ l.stats.overlaySectors = 0 ∧ l.stats.overlayBytes = 0 := by
  rw [h.liveNodes, h.overlaySectors, h.overlayBytes, liveCount_eq_zero hnone,
    heldSectors_eq_zero hnone]
  simp

theorem setNode (h : Tallied l) (hid : l.node? id = some old) (node : Node)
    (hrefs : 0 < node.refcount) (stats : Stats) (hlive : stats.liveNodes = l.stats.liveNodes)
    (hsectors : stats.overlaySectors + old.overlay.size
      = l.stats.overlaySectors + node.overlay.size)
    (hbytes : stats.overlayBytes = stats.overlaySectors * sectorSize) :
    Tallied { l.setNode id node with stats } := by
  obtain ⟨slot, hslot, -, hnode⟩ := node?_eq_some_iff.mp hid
  have hcount := liveCount_setNode id hslot node
  have hheld := heldSectors_setNode id hslot node
  simp only [hnode, Option.isSome_some, Bool.toNat_true, Slot.heldSectors] at hcount hheld
  have hsectors' : stats.overlaySectors = (l.setNode id node).heldSectors := by
    have := h.overlaySectors
    omega
  constructor
  · exact (freeSlots_setNode h.freeSlots hid node).of_eq rfl rfl
  · intro other inner hother
    change (l.setNode id node).node? other = some inner at hother
    rw [node?_setNode_of_live hid] at hother
    split at hother
    · rw [Option.some.injEq] at hother
      rwa [← hother]
    · exact h.referenced hother
  · have := h.liveNodes
    change stats.liveNodes = (l.setNode id node).liveCount
    omega
  · exact hsectors'
  · rw [hsectors'] at hbytes
    exact hbytes

theorem insertNode (h : Tallied l) (node : Node) (hrefs : 0 < node.refcount)
    (hempty : node.overlay.size = 0) : Tallied (l.insertNode node).2 := by
  have hcount := liveCount_insertNode h.freeSlots node
  have hheld := heldSectors_insertNode h.freeSlots node
  rw [hempty] at hheld
  constructor
  · exact freeSlots_insertNode h.freeSlots node
  · intro other inner hother
    rw [node?_insertNode h.freeSlots] at hother
    split at hother
    · rw [Option.some.injEq] at hother
      rwa [← hother]
    · exact h.referenced hother
  · rw [stats_insertNode, hcount, h.liveNodes]
  · rw [stats_insertNode, hheld, h.overlaySectors, Nat.add_zero]
  · rw [stats_insertNode, hheld, h.overlayBytes, Nat.add_zero]

theorem freeNode (h : Tallied l) (hid : l.node? id = some node) :
    Tallied (l.freeNode id node) := by
  have hcount := liveCount_freeNode hid
  have hheld := heldSectors_freeNode hid
  constructor
  · exact freeSlots_freeNode h.freeSlots hid
  · intro other inner hother
    rw [node?_freeNode hid] at hother
    split at hother
    · contradiction
    · exact h.referenced hother
  · rw [stats_freeNode]
    dsimp only
    rw [h.liveNodes, ← hcount, Nat.add_sub_cancel]
  · rw [stats_freeNode]
    dsimp only
    rw [h.overlaySectors, ← hheld, Nat.add_sub_cancel]
  · rw [stats_freeNode]
    dsimp only
    rw [h.overlayBytes, ← hheld, Nat.add_mul, Nat.add_sub_cancel]

theorem releaseUp (h : Tallied l) (id? : Option NodeId) (rounds : Nat) :
    Tallied (l.releaseUp id? rounds).2 := by
  induction rounds generalizing l id? with
  | zero => exact h
  | succ rounds ih =>
    unfold Lineage.releaseUp
    split
    · exact h
    · split
      · exact h
      · next node hid =>
        dsimp only
        split
        · next hmore =>
          have hbytes := h.overlayBytes
          rw [← h.overlaySectors] at hbytes
          exact h.setNode hid _ hmore l.stats rfl rfl hbytes
        · exact ih (h.freeNode hid) _

theorem store (h : Tallied l) (hid : l.node? id = some node) (key : DiskHandle × UInt64)
    (sector : Sector) : Tallied (l.store id node key sector) := by
  have hsize := node.overlay.size_insert key sector
  have hkeys := node.overlay.mem_keys_iff key
  have hbytes := h.overlayBytes
  rw [← h.overlaySectors] at hbytes
  have hrefs := h.referenced hid
  unfold Lineage.store
  dsimp only
  split
  · next hfresh =>
    have hnotMem : key ∉ node.overlay.keys := by
      simpa [hkeys, Table.contains] using hfresh
    rw [if_neg hnotMem] at hsize
    have := h.setNode hid { node with overlay := node.overlay.insert key sector } hrefs
      { l.stats with
        overlaySectors := l.stats.overlaySectors + 1
        overlayBytes := l.stats.overlayBytes + sectorSize }
      rfl (by dsimp only; omega) (by rw [hbytes, Nat.add_mul, Nat.one_mul])
    exact this
  · next hknown =>
    have hmem : key ∈ node.overlay.keys := by
      simpa [hkeys, Table.contains, Option.isSome_iff_ne_none] using hknown
    rw [if_pos hmem] at hsize
    have := h.setNode hid { node with overlay := node.overlay.insert key sector } hrefs l.stats
      rfl (by dsimp only; omega) hbytes
    exact this

theorem detach (h : Tallied l) (disk : DiskHandle) : Tallied (l.detach disk).2 := by
  have hnode (m : Lineage) (hdetach : l.detach disk = (.ok (), m)) := node?_detach hdetach
  unfold Lineage.detach at hnode ⊢
  split at hnode
  · exact h
  · have hnode := hnode _ rfl
    -- Neither count looks at anything but the slots.
    have hcount : (l.dropDisk disk).liveCount = l.liveCount := liveCount_dropDisk l disk
    have hle := Nat.le.intro (heldSectors_dropDisk l disk)
    have hheld : l.heldSectors - (l.heldSectors - (l.dropDisk disk).heldSectors)
        = (l.dropDisk disk).heldSectors := Nat.sub_sub_self hle
    constructor
    · exact (freeSlots_dropDisk h.freeSlots disk).of_eq rfl rfl
    · intro id node hid
      rw [hnode, Option.map_eq_some_iff] at hid
      obtain ⟨old, hold, rfl⟩ := hid
      have := h.referenced hold
      exact this
    · exact h.liveNodes.trans hcount.symm
    · have := h.overlaySectors
      simp only [forgetSectors]
      rw [this]
      exact hheld
    · have := h.overlayBytes
      simp only [forgetSectors]
      rw [this, ← Nat.sub_mul]
      exact congrArg (· * sectorSize) hheld

theorem fork (h : Tallied l) (id : NodeId) : Tallied (l.fork id).2 := by
  unfold Lineage.fork
  split
  · exact h
  · split
    · exact h
    · next node hid =>
      split
      · exact h
      · have hbytes := h.overlayBytes
        rw [← h.overlaySectors] at hbytes
        have hparent := h.setNode hid (forked node) (Nat.succ_pos _) l.stats rfl rfl hbytes
        have hleft := hparent.insertNode (child id node) Nat.one_pos rfl
        have hright := hleft.insertNode (child id node) Nat.one_pos rfl
        exact ⟨hright.freeSlots.of_eq rfl rfl, hright.referenced, hright.liveNodes,
          hright.overlaySectors, hright.overlayBytes⟩

theorem perform (h : Tallied l) (call : Call) : Tallied (l.perform call) := by
  cases call with
  | attach name sectorCount =>
    dsimp only [Lineage.perform, attach]
    split
    · exact h
    · exact ⟨h.freeSlots.of_eq rfl rfl, h.referenced, h.liveNodes, h.overlaySectors, h.overlayBytes⟩
  | detach disk => exact h.detach disk
  | addRoot =>
    dsimp only [Lineage.perform]
    cases addRoot_cases l with
    | inl hcase =>
      obtain ⟨e, hcase⟩ := hcase
      rw [hcase]
      exact h
    | inr hcase =>
      rw [hcase]
      exact h.insertNode _ Nat.one_pos rfl
  | fork id => exact h.fork id
  | write id disk index data =>
    apply write_preserves (P := Tallied) (fun key sector hid _ h => h.store hid key sector) h
  | writeRun id disk first data =>
    apply writeRun_preserves (P := Tallied) (fun key sector hid _ h => h.store hid key sector) h
  | release id => exact h.releaseUp _ _

end Tallied

end Lineage

end MachineFork
