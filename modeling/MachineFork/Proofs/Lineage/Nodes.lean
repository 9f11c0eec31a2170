import MachineFork.Lineage.Release
import MachineFork.Lineage.Write

/-!
This module contains what the operations on single nodes do to the nodes that ids name, and to the
number of children that a node has.
-/

namespace MachineFork

namespace Slot

def isChildOf (parent : NodeId) (slot : Slot) : Bool :=
  slot.node.any (·.parent = some parent)

@[simp]
theorem isChildOf_dropDisk (disk : DiskHandle) (parent : NodeId) (slot : Slot) :
    (slot.dropDisk disk).isChildOf parent = slot.isChildOf parent := by
  unfold isChildOf dropDisk
  cases slot.node <;> rfl

end Slot

namespace Lineage

variable {l : Lineage} {id other parent : NodeId} {node : Node}

def childCount (l : Lineage) (id : NodeId) : Nat :=
  l.slots.countP (·.isChildOf id)

theorem node?_eq_some_iff :
    l.node? id = some node ↔
      ∃ slot, l.slots[id.slot]? = some slot ∧ slot.generation = id.generation
        ∧ slot.node = some node := by
  unfold node?
  split
  · next slot hslot => grind
  · next hslot => grind

theorem slot_lt_of_node? (h : l.node? id = some node) : id.slot < l.slots.size := by
  rw [node?_eq_some_iff] at h
  obtain ⟨slot, hslot, _⟩ := h
  apply (Array.getElem?_eq_some_iff.mp hslot).1

theorem node?_of_slots_eq {m : Lineage} (h : m.slots = l.slots) : m.node? id = l.node? id := by
  unfold node?
  rw [h]

theorem eq_of_slot_eq {node' : Node} (h : l.node? id = some node) (h' : l.node? other = some node')
    (heq : id.slot = other.slot) : id = other := by
  rw [node?_eq_some_iff] at h h'
  obtain ⟨slot, hslot, hgen, _⟩ := h
  obtain ⟨slot', hslot', hgen', _⟩ := h'
  cases id
  cases other
  simp only [NodeId.mk.injEq]
  grind

/-! Putting a node into a slot. -/

theorem node?_setNode {slot : Slot} (hslot : l.slots[id.slot]? = some slot)
    (hgen : slot.generation = id.generation) (node : Node) (other : NodeId) :
    (l.setNode id node).node? other = if other = id then some node else l.node? other := by
  unfold node? setNode
  simp only [Array.getElem?_modify]
  by_cases hother : id.slot = other.slot
  · rw [if_pos hother, ← hother, hslot]
    simp only [Option.map_some]
    cases id
    cases other
    grind
  · rw [if_neg hother]
    grind

theorem node?_setNode_of_live {old : Node} (h : l.node? id = some old) (node : Node)
    (other : NodeId) :
    (l.setNode id node).node? other = if other = id then some node else l.node? other := by
  rw [node?_eq_some_iff] at h
  obtain ⟨slot, hslot, hgen, _⟩ := h
  apply node?_setNode hslot hgen

theorem countP_modify {α : Type} {xs : Array α} {i : Nat} {a : α} (h : xs[i]? = some a)
    (p : α → Bool) (f : α → α) :
    (xs.modify i f).countP p + (p a).toNat = xs.countP p + (p (f a)).toNat := by
  obtain ⟨hlt, ha⟩ := Array.getElem?_eq_some_iff.mp h
  have hset : xs.modify i f = xs.set i (f a) := by
    apply Array.ext_getElem?
    intro j
    rw [Array.getElem?_modify, Array.getElem?_set]
    split
    · next heq => rw [← heq, h, Option.map_some]
    · rfl
  rw [hset, Array.countP_set hlt, ha]
  have hpos : p a = true → 0 < xs.countP p := by
    intro hp
    rw [Array.countP_pos_iff]
    exact ⟨a, Array.mem_of_getElem? h, hp⟩
  cases hpa : p a with
  | false => cases p (f a) <;> simp
  | true =>
    have := hpos hpa
    cases p (f a) <;> simp <;> omega

theorem childCount_setNode {slot : Slot} (id : NodeId) (hslot : l.slots[id.slot]? = some slot)
    (node : Node)
    (parent : NodeId) :
    (l.setNode id node).childCount parent + (slot.isChildOf parent).toNat
      =
    l.childCount parent + (decide (node.parent = some parent)).toNat := by
  unfold childCount setNode
  apply countP_modify hslot

theorem childCount_setNode_of_live {old : Node} (h : l.node? id = some old)
    (hparent : node.parent = old.parent) (parent : NodeId) :
    (l.setNode id node).childCount parent = l.childCount parent := by
  rw [node?_eq_some_iff] at h
  obtain ⟨slot, hslot, _, hnode⟩ := h
  have := childCount_setNode id hslot node parent
  simp only [Slot.isChildOf, hnode, Option.any_some, hparent] at this
  omega

/-! Adding a node. -/

structure FreeSlots (l : Lineage) : Prop where
  vacant : ∀ i ∈ l.free, ∃ slot, l.slots[i]? = some slot ∧ slot.node = none
  nodup : l.free.Nodup

theorem FreeSlots.of_eq {m : Lineage} (h : l.FreeSlots) (hslots : m.slots = l.slots)
    (hfree : m.free = l.free) : m.FreeSlots := by
  constructor
  · rw [hslots, hfree]
    exact h.vacant
  · rw [hfree]
    exact h.nodup

theorem node?_insertNode_self (hfree : l.FreeSlots) (node : Node) :
    l.node? (l.insertNode node).1 = none := by
  unfold insertNode
  split
  · next i free heq =>
    obtain ⟨slot, hslot, hnode⟩ := hfree.vacant i (by simp [heq])
    simp [node?, hslot, hnode]
  · simp [node?]

theorem ne_insertNode_of_live (hfree : l.FreeSlots) {old : Node} (h : l.node? id = some old)
    (node : Node) : id ≠ (l.insertNode node).1 := by
  intro heq
  rw [heq, node?_insertNode_self hfree] at h
  contradiction

theorem node?_insertNode (hfree : l.FreeSlots) (node : Node) (other : NodeId) :
    (l.insertNode node).2.node? other
      =
    if other = (l.insertNode node).1 then some node else l.node? other := by
  unfold insertNode
  split
  · next i free heq =>
    obtain ⟨slot, hslot, _⟩ := hfree.vacant i (by simp [heq])
    have hgen : (l.slots.getD i {}).generation = slot.generation := by simp [hslot]
    dsimp only
    rw [hgen]
    rw [node?_setNode hslot rfl]
    rfl
  · unfold node?
    cases other
    grind

theorem childCount_insertNode (hfree : l.FreeSlots) (node : Node) (parent : NodeId) :
    (l.insertNode node).2.childCount parent
      =
    l.childCount parent + (decide (node.parent = some parent)).toNat := by
  unfold insertNode
  split
  · next i free heq =>
    obtain ⟨slot, hslot, hnode⟩ := hfree.vacant i (by simp [heq])
    have hvacant : slot.isChildOf parent = false := by simp [Slot.isChildOf, hnode]
    have := childCount_setNode (l := { l with free, stats := l.stats })
      ⟨i, (l.slots.getD i {}).generation⟩ hslot node parent
    rw [hvacant] at this
    exact this
  · unfold childCount
    rw [Array.countP_push]
    by_cases hparent : node.parent = some parent <;> simp [Slot.isChildOf, hparent]

theorem freeSlots_insertNode (hfree : l.FreeSlots) (node : Node) :
    (l.insertNode node).2.FreeSlots := by
  have hnodup := hfree.nodup
  unfold insertNode
  split
  · next i free heq =>
    rw [heq, List.nodup_cons] at hnodup
    constructor
    · intro j (hj : j ∈ free)
      obtain ⟨slot, hslot, hnode⟩ := hfree.vacant j (by simp [heq, hj])
      have hne : i ≠ j := by
        intro hij
        subst hij
        exact hnodup.1 hj
      refine ⟨slot, ?_, hnode⟩
      simp only [setNode, Array.getElem?_modify, if_neg hne]
      exact hslot
    · exact hnodup.2
  · next heq =>
    constructor
    · simp [heq]
    · simp [heq]

/-! Freeing a node. -/

theorem node?_freeNode (h : l.node? id = some node) (other : NodeId) :
    (l.freeNode id node).node? other = if other = id then none else l.node? other := by
  rw [node?_eq_some_iff] at h
  obtain ⟨slot, hslot, hgen, _⟩ := h
  unfold node? freeNode
  simp only [Array.getElem?_modify]
  by_cases hother : id.slot = other.slot
  · rw [if_pos hother, ← hother, hslot]
    simp only [Option.map_some]
    cases id
    cases other
    grind
  · rw [if_neg hother]
    grind

theorem childCount_freeNode (h : l.node? id = some node) (parent : NodeId) :
    (l.freeNode id node).childCount parent + (decide (node.parent = some parent)).toNat
      =
    l.childCount parent := by
  rw [node?_eq_some_iff] at h
  obtain ⟨slot, hslot, _, hnode⟩ := h
  have hchild : slot.isChildOf parent = decide (node.parent = some parent) := by
    simp [Slot.isChildOf, hnode]
  unfold childCount freeNode
  rw [← hchild]
  apply countP_modify hslot

theorem freeSlots_freeNode (hfree : l.FreeSlots) (h : l.node? id = some node) :
    (l.freeNode id node).FreeSlots := by
  rw [node?_eq_some_iff] at h
  obtain ⟨slot, hslot, _, hnode⟩ := h
  unfold freeNode
  constructor
  · intro i hi
    simp only [Array.getElem?_modify]
    split
    · next heq =>
      subst heq
      simp [hslot]
    · next hne =>
      apply hfree.vacant
      simpa [Ne.symm hne] using hi
  · rw [List.nodup_cons]
    refine ⟨?_, hfree.nodup⟩
    intro hi
    obtain ⟨slot', hslot', hvacant⟩ := hfree.vacant _ hi
    rw [hslot, Option.some.injEq] at hslot'
    subst hslot'
    simp [hnode] at hvacant

/-! Children. -/

theorem childCount_pos {child : Node} (h : l.node? id = some child)
    (hparent : child.parent = some parent) : 0 < l.childCount parent := by
  rw [node?_eq_some_iff] at h
  obtain ⟨slot, hslot, _, hnode⟩ := h
  unfold childCount
  rw [Array.countP_pos_iff]
  refine ⟨slot, Array.mem_of_getElem? hslot, ?_⟩
  simp [Slot.isChildOf, hnode, hparent]

end Lineage

end MachineFork
