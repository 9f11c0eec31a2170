import Mathlib.Data.List.Perm.Subperm
import Mathlib.Logic.Function.Basic
import MachineFork.Proofs.Lineage.Nodes

/-!
This module contains the accounting of references. Every live node counts a reference for itself, as
long as nobody has released it, and one for each live child; parents are live, frozen and one level
up. In the middle of an operation there may be references that nothing accounts for yet.
-/

namespace MachineFork

namespace Lineage

variable {l : Lineage} {held : NodeId → Bool} {owed : NodeId → Nat} {id parent : NodeId}
variable {node : Node}

structure Counted (l : Lineage) (held : NodeId → Bool) (owed : NodeId → Nat) : Prop where
  freeSlots : l.FreeSlots
  parent_live : ∀ {id node parent}, l.node? id = some node → node.parent = some parent →
    ∃ above, l.node? parent = some above ∧ above.frozen = true ∧ node.depth = above.depth + 1
  depth_root : ∀ {id node}, l.node? id = some node → node.parent = none → node.depth = 0
  refcount_eq : ∀ {id node}, l.node? id = some node →
    node.refcount = (held id).toNat + l.childCount id + owed id
  owed_live : ∀ id, 0 < owed id → ∃ node, l.node? id = some node

def owing (id? : Option NodeId) (id : NodeId) : Nat :=
  (decide (id? = some id)).toNat

@[simp]
theorem owing_none (id : NodeId) : owing none id = 0 := rfl

theorem exists_child (h : 0 < l.childCount parent) :
    ∃ id node, l.node? id = some node ∧ node.parent = some parent := by
  unfold childCount at h
  rw [Array.countP_pos_iff] at h
  obtain ⟨slot, hmem, hchild⟩ := h
  obtain ⟨i, hslot⟩ := Array.getElem?_of_mem hmem
  cases hnode : slot.node with
  | none => simp [Slot.isChildOf, hnode] at hchild
  | some node =>
    refine ⟨⟨i, slot.generation⟩, node, ?_, ?_⟩
    · rw [node?_eq_some_iff]
      exact ⟨slot, hslot, rfl, hnode⟩
    · simpa [Slot.isChildOf, hnode] using hchild

theorem Counted.childCount_eq_zero (h : Counted l held owed) (hnone : l.node? id = none) :
    l.childCount id = 0 := by
  apply Nat.eq_zero_of_not_pos
  intro hpos
  obtain ⟨child, node, hchild, hparent⟩ := exists_child hpos
  obtain ⟨above, habove, _⟩ := h.parent_live hchild hparent
  rw [hnone] at habove
  contradiction

theorem counted_empty (held : NodeId → Bool) : Counted {} held fun _ => 0 := by
  constructor
  · constructor <;> simp
  · intro id node parent h
    simp [node?] at h
  · intro id node h
    simp [node?] at h
  · intro id node h
    simp [node?] at h
  · simp

theorem Counted.map {m : Lineage} (h : Counted l held owed) (hfree : m.FreeSlots) (f : Node → Node)
    (hf : ∀ node, (f node).parent = node.parent ∧ (f node).depth = node.depth ∧
      (f node).refcount = node.refcount ∧ (f node).frozen = node.frozen)
    (hnode : ∀ id, m.node? id = (l.node? id).map f)
    (hcount : ∀ id, m.childCount id = l.childCount id) : Counted m held owed := by
  constructor
  · exact hfree
  · intro id node parent hid hpar
    rw [hnode, Option.map_eq_some_iff] at hid
    obtain ⟨old, hold, rfl⟩ := hid
    rw [(hf old).1] at hpar
    obtain ⟨above, habove, hfrozen, hdepth⟩ := h.parent_live hold hpar
    refine ⟨f above, ?_, ?_, ?_⟩
    · rw [hnode, habove, Option.map_some]
    · rw [(hf above).2.2.2, hfrozen]
    · rw [(hf old).2.1, (hf above).2.1, hdepth]
  · intro id node hid hpar
    rw [hnode, Option.map_eq_some_iff] at hid
    obtain ⟨old, hold, rfl⟩ := hid
    rw [(hf old).1] at hpar
    rw [(hf old).2.1]
    apply h.depth_root hold hpar
  · intro id node hid
    rw [hnode, Option.map_eq_some_iff] at hid
    obtain ⟨old, hold, rfl⟩ := hid
    rw [(hf old).2.2.1, hcount]
    apply h.refcount_eq hold
  · intro id hpos
    obtain ⟨node, hid⟩ := h.owed_live _ hpos
    refine ⟨f node, ?_⟩
    rw [hnode, hid, Option.map_some]

theorem Counted.of_slots_eq {m : Lineage} (h : Counted l held owed) (hslots : m.slots = l.slots)
    (hfree : m.free = l.free) : Counted m held owed := by
  apply h.map (h.freeSlots.of_eq hslots hfree) (f := id)
  · intro node
    exact ⟨rfl, rfl, rfl, rfl⟩
  · intro id
    rw [node?_of_slots_eq hslots, Option.map_id_fun, id_eq]
  · intro id
    unfold childCount
    rw [hslots]

theorem Counted.of_held_eq (h : Counted l held owed) {held' : NodeId → Bool}
    (hheld : ∀ id node, l.node? id = some node → held' id = held id) : Counted l held' owed := by
  constructor
  · exact h.freeSlots
  · exact h.parent_live
  · exact h.depth_root
  · intro id node hid
    rw [hheld id node hid]
    apply h.refcount_eq hid
  · exact h.owed_live

/-! Adding a node. -/

theorem Counted.insertNode (h : Counted l held owed) (node : Node) (hrefcount : node.refcount = 1)
    (hroot : node.parent = none → node.depth = 0)
    (hparent : ∀ parent, node.parent = some parent → 0 < owed parent ∧
      ∃ above, l.node? parent = some above ∧ above.frozen = true ∧ node.depth = above.depth + 1) :
    Counted (l.insertNode node).2 (Function.update held (l.insertNode node).1 true)
      fun id => owed id - owing node.parent id := by
  have hself := node?_insertNode_self h.freeSlots node
  have hnode := node?_insertNode h.freeSlots node
  have hcount := childCount_insertNode h.freeSlots node
  have hfree := freeSlots_insertNode h.freeSlots node
  generalize l.insertNode node = result at *
  obtain ⟨new, m⟩ := result
  dsimp only at *
  have hne {id : NodeId} {above : Node} (habove : l.node? id = some above) : id ≠ new := by
    intro heq
    rw [heq, hself] at habove
    contradiction
  constructor
  · exact hfree
  · intro id child parent hchild hpar
    have habove : ∃ above, l.node? parent = some above ∧ above.frozen = true
        ∧ child.depth = above.depth + 1 := by
      rw [hnode] at hchild
      split at hchild
      · rw [Option.some.injEq] at hchild
        subst hchild
        exact (hparent parent hpar).2
      · exact h.parent_live hchild hpar
    obtain ⟨above, habove, hrest⟩ := habove
    refine ⟨above, ?_, hrest⟩
    rw [hnode, if_neg (hne habove)]
    exact habove
  · intro id child hchild hpar
    rw [hnode] at hchild
    split at hchild
    · rw [Option.some.injEq] at hchild
      subst hchild
      exact hroot hpar
    · exact h.depth_root hchild hpar
  · intro id child hchild
    rw [hnode] at hchild
    rw [hcount]
    split at hchild
    · next heq =>
      rw [Option.some.injEq] at hchild
      subst hchild heq
      have howed : owed id = 0 := by
        apply Nat.eq_zero_of_not_pos
        intro hpos
        obtain ⟨above, habove⟩ := h.owed_live _ hpos
        exact hne habove rfl
      have hnotself : node.parent ≠ some id := by
        intro hpar
        obtain ⟨_, above, habove, _⟩ := hparent id hpar
        exact hne habove rfl
      rw [h.childCount_eq_zero hself, howed, hrefcount]
      simp [hnotself]
    · next hne' =>
      rw [h.refcount_eq hchild, Function.update_of_ne hne']
      unfold owing
      -- The parent counts one child more, and is owed one reference less.
      by_cases hpar : node.parent = some id
      · have := (hparent id hpar).1
        simp [hpar]
        omega
      · simp [hpar]
  · intro id hpos
    obtain ⟨above, habove⟩ := h.owed_live id (by omega)
    refine ⟨above, ?_⟩
    rw [hnode, if_neg (hne habove)]
    exact habove

/-! The way up. -/

theorem Counted.exists_slots_above (h : Counted l held owed) (hid : l.node? id = some node) :
    ∃ slots : List Nat, slots.length = node.depth + 1 ∧ slots.Nodup ∧
      ∀ i ∈ slots, ∃ id' node', id'.slot = i ∧ l.node? id' = some node' ∧
        node'.depth ≤ node.depth := by
  generalize hdepth : node.depth = depth
  induction depth generalizing id node with
  | zero =>
    refine ⟨[id.slot], rfl, by simp, ?_⟩
    intro i hi
    rw [List.mem_singleton] at hi
    exact ⟨id, node, hi.symm, hid, by omega⟩
  | succ depth ih =>
    cases hpar : node.parent with
    | none =>
      have := h.depth_root hid hpar
      omega
    | some parent =>
      obtain ⟨above, habove, _, hlevel⟩ := h.parent_live hid hpar
      obtain ⟨slots, hlength, hnodup, hslots⟩ := ih habove (by omega)
      refine ⟨id.slot :: slots, by simp [hlength], ?_, ?_⟩
      · rw [List.nodup_cons]
        refine ⟨?_, hnodup⟩
        -- The same slot would be the same node, which has a depth of its own.
        intro hmem
        obtain ⟨id', node', hslot, hid', hle⟩ := hslots _ hmem
        have heq := eq_of_slot_eq hid' hid hslot
        subst heq
        rw [hid, Option.some.injEq] at hid'
        subst hid'
        omega
      · intro i hi
        rw [List.mem_cons] at hi
        cases hi with
        | inl hi => exact ⟨id, node, hi.symm, hid, by omega⟩
        | inr hi =>
          obtain ⟨id', node', hslot, hid', hle⟩ := hslots i hi
          exact ⟨id', node', hslot, hid', by omega⟩

theorem Counted.depth_lt (h : Counted l held owed) (hid : l.node? id = some node) :
    node.depth < l.slots.size := by
  obtain ⟨slots, hlength, hnodup, hslots⟩ := h.exists_slots_above hid
  have hsubset : slots ⊆ List.range l.slots.size := by
    intro i hi
    obtain ⟨id', node', hslot, hid', _⟩ := hslots i hi
    rw [List.mem_range, ← hslot]
    apply slot_lt_of_node? hid'
  have := (hnodup.subperm hsubset).length_le
  rw [List.length_range] at this
  omega

/-! Changing a node. -/

theorem freeSlots_setNode (hfree : l.FreeSlots) {old : Node} (h : l.node? id = some old)
    (node : Node) : (l.setNode id node).FreeSlots := by
  rw [node?_eq_some_iff] at h
  obtain ⟨slot, hslot, _, hnode⟩ := h
  constructor
  · intro i hi
    obtain ⟨slot', hslot', hvacant⟩ := hfree.vacant i hi
    have hne : id.slot ≠ i := by
      intro heq
      rw [← heq, hslot, Option.some.injEq] at hslot'
      subst hslot'
      simp [hnode] at hvacant
    refine ⟨slot', ?_, hvacant⟩
    simp only [setNode, Array.getElem?_modify, if_neg hne]
    exact hslot'
  · exact hfree.nodup

theorem Counted.setNode (h : Counted l held owed) {old : Node} (hid : l.node? id = some old)
    (node : Node)
    (hparent : node.parent = old.parent) (hdepth : node.depth = old.depth)
    (hfrozen : old.frozen = true → node.frozen = true) (owed' : NodeId → Nat)
    (hself : node.refcount + owed id = old.refcount + owed' id)
    (hothers : ∀ other, other ≠ id → owed' other = owed other) :
    Counted (l.setNode id node) held owed' := by
  have hnode := node?_setNode_of_live hid node
  have hcount := childCount_setNode_of_live hid hparent
  have hold {child : NodeId} {inner : Node} (hchild : (l.setNode id node).node? child = some inner) :
      ∃ inner', l.node? child = some inner' ∧ inner.parent = inner'.parent
        ∧ inner.depth = inner'.depth := by
    rw [hnode] at hchild
    split at hchild
    · next heq =>
      rw [Option.some.injEq] at hchild
      subst hchild heq
      exact ⟨old, hid, hparent, hdepth⟩
    · exact ⟨inner, hchild, rfl, rfl⟩
  constructor
  · apply freeSlots_setNode h.freeSlots hid
  · intro child inner parent hchild hpar
    obtain ⟨inner', hchild', hpar', hdepth'⟩ := hold hchild
    obtain ⟨above, habove, hfroz, hlevel⟩ := h.parent_live hchild' (hpar'.symm.trans hpar)
    rw [hnode]
    split
    · next heq =>
      subst heq
      rw [hid, Option.some.injEq] at habove
      subst habove
      exact ⟨node, rfl, hfrozen hfroz, by omega⟩
    · exact ⟨above, habove, hfroz, by omega⟩
  · intro child inner hchild hpar
    obtain ⟨inner', hchild', hpar', hdepth'⟩ := hold hchild
    rw [hdepth']
    apply h.depth_root hchild' (hpar'.symm.trans hpar)
  · intro other inner hother
    rw [hnode] at hother
    rw [hcount]
    split at hother
    · next heq =>
      rw [Option.some.injEq] at hother
      subst hother heq
      have := h.refcount_eq hid
      omega
    · next hne =>
      rw [hothers other hne]
      apply h.refcount_eq hother
  · intro other hpos
    rw [hnode]
    split
    · exact ⟨node, rfl⟩
    · next hne =>
      rw [hothers other hne] at hpos
      apply h.owed_live _ hpos

/-! Releasing nodes. -/

def Kept (l m : Lineage) : Prop :=
  ∀ id node, m.node? id = some node → ∃ refcount, l.node? id = some { node with refcount }

theorem Kept.refl (l : Lineage) : Kept l l := by
  intro id node h
  exact ⟨node.refcount, h⟩

theorem Kept.trans {m n : Lineage} (hlm : Kept l m) (hmn : Kept m n) : Kept l n := by
  intro id node h
  obtain ⟨refcount, h⟩ := hmn id node h
  apply hlm id _ h

theorem kept_setNode (h : l.node? id = some node) (refcount : Nat) :
    Kept l (l.setNode id { node with refcount }) := by
  intro other node' hother
  rw [node?_setNode_of_live h] at hother
  split at hother
  · next heq =>
    rw [Option.some.injEq] at hother
    subst hother heq
    exact ⟨node.refcount, h⟩
  · exact ⟨node'.refcount, hother⟩

theorem kept_freeNode (h : l.node? id = some node) : Kept l (l.freeNode id node) := by
  intro other node' hother
  rw [node?_freeNode h] at hother
  split at hother
  · contradiction
  · exact ⟨node'.refcount, hother⟩

theorem kept_releaseUp (l : Lineage) (id? : Option NodeId) (rounds : Nat) :
    Kept l (l.releaseUp id? rounds).2 := by
  induction rounds generalizing l id? with
  | zero => exact Kept.refl l
  | succ rounds ih =>
    unfold releaseUp
    split
    · exact Kept.refl l
    · split
      · exact Kept.refl l
      · next node hid =>
        dsimp only
        split
        · apply kept_setNode hid
        · apply Kept.trans (kept_freeNode hid) (ih _ _)

theorem kept_release (l : Lineage) (id : NodeId) : Kept l (l.release id).2 :=
  kept_releaseUp l _ _

theorem Counted.freeNode (h : Counted l held fun other => owed other + owing (some id) other)
    (hid : l.node? id = some node) (hlast : node.refcount ≤ 1) :
    Counted (l.freeNode id node) held fun other => owed other + owing node.parent other := by
  have hnode := node?_freeNode hid
  have hcount := childCount_freeNode hid
  -- The one reference is the owed one, so that no child needs the node.
  have hunused : (held id).toNat = 0 ∧ l.childCount id = 0 ∧ owed id = 0 := by
    have := h.refcount_eq hid
    simp only [owing, decide_true, Bool.toNat_true] at this
    omega
  have hne {other : NodeId} {above : Node} (habove : l.node? other = some above)
      (hchild : 0 < l.childCount other) : (l.freeNode id node).node? other = some above := by
    rw [hnode, if_neg]
    · exact habove
    · intro heq
      rw [heq] at hchild
      omega
  constructor
  · apply freeSlots_freeNode h.freeSlots hid
  · intro child inner parent hchild hpar
    rw [hnode] at hchild
    split at hchild
    · contradiction
    · obtain ⟨above, habove, hrest⟩ := h.parent_live hchild hpar
      exact ⟨above, hne habove (childCount_pos hchild hpar), hrest⟩
  · intro child inner hchild hpar
    rw [hnode] at hchild
    split at hchild
    · contradiction
    · exact h.depth_root hchild hpar
  · intro other inner hother
    rw [hnode] at hother
    split at hother
    · contradiction
    · next hother' =>
      have hold := h.refcount_eq hother
      have := hcount other
      simp only [owing, Option.some.injEq, Ne.symm hother', decide_false, Bool.toNat_false] at hold
      unfold owing
      omega
  · intro other hpos
    by_cases hpar : node.parent = some other
    · -- What is owed in addition is the reference that the node held on its parent.
      obtain ⟨above, habove, _⟩ := h.parent_live hid hpar
      exact ⟨above, hne habove (childCount_pos hid hpar)⟩
    · simp only [owing, hpar, decide_false, Bool.toNat_false, Nat.add_zero] at hpos
      obtain ⟨above, habove⟩ := h.owed_live other (by omega)
      refine ⟨above, ?_⟩
      rw [hnode, if_neg]
      · exact habove
      · intro heq
        rw [heq] at hpos
        omega

theorem Counted.releaseUp {id? : Option NodeId}
    (h : Counted l held fun other => owed other + owing id? other) {rounds : Nat}
    (hrounds : ∀ id node, id? = some id → l.node? id = some node → node.depth < rounds) :
    (l.releaseUp id? rounds).1 = .ok () ∧ Counted (l.releaseUp id? rounds).2 held owed := by
  induction rounds generalizing l id? with
  | zero =>
    cases id? with
    | none => exact ⟨rfl, h⟩
    | some id =>
      obtain ⟨node, hid⟩ := h.owed_live id (by simp [owing])
      have := hrounds id node rfl hid
      omega
  | succ rounds ih =>
    cases id? with
    | none => exact ⟨rfl, h⟩
    | some id =>
      obtain ⟨node, hid⟩ := h.owed_live id (by simp [owing])
      have hdepth := hrounds id node rfl hid
      unfold Lineage.releaseUp
      simp only [hid]
      split
      · next hmore =>
        refine ⟨rfl, ?_⟩
        dsimp only
        apply h.setNode hid _
        · rfl
        · rfl
        · exact fun hfrozen => hfrozen
        · simp [owing]
          omega
        · intro other hother
          simp [owing, Ne.symm hother]
      · next hlast =>
        apply ih (h.freeNode hid (by omega))
        intro parent above hpar habove
        obtain ⟨above', habove', _, hlevel⟩ := h.parent_live hid hpar
        obtain ⟨refcount, hkept⟩ := kept_freeNode hid parent above habove
        rw [habove', Option.some.injEq] at hkept
        subst hkept
        simp only at hlevel
        omega

theorem Counted.settle (h : Counted l held fun other => owed other + owing (some id) other) :
    (l.release id).1 = .ok () ∧ Counted (l.release id).2 held owed := by
  apply h.releaseUp
  intro other inner _ hinner
  have := h.depth_lt hinner
  omega

theorem Counted.release_owed (h : Counted l held owed) (hpos : 0 < owed id) :
    (l.release id).1 = .ok ()
      ∧ Counted (l.release id).2 held fun other => owed other - owing (some id) other := by
  apply Counted.settle
  convert h using 2
  next other =>
  by_cases heq : id = other
  · subst heq
    simp [owing]
    omega
  · simp [owing, heq]

theorem Counted.owe (h : Counted l held owed) (hheld : held id = true)
    (hid : l.node? id = some node) :
    Counted l (Function.update held id false) fun other => owed other + owing (some id) other := by
  constructor
  · exact h.freeSlots
  · exact h.parent_live
  · exact h.depth_root
  · intro other inner hother
    have := h.refcount_eq hother
    by_cases heq : other = id
    · subst heq
      simp [owing]
      simp [hheld] at this
      omega
    · rw [Function.update_of_ne heq]
      simp [owing, Ne.symm heq]
      omega
  · intro other hpos
    by_cases heq : id = other
    · subst heq
      exact ⟨node, hid⟩
    · simp only [owing, Option.some.injEq, heq, decide_false, Bool.toNat_false] at hpos
      apply h.owed_live other hpos

theorem Counted.release (h : Counted l held owed) (hheld : held id = true)
    (hid : l.node? id = some node) :
    (l.release id).1 = .ok () ∧ Counted (l.release id).2 (Function.update held id false) owed :=
  (h.owe hheld hid).settle

theorem release_of_stale (h : l.node? id = none) : l.release id = (.error (.staleNode id), l) := by
  unfold release releaseUp
  simp [h]

end Lineage

end MachineFork
