import MachineFork.Proofs.Lineage.Writes

/-!
This module contains the calls that change a lineage, and the accounting of references over any
sequence of them in which nobody releases a node twice.
-/

namespace MachineFork

namespace Lineage

inductive Call where
  | attach (name : String) (sectorCount : UInt64)
  | detach (disk : DiskHandle)
  | addRoot
  | fork (id : NodeId)
  | write (id : NodeId) (disk : DiskHandle) (index : UInt64) (data : Bytes)
  | writeRun (id : NodeId) (disk : DiskHandle) (first : UInt64) (data : Bytes)
  | release (id : NodeId)

def Call.released? : Call → Option NodeId
  | release id => some id
  | _ => none

def perform (l : Lineage) : Call → Lineage
  | .attach name sectorCount => (l.attach name sectorCount).2
  | .detach disk => (l.detach disk).2
  | .addRoot => l.addRoot.2
  | .fork id => (l.fork id).2
  | .write id disk index data => (l.write id disk index data).2
  | .writeRun id disk first data => (l.writeRun id disk first data).2
  | .release id => (l.release id).2

def heldAfter (l : Lineage) (held : NodeId → Bool) : Call → NodeId → Bool
  | .addRoot =>
    match l.addRoot.1 with
    | .ok id => Function.update held id true
    | .error _ => held
  | .fork id =>
    match (l.fork id).1 with
    | .ok (left, right) => Function.update (Function.update held left true) right true
    | .error _ => held
  | .release id => Function.update held id false
  | _ => held

variable {l m : Lineage} {held : NodeId → Bool} {owed : NodeId → Nat} {id left right : NodeId}
variable {node : Node}

theorem Call.eq_release {call : Call} (h : call.released? = some id) : call = .release id := by
  cases call with
  | release released => exact congrArg release (Option.some.inj h)
  | _ => simp [released?] at h

/-! Roots and forks. -/

theorem addRoot_cases (l : Lineage) :
    (∃ e, l.addRoot = (.error e, l)) ∨
      l.addRoot = (.ok (l.insertNode { parent := none, depth := 0 }).1,
        (l.insertNode { parent := none, depth := 0 }).2) := by
  unfold addRoot
  split
  · next e _ => exact .inl ⟨e, rfl⟩
  · exact .inr rfl

theorem eq_of_addRoot_error {e : DiskError} {m : Lineage} (h : l.addRoot = (.error e, m)) :
    m = l := by
  rcases addRoot_cases l with ⟨e, hcase⟩ | hcase
  · exact (Prod.mk.inj (h.symm.trans hcase)).2
  · simp [h] at hcase

theorem insertNode_of_addRoot {id : NodeId} {m : Lineage} (h : l.addRoot = (.ok id, m)) :
    l.insertNode { parent := none, depth := 0 } = (id, m) := by
  rcases addRoot_cases l with ⟨e, hcase⟩ | hcase
  · simp [h] at hcase
  · simp only [h, Prod.mk.injEq, Except.ok.injEq] at hcase
    rw [hcase.1, hcase.2]

def forked (node : Node) : Node :=
  { node with refcount := node.refcount + 2, frozen := true }

def child (id : NodeId) (node : Node) : Node :=
  { parent := some id, depth := node.depth + 1 }

structure Forks (l : Lineage) (id : NodeId) (node : Node) (left right : NodeId) (m : Lineage) :
    Prop where
  live : l.node? id = some node
  left_eq : left = ((l.setNode id (forked node)).insertNode (child id node)).1
  right_eq : right =
    (((l.setNode id (forked node)).insertNode (child id node)).2.insertNode (child id node)).1
  slots_eq : m.slots =
    (((l.setNode id (forked node)).insertNode (child id node)).2.insertNode (child id node)).2.slots
  free_eq : m.free =
    (((l.setNode id (forked node)).insertNode (child id node)).2.insertNode (child id node)).2.free

theorem fork_cases (l : Lineage) (id : NodeId) :
    (∃ e, l.fork id = (.error e, l)) ∨
      ∃ node left right m, l.fork id = (.ok (left, right), m) ∧ Forks l id node left right m := by
  unfold fork
  split
  · next e _ => exact .inl ⟨e, rfl⟩
  · split
    · exact .inl ⟨_, rfl⟩
    · next node hnode =>
      split
      · exact .inl ⟨_, rfl⟩
      · exact .inr ⟨node, _, _, _, rfl, hnode, rfl, rfl, rfl, rfl⟩

theorem eq_of_fork_error {id : NodeId} {e : DiskError} {m : Lineage}
    (h : l.fork id = (.error e, m)) : m = l := by
  rcases fork_cases l id with ⟨e, hcase⟩ | ⟨node, left, right, m, hcase, -⟩
  · exact (Prod.mk.inj (h.symm.trans hcase)).2
  · simp [h] at hcase

theorem forks_of_fork {id left right : NodeId} {m : Lineage}
    (h : l.fork id = (.ok (left, right), m)) : ∃ node, Forks l id node left right m := by
  rcases fork_cases l id with ⟨e, hcase⟩ | ⟨node, left, right, m, hcase, hforks⟩
  · simp [h] at hcase
  · simp only [h, Prod.mk.injEq, Except.ok.injEq] at hcase
    obtain ⟨⟨rfl, rfl⟩, rfl⟩ := hcase
    exact ⟨node, hforks⟩

theorem Counted.addRoot (h : Counted l held owed) :
    Counted (l.perform .addRoot) (l.heldAfter held .addRoot) owed := by
  dsimp only [perform, heldAfter]
  cases addRoot_cases l with
  | inl hcase =>
    obtain ⟨e, hcase⟩ := hcase
    rw [hcase]
    exact h
  | inr hcase =>
    rw [hcase]
    have := h.insertNode { parent := none, depth := 0 } rfl (fun _ => rfl) (by simp)
    simpa using this

theorem Counted.fork (h : Counted l held owed) (id : NodeId) :
    Counted (l.perform (.fork id)) (l.heldAfter held (.fork id)) owed := by
  dsimp only [perform, heldAfter]
  cases fork_cases l id with
  | inl hcase =>
    obtain ⟨e, hcase⟩ := hcase
    rw [hcase]
    exact h
  | inr hcase =>
    obtain ⟨node, left, right, m, hcase, hfork⟩ := hcase
    rw [hcase]
    dsimp only
    have hlive := hfork.live
    -- The node owes two references, which its children take over one after the other.
    have hparent := h.setNode hlive (forked node) rfl rfl (fun _ => rfl)
      (fun other => owed other + if other = id then 2 else 0)
      (by
        simp only [forked, if_true]
        omega)
      (by
        intro other hother
        simp [hother])
    have habove : (l.setNode id (forked node)).node? id = some (forked node) := by
      rw [node?_setNode_of_live hlive, if_pos rfl]
    have hleft := hparent.insertNode (child id node) rfl (by simp [child]) (by
      intro parent hpar
      simp only [child, Option.some.injEq] at hpar
      subst hpar
      exact ⟨by simp, forked node, habove, rfl, rfl⟩)
    have hne := ne_insertNode_of_live hparent.freeSlots habove (child id node)
    have habove' := node?_insertNode hparent.freeSlots (child id node) id
    rw [habove, if_neg hne] at habove'
    have hright := hleft.insertNode (child id node) rfl (by simp [child]) (by
      intro parent hpar
      simp only [child, Option.some.injEq] at hpar
      subst hpar
      refine ⟨?_, forked node, habove', rfl, rfl⟩
      simp [owing, child])
    rw [hfork.left_eq, hfork.right_eq]
    apply Counted.of_slots_eq _ hfork.slots_eq hfork.free_eq
    convert hright using 2
    next other =>
    by_cases hother : other = id
    · simp [hother, owing, child]
    · simp [hother, Ne.symm hother, owing, child]

theorem Forks.children_new (h : Forks l id node left right m) (hfree : l.FreeSlots) :
    l.node? left = none ∧ l.node? right = none := by
  have hfree' := freeSlots_setNode hfree h.live (forked node)
  have hfree'' := freeSlots_insertNode hfree' (child id node)
  have hleft := node?_insertNode_self hfree' (child id node)
  have hright := node?_insertNode_self hfree'' (child id node)
  rw [node?_insertNode hfree', ← h.right_eq, ← h.left_eq] at hright
  rw [← h.left_eq] at hleft
  rw [node?_setNode_of_live h.live] at hleft hright
  grind

theorem Forks.node?_eq (h : Forks l id node left right m) (hfree : l.FreeSlots) (other : NodeId) :
    m.node? other =
      if other = right ∨ other = left then some (child id node)
      else if other = id then some (forked node)
      else l.node? other := by
  have hfree' := freeSlots_setNode hfree h.live (forked node)
  have hfree'' := freeSlots_insertNode hfree' (child id node)
  rw [node?_of_slots_eq h.slots_eq]
  rw [node?_insertNode hfree'', ← h.right_eq]
  rw [node?_insertNode hfree', ← h.left_eq]
  rw [node?_setNode_of_live h.live]
  grind

/-! Disks and sectors. -/

theorem node?_detach {disk : DiskHandle} {m : Lineage} (h : l.detach disk = (.ok (), m))
    (id : NodeId) :
    m.node? id = (l.node? id).map fun node =>
      { node with overlay := node.overlay.filterKeys (·.1 ≠ disk) } := by
  unfold detach at h
  split at h
  · simp at h
  · simp only [Prod.mk.injEq, true_and] at h
    subst h
    unfold node?
    simp only [Array.getElem?_map]
    cases l.slots[id.slot]? with
    | none => rfl
    | some slot =>
      simp only [Option.map_some, Slot.dropDisk]
      split <;> rfl

theorem detach_cases (l : Lineage) (disk : DiskHandle) :
    (∃ e, l.detach disk = (.error e, l)) ∨ ∃ m, l.detach disk = (.ok (), m) := by
  unfold detach
  split
  · exact .inl ⟨_, rfl⟩
  · exact .inr ⟨_, rfl⟩

def dropDisk (l : Lineage) (disk : DiskHandle) : Lineage :=
  { l with slots := l.slots.map (Slot.dropDisk disk) }

theorem freeSlots_dropDisk (hfree : l.FreeSlots) (disk : DiskHandle) :
    (l.dropDisk disk).FreeSlots := by
  constructor
  · intro i hi
    obtain ⟨slot, hslot, hvacant⟩ := hfree.vacant i hi
    refine ⟨slot.dropDisk disk, ?_, ?_⟩
    · simp [dropDisk, hslot]
    · simp [Slot.dropDisk, hvacant]
  · exact hfree.nodup

theorem Counted.detach (h : Counted l held owed) (disk : DiskHandle) :
    Counted (l.perform (.detach disk)) (l.heldAfter held (.detach disk)) owed := by
  dsimp only [perform, heldAfter]
  have hnode (m : Lineage) (hdetach : l.detach disk = (.ok (), m)) := node?_detach hdetach
  unfold Lineage.detach at hnode ⊢
  split at hnode
  · exact h
  · apply h.map _ _ _ (hnode _ rfl)
    · intro id
      unfold childCount
      rw [Array.countP_map]
      congr 1
      funext slot
      apply Slot.isChildOf_dropDisk
    · exact (freeSlots_dropDisk h.freeSlots disk).of_eq rfl rfl
    · intro node
      exact ⟨rfl, rfl, rfl, rfl⟩

/-! Any call. -/

theorem released_of_heldAfter {call : Call} (h : l.heldAfter held call id = false) :
    held id = false ∨ call.released? = some id := by
  cases call with
  | addRoot =>
    cases hroot : l.addRoot.1 with
    | error e =>
      simp only [heldAfter, hroot] at h
      exact .inl h
    | ok new =>
      simp only [heldAfter, hroot, Function.update_apply] at h
      split at h
      · contradiction
      · exact .inl h
  | fork forked =>
    cases hfork : (l.fork forked).1 with
    | error e =>
      simp only [heldAfter, hfork] at h
      exact .inl h
    | ok children =>
      simp only [heldAfter, hfork, Function.update_apply] at h
      split at h
      · contradiction
      · split at h
        · contradiction
        · exact .inl h
  | release released =>
    by_cases heq : id = released
    · rw [heq]
      exact .inr rfl
    · simp only [heldAfter, Function.update_of_ne heq] at h
      exact .inl h
  | attach name sectorCount => exact .inl h
  | detach disk => exact .inl h
  | write written disk index data => exact .inl h
  | writeRun written disk first data => exact .inl h

theorem Counted.perform (h : Counted l held owed) (call : Call)
    (honce : ∀ id node, call = .release id → l.node? id = some node → held id = true) :
    Counted (l.perform call) (l.heldAfter held call) owed := by
  cases call with
  | attach name sectorCount =>
    dsimp only [Lineage.perform, heldAfter, attach]
    split
    · exact h
    · exact h.of_slots_eq rfl rfl
  | detach disk => exact h.detach disk
  | addRoot => exact h.addRoot
  | fork id => exact h.fork id
  | write id disk index data => exact h.write id disk index data
  | writeRun id disk first data => exact h.writeRun id disk first data
  | release id =>
    cases hid : l.node? id with
    | none =>
      dsimp only [Lineage.perform, heldAfter]
      rw [release_of_stale hid]
      -- An id that names no live node may be marked as released without a change to any count.
      apply h.of_held_eq
      intro other node hother
      rw [Function.update_of_ne]
      intro heq
      rw [heq, hid] at hother
      contradiction
    | some node => exact (h.release (honce id node rfl hid) hid).2

end Lineage

end MachineFork
