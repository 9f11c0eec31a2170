import MachineFork.Proofs.Lineage.Statistics

/-!
This module contains how much room a lineage takes up that only grows as it should: there are no more
slots than there have been nodes, and nobody but its owner refers to a node that has not been forked.
So if such a node cannot be forked, it is because the slots have run out, and that takes very many
forks.
-/

namespace MachineFork

namespace Lineage

variable {l : Lineage} {id : NodeId} {node old : Node}

structure Sparing (l : Lineage) : Prop where
  size_le : l.slots.size ≤ l.stats.liveNodes + l.stats.releasedNodes
  unshared : ∀ {id node}, l.node? id = some node → node.frozen = false → node.refcount ≤ 1

namespace Sparing

theorem setNode (h : Sparing l) (hid : l.node? id = some old)
    (hnode : node.frozen = false → node.refcount ≤ 1) : Sparing (l.setNode id node) where
  size_le := by
    rw [Lineage.setNode, Array.size_modify]
    exact h.size_le
  unshared := by
    intro other inner hother hopen
    rw [node?_setNode_of_live hid] at hother
    split at hother
    · cases hother
      exact hnode hopen
    · exact h.unshared hother hopen

theorem account (h : Sparing l) (stats : Stats)
    (hnodes : l.stats.liveNodes + l.stats.releasedNodes ≤ stats.liveNodes + stats.releasedNodes) :
    Sparing { l with stats } :=
  ⟨Nat.le_trans h.size_le hnodes, h.unshared⟩

theorem store (h : Sparing l) (hid : l.node? id = some node) (key : DiskHandle × UInt64)
    (sector : Sector) : Sparing (l.store id node key sector) := by
  have hunshared := h.unshared hid
  have hset : Sparing (l.setNode id { node with overlay := node.overlay.insert key sector }) :=
    h.setNode hid hunshared
  unfold Lineage.store
  dsimp only
  split
  · exact hset.account _ (Nat.le_refl _)
  · exact hset

theorem insertNode (h : Sparing l) (hfree : l.FreeSlots) (node : Node) (hnode : node.refcount ≤ 1) :
    Sparing (l.insertNode node).2 where
  size_le := by
    have hsize := h.size_le
    unfold Lineage.insertNode
    split
    · dsimp only [Lineage.setNode]
      rw [Array.size_modify]
      omega
    · rw [Array.size_push]
      dsimp only
      omega
  unshared := by
    intro other inner hother hopen
    rw [node?_insertNode hfree] at hother
    split at hother
    · cases hother
      exact hnode
    · exact h.unshared hother hopen

theorem freeNode (h : Sparing l) (htallied : l.Tallied) (hid : l.node? id = some node) :
    Sparing (l.freeNode id node) where
  size_le := by
    have hsize := h.size_le
    have hlive := htallied.liveNodes
    have hcount := liveCount_freeNode hid
    rw [stats_freeNode, Lineage.freeNode, Array.size_modify]
    dsimp only
    omega
  unshared := by
    intro other inner hother hopen
    rw [node?_freeNode hid] at hother
    split at hother
    · contradiction
    · exact h.unshared hother hopen

theorem releaseUp (h : Sparing l) (htallied : l.Tallied) (id? : Option NodeId) (rounds : Nat) :
    Sparing (l.releaseUp id? rounds).2 := by
  induction rounds generalizing l id? with
  | zero => exact h
  | succ rounds ih =>
    unfold Lineage.releaseUp
    split
    · exact h
    · split
      · exact h
      · next node hid =>
        dsimp only
        split
        · apply h.setNode hid
          intro hopen
          have hone := h.unshared hid hopen
          dsimp only
          omega
        · exact ih (h.freeNode htallied hid) (htallied.freeNode hid) _

theorem fork (h : Sparing l) (hfree : l.FreeSlots) (id : NodeId) : Sparing (l.fork id).2 := by
  unfold Lineage.fork
  split
  · exact h
  · split
    · exact h
    · next node hid =>
      split
      · exact h
      · have hparent : Sparing (l.setNode id (forked node)) := h.setNode hid (by simp [forked])
        have hfree' := freeSlots_setNode hfree hid (forked node)
        have hleft := hparent.insertNode hfree' (child id node) (Nat.le_refl _)
        have hfree'' := freeSlots_insertNode hfree' (child id node)
        have hright := hleft.insertNode hfree'' (child id node) (Nat.le_refl _)
        exact hright.account _ (Nat.le_refl _)

theorem fork_cases (h : Sparing l) (hid : l.node? id = some node) (hopen : node.frozen = false) :
    (∃ needed, maxIndex < needed ∧ needed ≤ l.slots.size + 2 ∧
        l.fork id = (.error (.outOfMemory needed), l)) ∨
      ∃ left right m, l.fork id = (.ok (left, right), m) := by
  have hrefs := h.unshared hid hopen
  unfold Lineage.fork requireRoom
  dsimp only
  split
  · next hroom =>
    split at hroom
    · next hfull =>
      cases hroom
      exact .inl ⟨_, hfull, by omega, rfl⟩
    · contradiction
  · rw [hid]
    dsimp only
    rw [if_neg]
    · exact .inr ⟨_, _, _, rfl⟩
    · rw [maxIndex, UInt32.size]
      omega

end Sparing

end Lineage

end MachineFork
