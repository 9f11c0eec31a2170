import Mathlib.Data.List.Induction
import Mathlib.Data.List.Nodup
import MachineFork.Proofs.Lineage.Ancestors
import MachineFork.Proofs.Lineage.Consistency

/-!
This module contains how deep a lineage can get. A node does not go away before somebody has
released it by its own name, so that there have never been more nodes than slots and releases, and
every level takes two nodes. As long as there are less than 2^32 releases, depths have 32 bits.
-/

namespace MachineFork

namespace Lineage

variable {l m : Lineage} {id left right : NodeId} {id? : Option NodeId} {node : Node} {call : Call}
variable {released : NodeId → Nat}

/-! References that are taken over. -/

def Balances (l m : Lineage) : Prop :=
  ∀ id node, l.node? id = some node → ∃ node', m.node? id = some node' ∧
    node'.refcount + l.childCount id = node.refcount + m.childCount id

theorem Balances.refl (l : Lineage) : Balances l l := by
  intro id node hid
  exact ⟨node, hid, rfl⟩

theorem Balances.store (h : Balances l m) (hid : m.node? id = some node)
    (key : DiskHandle × UInt64) (sector : Sector) : Balances l (m.store id node key sector) := by
  intro other old hold
  obtain ⟨inner, hinner, hcount⟩ := h other old hold
  have hset : (m.setNode id { node with overlay := node.overlay.insert key sector }).childCount other
      = m.childCount other := childCount_setNode_of_live hid (by rfl) other
  have hsame : (m.store id node key sector).childCount other = m.childCount other := by
    rw [← hset]
    unfold Lineage.store
    dsimp only
    split <;> rfl
  rw [node?_store hid, hsame]
  split
  · next heq =>
    rw [heq, hid] at hinner
    cases hinner
    exact ⟨_, rfl, hcount⟩
  · exact ⟨inner, hinner, hcount⟩

theorem Forks.childCount_eq (h : Forks l id node left right m) (hfree : l.FreeSlots)
    (other : NodeId) : m.childCount other = l.childCount other + 2 * owing (some id) other := by
  have hfree' := freeSlots_setNode hfree h.live (forked node)
  have hfree'' := freeSlots_insertNode hfree' (child id node)
  have hparent : (l.setNode id (forked node)).childCount other = l.childCount other :=
    childCount_setNode_of_live h.live (by rfl) other
  have hleft := childCount_insertNode hfree' (child id node) other
  have hright := childCount_insertNode hfree'' (child id node) other
  unfold childCount at *
  rw [h.slots_eq, hright, hleft, hparent, Nat.add_assoc, ← Nat.two_mul]
  rfl

theorem Forks.balances (h : Forks l id node left right m) (hfree : l.FreeSlots) :
    Balances l m := by
  obtain ⟨hleft, hright⟩ := h.children_new hfree
  intro other old hold
  have hchild : ¬(other = right ∨ other = left) := by
    intro hchild
    rcases hchild with rfl | rfl <;> simp_all
  rw [h.node?_eq hfree, if_neg hchild, h.childCount_eq hfree]
  split
  · next heq =>
    rw [heq, h.live] at hold
    cases hold
    refine ⟨_, rfl, ?_⟩
    simp only [forked, owing, heq, decide_true, Bool.toNat_true]
    omega
  · next hne =>
    refine ⟨old, hold, ?_⟩
    simp [owing, Ne.symm hne]

theorem balances_perform (hfree : l.FreeSlots) (hreleased : call.released? = none) :
    Balances l (l.perform call) := by
  cases call with
  | attach name sectorCount =>
    dsimp only [perform, attach]
    split <;> exact .refl l
  | detach disk =>
    dsimp only [perform]
    cases detach_cases l disk with
    | inl hcase =>
      obtain ⟨e, hcase⟩ := hcase
      rw [hcase]
      exact .refl l
    | inr hcase =>
      obtain ⟨m, hcase⟩ := hcase
      obtain ⟨hslots, -, -⟩ := eq_of_detach hcase
      intro id node hid
      rw [hcase, node?_detach hcase, hid]
      refine ⟨_, rfl, ?_⟩
      unfold childCount
      rw [hslots, dropDisk, Array.countP_map]
      simp [Function.comp_def]
  | addRoot =>
    dsimp only [perform]
    cases addRoot_cases l with
    | inl hcase =>
      obtain ⟨e, hcase⟩ := hcase
      rw [hcase]
      exact .refl l
    | inr hcase =>
      rw [hcase]
      intro id node hid
      rw [node?_insertNode hfree, if_neg (ne_insertNode_of_live hfree hid _)]
      refine ⟨node, hid, ?_⟩
      simp [childCount_insertNode hfree]
  | fork forked =>
    dsimp only [perform]
    cases fork_cases l forked with
    | inl hcase =>
      obtain ⟨e, hcase⟩ := hcase
      rw [hcase]
      exact .refl l
    | inr hcase =>
      obtain ⟨node, left, right, m, hcase, hforks⟩ := hcase
      rw [hcase]
      exact hforks.balances hfree
  | write id disk index data =>
    exact write_preserves (P := Balances l) (fun key sector hid _ h => h.store hid key sector)
      (.refl l) id disk index data
  | writeRun id disk first data =>
    exact writeRun_preserves (P := Balances l) (fun key sector hid _ h => h.store hid key sector)
      (.refl l) id disk first data
  | release id => simp [Call.released?] at hreleased

/-! References that are dropped. -/

/--
Whether live nodes are referred to by themselves and by all of their children, but for references
that have been released by name, as often as `released` says. One more reference is about to be taken
from `id?`.
-/
def Backed (l : Lineage) (released : NodeId → Nat) (id? : Option NodeId) : Prop :=
  ∀ id node, l.node? id = some node →
    1 + l.childCount id + owing id? id ≤ node.refcount + released id

namespace Backed

theorem kept (h : Backed l released id?) : Backed l released none := by
  intro id node hid
  have hold := h id node hid
  rw [owing_none]
  omega

theorem dropped (h : Backed l released (some id)) (hid : l.node? id = some node) :
    Backed (l.setNode id { node with refcount := node.refcount - 1 }) released none := by
  intro other inner hother
  have hcount : (l.setNode id { node with refcount := node.refcount - 1 }).childCount other
      = l.childCount other := childCount_setNode_of_live hid (by rfl) other
  rw [node?_setNode_of_live hid] at hother
  split at hother
  · next heq =>
    cases hother
    have hold := h id node hid
    simp only [owing, heq, decide_true, Bool.toNat_true] at hcount hold ⊢
    simp only [reduceCtorEq, decide_false, Bool.toNat_false]
    omega
  · have hold := h other inner hother
    rw [owing_none]
    omega

theorem freed (h : Backed l released (some id)) (hid : l.node? id = some node) :
    Backed (l.freeNode id node) released node.parent := by
  intro other inner hother
  have hcount := childCount_freeNode hid other
  rw [node?_freeNode hid] at hother
  split at hother
  · contradiction
  · have hold := h other inner hother
    unfold owing at hold ⊢
    omega

theorem releaseUp (h : Backed l released id?) (rounds : Nat) :
    Backed (l.releaseUp id? rounds).2 released none ∧
      ∀ id, l.isLive id = true → (l.releaseUp id? rounds).2.isLive id = true ∨ 0 < released id := by
  induction rounds generalizing l id? with
  | zero => exact ⟨h.kept, fun _ => .inl⟩
  | succ rounds ih =>
    unfold Lineage.releaseUp
    split
    · exact ⟨h.kept, fun _ => .inl⟩
    · split
      · exact ⟨h.kept, fun _ => .inl⟩
      · next id _ node hid =>
        dsimp only
        split
        · refine ⟨h.dropped hid, ?_⟩
          intro other hlive
          rw [isLive, node?_setNode_of_live hid]
          split
          · exact .inl rfl
          · exact .inl hlive
        · next hlast =>
          obtain ⟨hbacked, hrest⟩ := ih (h.freed hid)
          refine ⟨hbacked, ?_⟩
          intro other hlive
          by_cases heq : other = id
          · -- One reference is taken back, and there has been another one, for the node itself.
            have hold := h id node hid
            simp only [owing, decide_true, Bool.toNat_true] at hold
            rw [heq]
            exact .inr (by omega)
          · apply hrest
            rwa [isLive, node?_freeNode hid, if_neg heq]

theorem perform (h : Backed l released none) (hfree : l.FreeSlots)
    (htallied : Tallied (l.perform call)) (hlinked : Linked (l.perform call)) :
    Backed (l.perform call) (fun id => released id + owing call.released? id) none ∧
      ∀ id, l.isLive id = true →
        (l.perform call).isLive id = true ∨ 0 < released id + owing call.released? id := by
  cases hreleased : call.released? with
  | some id =>
    obtain rfl := Call.eq_release hreleased
    have hbacked : Backed l (fun other => released other + owing (some id) other) (some id) := by
      intro other node hother
      have hold := h other node hother
      rw [owing_none] at hold
      dsimp only
      omega
    exact hbacked.releaseUp _
  | none =>
    have hbalances := balances_perform hfree hreleased
    constructor
    · intro id node hid
      by_cases hissued : id ∈ l.issues call
      · -- Nobody can be below a node that has just been issued.
        have hchildless : (l.perform call).childCount id = 0 := by
          apply Nat.eq_zero_of_not_pos
          intro hpos
          obtain ⟨child, inner, hchild, hparent⟩ := exists_child hpos
          obtain ⟨-, new, hnew, -, hopen⟩ := (issues_new hfree call).2 id hissued
          rw [hlinked.frozen hchild hparent hnew] at hopen
          contradiction
        have hreferenced := htallied.referenced hid
        rw [hchildless, owing_none]
        omega
      · obtain ⟨old, hold, -⟩ := live_before hfree hid hissued
        obtain ⟨same, hsame, hcount⟩ := hbalances id old hold
        obtain rfl := Option.some.inj (hid.symm.trans hsame)
        have hbefore := h id old hold
        rw [owing_none] at hbefore
        dsimp only
        rw [owing_none]
        omega
    · intro id hlive
      obtain ⟨node, hid⟩ := Option.isSome_iff_exists.mp hlive
      obtain ⟨same, hsame, -⟩ := hbalances id node hid
      rw [isLive, hsame]
      exact .inl rfl

end Backed

/-! Nodes that have been issued. -/

theorem issued_concat (l : Lineage) (calls : List Call) (call : Call) :
    l.issued (calls ++ [call]) = l.issued calls ++ (l.performAll calls).issues call := by
  induction calls generalizing l with
  | nil => simp [issued, trace, performAll]
  | cons first calls ih =>
    rw [List.cons_append, issued_cons, ih, issued_cons, performAll_cons, List.append_assoc]

theorem count_released_concat (calls : List Call) (call : Call) (id : NodeId) :
    ((calls ++ [call]).filterMap Call.released?).count id =
      (calls.filterMap Call.released?).count id + owing call.released? id := by
  rw [List.filterMap_append, List.count_append]
  congr 1
  cases hreleased : call.released? with
  | none => simp [hreleased]
  | some other =>
    rw [List.filterMap_cons_some hreleased, List.filterMap_nil, List.count_singleton]
    by_cases heq : other = id <;> simp [owing, heq]

theorem backed_performAll (calls : List Call) (hroom : releases calls < UInt32.size) :
    Backed (performAll {} calls) (fun id => (calls.filterMap Call.released?).count id) none ∧
      ∀ id ∈ issued {} calls, (performAll {} calls).isLive id = true ∨
        0 < (calls.filterMap Call.released?).count id := by
  induction calls using List.reverseRecOn with
  | nil =>
    constructor
    · intro id node hid
      simp [performAll, node?] at hid
    · simp [issued, trace]
  | append_singleton calls call ih =>
    have hlinked := linked_performAll (calls ++ [call]) hroom
    rw [releases_append] at hroom
    obtain ⟨hbacked, hissued⟩ := ih (by omega)
    obtain ⟨htallied, -⟩ := Tallied.empty.performAll calls
    rw [performAll_append] at hlinked ⊢
    obtain ⟨hbacked, hstays⟩ :=
      hbacked.perform htallied.freeSlots (htallied.perform call) hlinked
    simp only [count_released_concat, issued_concat, List.mem_append]
    refine ⟨hbacked, ?_⟩
    intro id hid
    cases hid with
    | inl hearlier =>
      cases hissued id hearlier with
      | inl hlive => exact hstays id hlive
      | inr hreleased => exact .inr (by omega)
    | inr hnew =>
      obtain ⟨-, node, hnode, -⟩ := (issues_new htallied.freeSlots call).2 id hnew
      refine .inl ?_
      change ((performAll {} calls).perform call).isLive id = true
      rw [isLive, hnode, Option.isSome_some]

theorem length_issued_le (calls : List Call) (hroom : releases calls < UInt32.size) :
    (issued {} calls).length ≤ (performAll {} calls).slots.size + releases calls := by
  obtain ⟨-, hissued⟩ := backed_performAll calls hroom
  have hfree := Tallied.empty.freeSlots
  obtain ⟨-, -, hnodup, -⟩ := ages_of_performAll hfree vacatedAtMost_empty calls (by omega)
  generalize performAll {} calls = l at hissued ⊢
  have hsplit := List.length_eq_length_filter_add (l := issued {} calls) (l.isLive ·)
  have hlive : ((issued {} calls).filter (l.isLive ·)).length ≤ l.slots.size := by
    have hinjective : ∀ id ∈ (issued {} calls).filter (l.isLive ·),
        ∀ other ∈ (issued {} calls).filter (l.isLive ·), id.slot = other.slot → id = other := by
      intro id hid other hother heq
      obtain ⟨_, hid⟩ := Option.isSome_iff_exists.mp (List.mem_filter.mp hid).2
      obtain ⟨_, hother⟩ := Option.isSome_iff_exists.mp (List.mem_filter.mp hother).2
      exact eq_of_slot_eq hid hother heq
    have hslots := List.Nodup.map_on hinjective (hnodup.filter (l.isLive ·))
    have hsubset : ((issued {} calls).filter (l.isLive ·)).map (·.slot) ⊆
        List.range l.slots.size := by
      intro slot hslot
      obtain ⟨id, hid, rfl⟩ := List.mem_map.mp hslot
      obtain ⟨_, hid⟩ := Option.isSome_iff_exists.mp (List.mem_filter.mp hid).2
      exact List.mem_range.mpr (slot_lt_of_node? hid)
    have hlength := (List.subperm_of_subset hslots hsubset).length_le
    rwa [List.length_map, List.length_range] at hlength
  have hgone : ((issued {} calls).filter fun id => !l.isLive id).length ≤ releases calls := by
    have hsubset : ((issued {} calls).filter fun id => !l.isLive id) ⊆
        calls.filterMap Call.released? := by
      intro id hid
      obtain ⟨hid, hgone⟩ := List.mem_filter.mp hid
      rw [Bool.not_eq_true'] at hgone
      rcases hissued id hid with hlive | hreleased
      · rw [hgone] at hlive
        contradiction
      · exact List.count_pos_iff.mp hreleased
    exact (List.subperm_of_subset (hnodup.filter _) hsubset).length_le
  omega

/-! Slots. -/

theorem size_insertNode (l : Lineage) (node : Node) :
    (l.insertNode node).2.slots.size = l.slots.size + (1 - l.free.length) ∧
      (l.insertNode node).2.free = l.free.tail := by
  unfold insertNode
  split
  · next heq => simp [setNode, heq]
  · next heq => simp [heq]

theorem size_store (l : Lineage) (id : NodeId) (node : Node) (key : DiskHandle × UInt64)
    (sector : Sector) : (l.store id node key sector).slots.size = l.slots.size := by
  unfold store
  dsimp only
  split <;> exact Array.size_modify

theorem le_of_requireRoom {count : Nat} (h : l.requireRoom count = .ok ()) :
    l.slots.size + (count - l.free.length) ≤ maxIndex := by
  unfold requireRoom at h
  dsimp only at h
  split at h
  · contradiction
  · omega

theorem size_perform_le (h : l.slots.size ≤ maxIndex) (call : Call) :
    (l.perform call).slots.size ≤ maxIndex := by
  cases call with
  | attach name sectorCount =>
    dsimp only [perform, attach]
    split <;> exact h
  | detach disk =>
    dsimp only [perform, detach]
    split
    · exact h
    · rwa [Array.size_map]
  | addRoot =>
    dsimp only [perform, addRoot]
    split
    · exact h
    · next hroom =>
      dsimp only
      rw [(size_insertNode l _).1]
      exact le_of_requireRoom hroom
  | fork id =>
    dsimp only [perform, fork]
    split
    · exact h
    · next hroom =>
      split
      · exact h
      · split
        · exact h
        · have hroom := le_of_requireRoom hroom
          dsimp only
          rw [(size_insertNode _ _).1, (size_insertNode _ _).1, (size_insertNode _ _).2,
            List.length_tail, setNode, Array.size_modify]
          dsimp only
          omega
  | write id disk index data =>
    apply write_preserves (P := (·.slots.size ≤ maxIndex)) _ h
    intro l id node key sector _ _ h
    rwa [size_store]
  | writeRun id disk first data =>
    apply writeRun_preserves (P := (·.slots.size ≤ maxIndex)) _ h
    intro l id node key sector _ _ h
    rwa [size_store]
  | release id =>
    dsimp only [perform]
    rwa [(frame_release l id).2]

theorem size_performAll_le_maxIndex (h : l.slots.size ≤ maxIndex) (calls : List Call) :
    (l.performAll calls).slots.size ≤ maxIndex := by
  induction calls generalizing l with
  | nil => exact h
  | cons call calls ih => exact ih (size_perform_le h call)

/-! Depths. -/

theorem length_issues_fork (h : id ∈ l.issues (.fork left)) :
    (l.issues (.fork left)).length = 2 := by
  unfold issues at h ⊢
  dsimp only at h ⊢
  split at h
  · rfl
  · contradiction

theorem depth_lt_length_issued (calls : List Call) (hid : (performAll {} calls).node? id = some node) :
    2 * node.depth < (issued {} calls).length := by
  induction calls using List.reverseRecOn generalizing id node with
  | nil => simp [performAll, node?] at hid
  | append_singleton calls call ih =>
    have hfree := Tallied.empty.freeSlots.performAll calls
    rw [issued_concat, List.length_append]
    rw [performAll_append] at hid
    change ((performAll {} calls).perform call).node? id = some node at hid
    by_cases hissued : id ∈ (performAll {} calls).issues call
    · obtain ⟨new, hnew, hdepth⟩ := depth_issued hfree hissued
      obtain rfl := Option.some.inj (hid.symm.trans hnew)
      have hpos := List.length_pos_of_mem hissued
      cases hforked : call.forked? with
      | none =>
        rw [hforked] at hdepth
        omega
      | some parent =>
        obtain rfl := Call.eq_fork hforked
        rw [hforked] at hdepth
        obtain ⟨above, habove, hlevel⟩ := hdepth
        have hlength := length_issues_fork hissued
        have hless := ih habove
        omega
    · obtain ⟨old, hold, -⟩ := live_before hfree hid hissued
      have hless := ih hold
      rw [← depth_perform hfree hold hid] at hless
      omega

theorem depth_lt_of_history (calls : List Call) (hroom : releases calls < UInt32.size)
    (hid : (performAll {} calls).node? id = some node) : node.depth < UInt32.size := by
  have hdepth := depth_lt_length_issued calls hid
  have hissued := length_issued_le calls hroom
  have hsize := size_performAll_le_maxIndex (l := {}) (Nat.zero_le _) calls
  unfold maxIndex at hsize
  omega

end Lineage

end MachineFork
