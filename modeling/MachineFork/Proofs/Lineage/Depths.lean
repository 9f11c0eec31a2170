import MachineFork.Proofs.Lineage.Ownership

/-!
This module contains that nodes keep the depth that they are issued with, whatever becomes of the
slots around them.
-/

namespace MachineFork

namespace Lineage

variable {l m : Lineage} {id : NodeId} {node node' : Node} {call : Call} {disk : DiskHandle}
variable {first : UInt64} {data : Bytes}

theorem Stores.depth_eq (h : Stores l id disk first data m) {other : NodeId}
    (hid : l.node? other = some node) (hid' : m.node? other = some node') :
    node'.depth = node.depth := by
  obtain ⟨written, overlay, hwritten, -, hnode, -⟩ := h
  rw [hnode] at hid'
  split at hid'
  · next heq =>
    rw [heq, hwritten] at hid
    cases hid
    cases hid'
    rfl
  · rw [hid] at hid'
    cases hid'
    rfl

theorem Forks.depth_eq {forked left right : NodeId} {above : Node}
    (h : Forks l forked above left right m) (hfree : l.FreeSlots) (hid : l.node? id = some node)
    (hid' : m.node? id = some node') : node'.depth = node.depth := by
  obtain ⟨hleft, hright⟩ := h.children_new hfree
  rw [h.node?_eq hfree] at hid'
  split at hid'
  · next hchild =>
    rcases hchild with rfl | rfl <;> simp_all
  · split at hid'
    · next heq =>
      rw [heq, h.live] at hid
      cases hid
      cases hid'
      rfl
    · rw [hid] at hid'
      cases hid'
      rfl

theorem depth_perform (hfree : l.FreeSlots) (hid : l.node? id = some node)
    (hid' : (l.perform call).node? id = some node') : node'.depth = node.depth := by
  have hsame (h : l.node? id = some node') : node'.depth = node.depth := by
    rw [hid] at h
    cases h
    rfl
  cases call with
  | attach name sectorCount =>
    dsimp only [perform, attach] at hid'
    split at hid' <;> exact hsame hid'
  | detach disk =>
    dsimp only [perform] at hid'
    cases detach_cases l disk with
    | inl hcase =>
      obtain ⟨e, hcase⟩ := hcase
      rw [hcase] at hid'
      exact hsame hid'
    | inr hcase =>
      obtain ⟨m, hcase⟩ := hcase
      rw [hcase, node?_detach hcase, hid] at hid'
      cases hid'
      rfl
  | addRoot =>
    dsimp only [perform] at hid'
    cases addRoot_cases l with
    | inl hcase =>
      obtain ⟨e, hcase⟩ := hcase
      rw [hcase] at hid'
      exact hsame hid'
    | inr hcase =>
      rw [hcase, node?_insertNode hfree, if_neg (ne_insertNode_of_live hfree hid _)] at hid'
      exact hsame hid'
  | fork forked =>
    dsimp only [perform] at hid'
    cases fork_cases l forked with
    | inl hcase =>
      obtain ⟨e, hcase⟩ := hcase
      rw [hcase] at hid'
      exact hsame hid'
    | inr hcase =>
      obtain ⟨above, left, right, m, hcase, hforks⟩ := hcase
      rw [hcase] at hid'
      exact hforks.depth_eq hfree hid hid'
  | write written disk index data =>
    dsimp only [perform] at hid'
    cases write_cases l written disk index data with
    | inl hcase =>
      obtain ⟨e, hcase⟩ := hcase
      rw [hcase] at hid'
      exact hsame hid'
    | inr hcase =>
      obtain ⟨old, sector, hlive, -, -, hcase⟩ := hcase
      rw [hcase] at hid'
      exact (stores_store hlive sector).depth_eq hid hid'
  | writeRun written disk first data =>
    dsimp only [perform] at hid'
    cases writeRun_cases l written disk first data with
    | inl hcase =>
      obtain ⟨e, hcase⟩ := hcase
      rw [hcase] at hid'
      exact hsame hid'
    | inr hcase =>
      obtain ⟨old, m, -, -, hcase, hstores⟩ := hcase
      rw [hcase] at hid'
      exact hstores.depth_eq hid hid'
  | release released =>
    obtain ⟨refcount, hold⟩ := kept_release l released id node' hid'
    rw [hid] at hold
    cases hold
    rfl

theorem depth_issued (hfree : l.FreeSlots) (hissued : id ∈ l.issues call) :
    ∃ node, (l.perform call).node? id = some node ∧
      match call.forked? with
      | none => node.depth = 0
      | some parent => ∃ above, l.node? parent = some above ∧ node.depth = above.depth + 1 := by
  cases call with
  | addRoot =>
    dsimp only [issues, perform] at hissued ⊢
    cases addRoot_cases l with
    | inl hcase =>
      obtain ⟨e, hcase⟩ := hcase
      simp [hcase] at hissued
    | inr hcase =>
      rw [hcase] at hissued ⊢
      obtain rfl := List.mem_singleton.mp hissued
      exact ⟨{ parent := none, depth := 0 }, by rw [node?_insertNode hfree, if_pos rfl], rfl⟩
  | fork forked =>
    dsimp only [issues, perform] at hissued ⊢
    cases fork_cases l forked with
    | inl hcase =>
      obtain ⟨e, hcase⟩ := hcase
      simp [hcase] at hissued
    | inr hcase =>
      obtain ⟨above, left, right, m, hcase, hforks⟩ := hcase
      rw [hcase] at hissued ⊢
      have hchild : id = right ∨ id = left := (List.mem_pair.mp hissued).symm
      exact ⟨child forked above, by rw [hforks.node?_eq hfree, if_pos hchild],
        above, hforks.live, rfl⟩
  | _ => simp [issues] at hissued

end Lineage

end MachineFork
