import Mathlib.Data.List.Nodup
import MachineFork.Proofs.Lineage.Failures
import MachineFork.Proofs.Lineage.Ownership

/-!
This module contains lineages whose nodes belong to owners. Every owner has a node of its own and
knows whether it is frozen. The release of a node may be put off; until then it is pending, and
keeps the node as an owner would.
-/

namespace MachineFork

namespace Lineage

variable {l m : Lineage} {owners owners' : List (NodeId × Bool)} {pending : List NodeId}
variable {id left right : NodeId} {call : Call} {frozen : Bool}

structure Owned (l : Lineage) (owners : List (NodeId × Bool)) (pending : List NodeId) : Prop where
  counted : Counted l (fun _ => false) fun id => (owners.map Prod.fst).count id + pending.count id
  tallied : l.Tallied
  frozen : ∀ owner ∈ owners, l.isFrozen owner.1 = .ok owner.2
  nodup : (owners.map Prod.fst).Nodup

namespace Owned

theorem empty : Owned {} [] [] where
  counted := counted_empty _
  tallied := .empty
  frozen := by simp
  nodup := List.nodup_nil

theorem perm (h : Owned l owners pending) (hperm : owners.Perm owners') :
    Owned l owners' pending where
  counted := by
    convert h.counted using 3
    exact ((hperm.map Prod.fst).count_eq _).symm
  tallied := h.tallied
  frozen := fun owner hmem => h.frozen owner (hperm.mem_iff.mpr hmem)
  nodup := (hperm.map Prod.fst).nodup_iff.mp h.nodup

theorem live (h : Owned l owners pending) {owner : NodeId × Bool} (hmem : owner ∈ owners) :
    ∃ node, l.node? owner.1 = some node ∧ node.frozen = owner.2 :=
  isFrozen_eq_ok_iff.mp (h.frozen owner hmem)

theorem not_mem (h : Owned l owners pending) (hnone : l.node? id = none) :
    id ∉ owners.map Prod.fst := by
  intro hmem
  obtain ⟨owner, howner, rfl⟩ := List.mem_map.mp hmem
  obtain ⟨node, hid, -⟩ := h.live howner
  rw [hnone] at hid
  contradiction

theorem issue (h : Owned l owners pending) (call : Call) (hreleased : call.released? = none)
    (owners' : List (NodeId × Bool)) (hsame : owners'.map Prod.fst = owners.map Prod.fst)
    (hfrozen : ∀ owner ∈ owners', (l.perform call).isFrozen owner.1 = .ok owner.2) :
    Owned (l.perform call) ((l.issues call).map (·, false) ++ owners') pending := by
  obtain ⟨hnodup, hnew⟩ := issues_new h.tallied.freeSlots call
  have hnodes : ((l.issues call).map (·, false) ++ owners').map Prod.fst
      = l.issues call ++ owners.map Prod.fst := by
    simp [hsame, Function.comp_def]
  constructor
  · have hcounted := h.counted.own call (by
      intro id node hcall
      simp [hcall, Call.released?] at hreleased)
    convert hcounted using 2
    simp only [hnodes, List.count_append, owedAfter, hreleased, owing_none]
    omega
  · exact h.tallied.perform call
  · intro owner hmem
    rcases List.mem_append.mp hmem with hmem | hmem
    · obtain ⟨id, hid, rfl⟩ := List.mem_map.mp hmem
      obtain ⟨-, node, hnode, -, hopen⟩ := hnew id hid
      exact isFrozen_eq_ok_iff.mpr ⟨node, hnode, hopen⟩
    · exact hfrozen owner hmem
  · rw [hnodes]
    apply List.Nodup.append hnodup h.nodup
    intro id hissued hmem
    exact h.not_mem (hnew id hissued).1 hmem

theorem perform (h : Owned l owners pending) (call : Call) (hissues : l.issues call = [])
    (hreleased : call.released? = none)
    (hfrozen : ∀ id, (l.perform call).isFrozen id = l.isFrozen id) :
    Owned (l.perform call) owners pending := by
  have hissued := h.issue call hreleased owners rfl fun owner hmem =>
    (hfrozen owner.1).trans (h.frozen owner hmem)
  rwa [hissues] at hissued

theorem addRoot (h : Owned l owners pending) (hroot : l.addRoot = (.ok id, m)) :
    Owned m ((id, false) :: owners) pending := by
  have hissues : l.issues .addRoot = [id] := by rw [issues, hroot]
  have hperform : l.perform .addRoot = m := by rw [Lineage.perform, hroot]
  have hnew := ((issues_new h.tallied.freeSlots .addRoot).2 id (by simp [hissues])).1
  have hissued := h.issue .addRoot rfl owners rfl (by
    intro owner hmem
    rw [hperform, ← h.frozen owner hmem]
    apply isFrozen_congr
    have hnode := node?_insertNode h.tallied.freeSlots { parent := none, depth := 0 } owner.1
    rw [insertNode_of_addRoot hroot, if_neg] at hnode
    · rw [hnode]
    · rintro rfl
      exact h.not_mem hnew (List.mem_map_of_mem hmem))
  rwa [hissues, hperform] at hissued

theorem fork (h : Owned l ((id, false) :: owners) pending)
    (hfork : l.fork id = (.ok (left, right), m)) :
    Owned m ((left, false) :: (right, false) :: (id, true) :: owners) pending := by
  have hissues : l.issues (.fork id) = [left, right] := by rw [issues, hfork]
  have hperform : l.perform (.fork id) = m := by rw [Lineage.perform, hfork]
  obtain ⟨node, hforks⟩ := forks_of_fork hfork
  have hnode := hforks.node?_eq h.tallied.freeSlots
  obtain ⟨hleft, hright⟩ := hforks.children_new h.tallied.freeSlots
  have hneither {other : NodeId} (hmem : other ∈ ((id, false) :: owners).map Prod.fst) :
      ¬(other = right ∨ other = left) := by
    rintro (rfl | rfl)
    · exact h.not_mem hright hmem
    · exact h.not_mem hleft hmem
  have hissued := h.issue (.fork id) rfl ((id, true) :: owners) rfl (by
    rw [hperform, List.forall_mem_cons]
    constructor
    · rw [isFrozen_eq_ok_iff]
      exact ⟨forked node, by rw [hnode, if_neg (hneither (.head _)), if_pos rfl], rfl⟩
    · intro owner hmem
      have hmem' : owner.1 ∈ owners.map Prod.fst := List.mem_map_of_mem hmem
      rw [← h.frozen owner (.tail _ hmem)]
      apply isFrozen_congr
      rw [hnode, if_neg (hneither (.tail _ hmem')), if_neg]
      intro heq
      exact (List.nodup_cons.mp h.nodup).1 (heq ▸ hmem'))
  rwa [hissues, hperform] at hissued

theorem release (h : Owned l owners (id :: pending)) : Owned (l.release id).2 owners pending := by
  have hpos : 0 < (owners.map Prod.fst).count id + (id :: pending).count id := by
    rw [List.count_cons_self]
    omega
  have hcounted := (h.counted.release_owed hpos).2
  refine ⟨?_, h.tallied.perform (.release id), ?_, h.nodup⟩
  · convert hcounted using 2
    next other =>
    rw [List.count_cons]
    by_cases heq : id = other
    · simp [owing, heq]
    · simp [owing, heq]
  · intro owner hmem
    have howed : 0 < (owners.map Prod.fst).count owner.1 :=
      List.count_pos_iff.mpr (List.mem_map_of_mem hmem)
    obtain ⟨node, hid⟩ := hcounted.owed_live owner.1 (by
      rw [List.count_cons]
      unfold owing
      split <;> simp_all)
    rw [(kept_release l id).isFrozen_eq hid, h.frozen owner hmem]

theorem putOff (h : Owned l ((id, frozen) :: owners) pending) :
    Owned l owners (pending ++ [id]) where
  counted := by
    convert h.counted using 2
    next other =>
    simp only [List.map_cons, List.count_cons, List.count_append, List.count_nil]
    omega
  tallied := h.tallied
  frozen := fun owner hmem => h.frozen owner (.tail _ hmem)
  nodup := (List.nodup_cons.mp h.nodup).2

theorem eq_zero (h : Owned l [] []) :
    l.stats.liveNodes = 0 ∧ l.stats.overlaySectors = 0 ∧ l.stats.overlayBytes = 0 := by
  apply h.tallied.eq_zero
  intro id
  apply h.counted.no_node h.tallied
  intro id
  rfl

end Owned

end Lineage

end MachineFork
