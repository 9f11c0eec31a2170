import Mathlib.Data.List.Count
import Mathlib.Logic.Relation
import MachineFork.Proofs.Lineage.Statistics

/-!
This module contains who keeps the nodes of a lineage alive. A node has an owner from when it is
issued until it is released, and it is live for just as long as it, or a node that descends from it,
has one.
-/

namespace MachineFork

namespace Lineage

def issues (l : Lineage) : Call → List NodeId
  | .addRoot =>
    match l.addRoot.1 with
    | .ok id => [id]
    | .error _ => []
  | .fork id =>
    match (l.fork id).1 with
    | .ok (left, right) => [left, right]
    | .error _ => []
  | _ => []

def Call.forked? : Call → Option NodeId
  | fork id => some id
  | _ => none

def owedAfter (l : Lineage) (owed : NodeId → Nat) (call : Call) (id : NodeId) : Nat :=
  owed id + (l.issues call).count id - owing call.released? id

variable {l m : Lineage} {owed : NodeId → Nat} {id left right : NodeId} {node : Node} {call : Call}

/-! What a call issues. -/

theorem Forks.left_ne_right (h : Forks l id node left right m) (hfree : l.FreeSlots) :
    left ≠ right := by
  have hfree' := freeSlots_setNode hfree h.live (forked node)
  have hfree'' := freeSlots_insertNode hfree' (child id node)
  have hleft := node?_insertNode hfree' (child id node) left
  rw [if_pos h.left_eq] at hleft
  have := ne_insertNode_of_live hfree'' hleft (child id node)
  rwa [← h.right_eq] at this

theorem issues_new (hfree : l.FreeSlots) (call : Call) :
    (l.issues call).Nodup ∧ ∀ id ∈ l.issues call, l.node? id = none ∧
      ∃ node, (l.perform call).node? id = some node ∧ node.parent = call.forked? ∧
        node.frozen = false := by
  cases call with
  | addRoot =>
    dsimp only [issues, perform]
    cases addRoot_cases l with
    | inl hcase =>
      obtain ⟨e, hcase⟩ := hcase
      simp [hcase]
    | inr hcase =>
      rw [hcase]
      refine ⟨by simp, ?_⟩
      intro id hid
      obtain rfl := List.mem_singleton.mp hid
      refine ⟨node?_insertNode_self hfree _, { parent := none, depth := 0 }, ?_, rfl, rfl⟩
      rw [node?_insertNode hfree, if_pos rfl]
  | fork forked =>
    dsimp only [issues, perform]
    cases fork_cases l forked with
    | inl hcase =>
      obtain ⟨e, hcase⟩ := hcase
      simp [hcase]
    | inr hcase =>
      obtain ⟨node, left, right, m, hcase, hforks⟩ := hcase
      rw [hcase]
      dsimp only
      have hne := hforks.left_ne_right hfree
      obtain ⟨hleft, hright⟩ := hforks.children_new hfree
      have hnode := hforks.node?_eq hfree
      refine ⟨by simp [hne], ?_⟩
      intro id hid
      rw [List.mem_pair] at hid
      constructor
      · rcases hid with rfl | rfl <;> assumption
      · exact ⟨child forked node, by rw [hnode, if_pos hid.symm], rfl, rfl⟩
  | _ => simp [issues]

def Continues (l m : Lineage) : Prop :=
  ∀ id node, m.node? id = some node → ∃ old, l.node? id = some old ∧ old.parent = node.parent

theorem Continues.refl (l : Lineage) : Continues l l := by
  intro id node h
  exact ⟨node, h, rfl⟩

theorem Continues.store (h : Continues l m) (hid : m.node? id = some node)
    (key : DiskHandle × UInt64) (sector : Sector) : Continues l (m.store id node key sector) := by
  intro other inner hother
  rw [node?_store hid] at hother
  split at hother
  · next heq =>
    rw [Option.some.injEq] at hother
    subst heq hother
    exact h other node hid
  · exact h other inner hother

theorem live_before (hfree : l.FreeSlots) (hid : (l.perform call).node? id = some node)
    (hissued : id ∉ l.issues call) :
    ∃ old, l.node? id = some old ∧ old.parent = node.parent := by
  cases call with
  | attach name sectorCount =>
    dsimp only [perform, attach] at hid
    split at hid <;> exact ⟨node, hid, rfl⟩
  | detach disk =>
    dsimp only [perform] at hid
    cases detach_cases l disk with
    | inl hcase =>
      obtain ⟨e, hcase⟩ := hcase
      rw [hcase] at hid
      exact ⟨node, hid, rfl⟩
    | inr hcase =>
      obtain ⟨m, hcase⟩ := hcase
      rw [hcase, node?_detach hcase, Option.map_eq_some_iff] at hid
      obtain ⟨old, hold, rfl⟩ := hid
      exact ⟨old, hold, rfl⟩
  | addRoot =>
    dsimp only [issues, perform] at hid hissued
    cases addRoot_cases l with
    | inl hcase =>
      obtain ⟨e, hcase⟩ := hcase
      rw [hcase] at hid
      exact ⟨node, hid, rfl⟩
    | inr hcase =>
      rw [hcase] at hid hissued
      rw [node?_insertNode hfree, if_neg (by simpa using hissued)] at hid
      exact ⟨node, hid, rfl⟩
  | fork forked =>
    dsimp only [issues, perform] at hid hissued
    cases fork_cases l forked with
    | inl hcase =>
      obtain ⟨e, hcase⟩ := hcase
      rw [hcase] at hid
      exact ⟨node, hid, rfl⟩
    | inr hcase =>
      obtain ⟨old, left, right, m, hcase, hforks⟩ := hcase
      rw [hcase] at hid hissued
      rw [hforks.node?_eq hfree, if_neg (by simpa [or_comm] using hissued)] at hid
      split at hid
      · next heq =>
        rw [Option.some.injEq] at hid
        subst heq hid
        exact ⟨old, hforks.live, rfl⟩
      · exact ⟨node, hid, rfl⟩
  | write written disk index data =>
    exact write_preserves (P := Continues l) (fun key sector hid _ h => h.store hid key sector)
      (.refl l) written disk index data id node hid
  | writeRun written disk first data =>
    exact writeRun_preserves (P := Continues l) (fun key sector hid _ h => h.store hid key sector)
      (.refl l) written disk first data id node hid
  | release released =>
    obtain ⟨refcount, hold⟩ := kept_release l released id node hid
    exact ⟨_, hold, rfl⟩

/-! The accounting of references with owners. -/

theorem heldAfter_eq_issues (hreleased : call.released? = none) :
    l.heldAfter (fun _ => false) call = fun id => decide (id ∈ l.issues call) := by
  funext id
  cases call with
  | addRoot =>
    cases hroot : l.addRoot.1 <;> simp [heldAfter, issues, hroot, Function.update_apply]
  | fork forked =>
    cases hfork : (l.fork forked).1 with
    | error e => simp [heldAfter, issues, hfork]
    | ok children => simp [heldAfter, issues, hfork, Function.update_apply, Bool.or_comm]
  | release released => simp [Call.released?] at hreleased
  | _ => simp [heldAfter, issues]

theorem Counted.owe_issued {ids : List NodeId} (h : Counted l (fun id => decide (id ∈ ids)) owed)
    (hnodup : ids.Nodup) (hlive : ∀ id ∈ ids, ∃ node, l.node? id = some node) :
    Counted l (fun _ => false) fun id => owed id + ids.count id := by
  constructor
  · exact h.freeSlots
  · exact h.parent_live
  · exact h.depth_root
  · intro id node hid
    rw [h.refcount_eq hid, hnodup.count]
    by_cases hmem : id ∈ ids
    · simp [hmem]
      omega
    · simp [hmem]
  · intro id hpos
    by_cases hmem : id ∈ ids
    · exact hlive id hmem
    · rw [List.count_eq_zero_of_not_mem hmem] at hpos
      exact h.owed_live id hpos

theorem Counted.own (h : Counted l (fun _ => false) owed) (call : Call)
    (hrelease : ∀ id node, call = .release id → l.node? id = some node → 0 < owed id) :
    Counted (l.perform call) (fun _ => false) (l.owedAfter owed call) := by
  cases hreleased : call.released? with
  | none =>
    have hcounted := h.perform call (by
      intro id node hcall
      simp [hcall, Call.released?] at hreleased)
    rw [heldAfter_eq_issues hreleased] at hcounted
    obtain ⟨hnodup, hnew⟩ := issues_new h.freeSlots call
    have howed := hcounted.owe_issued hnodup (fun id hid => (hnew id hid).2.imp fun _ => And.left)
    convert howed using 2
    simp [owedAfter, hreleased]
  | some id =>
    obtain rfl := Call.eq_release hreleased
    cases hid : l.node? id with
    | none =>
      have howed : l.owedAfter owed (.release id) = owed := by
        funext other
        by_cases heq : other = id
        · have : ¬0 < owed other := by
            intro hpos
            obtain ⟨node, hlive⟩ := h.owed_live other hpos
            rw [heq, hid] at hlive
            contradiction
          simp only [owedAfter, issues, List.count_nil]
          omega
        · simp [owedAfter, issues, Call.released?, owing, Ne.symm heq]
      rw [howed]
      have hperform : l.perform (.release id) = l := congrArg Prod.snd (release_of_stale hid)
      rw [hperform]
      exact h
    | some node =>
      exact (h.release_owed (hrelease id node rfl hid)).2

/-! Who needs a node. -/

def IsChild (l : Lineage) (id parent : NodeId) : Prop :=
  ∃ node, l.node? id = some node ∧ node.parent = some parent

theorem Counted.exists_owner (h : Counted l (fun _ => false) owed) (htallied : l.Tallied)
    (hid : l.node? id = some node) :
    ∃ owner, 0 < owed owner ∧ Relation.ReflTransGen l.IsChild owner id := by
  generalize hrest : l.slots.size - node.depth = rest
  induction rest generalizing id node with
  | zero =>
    have := h.depth_lt hid
    omega
  | succ rest ih =>
    have hrefs := htallied.referenced hid
    rw [h.refcount_eq hid] at hrefs
    by_cases howed : 0 < owed id
    · exact ⟨id, howed, .refl⟩
    · -- Somebody refers to the node, so it has a child, which has fewer levels below it.
      have hchildren : 0 < l.childCount id := by
        rw [Bool.toNat_false] at hrefs
        omega
      obtain ⟨child, inner, hchild, hparent⟩ := exists_child hchildren
      obtain ⟨above, habove, -, hdepth⟩ := h.parent_live hchild hparent
      rw [hid, Option.some.injEq] at habove
      subst habove
      obtain ⟨owner, howed, hdescends⟩ := ih hchild (by omega)
      exact ⟨owner, howed, hdescends.tail ⟨inner, hchild, hparent⟩⟩

theorem Counted.no_node (h : Counted l (fun _ => false) owed) (htallied : l.Tallied)
    (howed : ∀ id, owed id = 0) : l.node? id = none := by
  cases hid : l.node? id with
  | none => rfl
  | some node =>
    obtain ⟨owner, hpos, -⟩ := h.exists_owner htallied hid
    have := howed owner
    omega

/--
A lineage with the record of its calls: the nodes that have been issued, those among them that have
not been released since, and the nodes that they were forked from.
-/
structure Account where
  lineage : Lineage := {}
  issued : NodeId → Bool := fun _ => false
  owned : NodeId → Bool := fun _ => false
  origin : NodeId → Option NodeId := fun _ => none

namespace Account

def after (a : Account) (call : Call) : Account where
  lineage := a.lineage.perform call
  issued id := a.issued id || id ∈ a.lineage.issues call
  owned id := id ∈ a.lineage.issues call || a.owned id && call.released? ≠ some id
  origin id := if id ∈ a.lineage.issues call then call.forked? else a.origin id

def allows (a : Account) (call : Call) : Bool :=
  match call with
  | .release id => !a.issued id || a.owned id
  | _ => true

def once (a : Account) : List Call → Bool
  | [] => true
  | call :: calls => a.allows call && (a.after call).once calls

def run (a : Account) (calls : List Call) : Account :=
  calls.foldl after a

structure Sound (a : Account) : Prop where
  counted : Counted a.lineage (fun _ => false) fun id => (a.owned id).toNat
  tallied : a.lineage.Tallied
  issued_of_live : ∀ {id node}, a.lineage.node? id = some node → a.issued id = true
  origin_eq : ∀ {id node}, a.lineage.node? id = some node → a.origin id = node.parent

variable {a b : Account} {calls : List Call}

namespace Sound

theorem empty : Sound {} where
  counted := counted_empty _
  tallied := .empty
  issued_of_live h := by simp [node?] at h
  origin_eq h := by simp [node?] at h

theorem live_of_owned (h : a.Sound) (howned : a.owned id = true) :
    ∃ node, a.lineage.node? id = some node := by
  apply h.counted.owed_live id
  rw [howned]
  exact Nat.one_pos

theorem owed_after (h : a.Sound) (call : Call) :
    (fun id => ((a.after call).owned id).toNat)
      =
    a.lineage.owedAfter (fun id => (a.owned id).toNat) call := by
  obtain ⟨hnodup, hnew⟩ := issues_new h.tallied.freeSlots call
  funext id
  dsimp only [Account.after, owedAfter]
  rw [hnodup.count]
  by_cases hissued : id ∈ a.lineage.issues call
  · -- A call that issues releases nothing, and what it issues has not been live before.
    have hreleased : call.released? = none := by
      cases call with
      | release released => simp [issues] at hissued
      | _ => rfl
    have howned : a.owned id = false := by
      cases howned : a.owned id with
      | false => rfl
      | true =>
        obtain ⟨node, hid⟩ := h.live_of_owned howned
        rw [(hnew id hissued).1] at hid
        contradiction
    simp [hissued, hreleased, howned]
  · by_cases hreleased : call.released? = some id
    · have := (a.owned id).toNat_le
      simp [hissued, hreleased, owing]
      omega
    · simp [hissued, hreleased, owing]

theorem after (h : a.Sound) (hallowed : a.allows call = true) : (a.after call).Sound := by
  obtain ⟨-, hnew⟩ := issues_new h.tallied.freeSlots call
  constructor
  · have hcounted := h.counted.own call (by
      intro id node hcall hid
      subst hcall
      have howned : a.owned id = true := by simpa [allows, h.issued_of_live hid] using hallowed
      rw [howned]
      exact Nat.one_pos)
    rwa [← h.owed_after call] at hcounted
  · exact h.tallied.perform call
  · intro id node hid
    by_cases hissued : id ∈ a.lineage.issues call
    · simp [Account.after, hissued]
    · obtain ⟨old, hold, -⟩ := live_before h.tallied.freeSlots hid hissued
      simp [Account.after, h.issued_of_live hold]
  · intro id node hid
    dsimp only [Account.after]
    split
    · next hissued =>
      obtain ⟨-, new, hid', hparent, -⟩ := hnew id hissued
      obtain rfl : new = node := Option.some.inj (hid'.symm.trans hid)
      exact hparent.symm
    · next hissued =>
      obtain ⟨old, hold, hparent⟩ := live_before h.tallied.freeSlots hid hissued
      rw [h.origin_eq hold, hparent]

theorem run (h : a.Sound) (honce : a.once calls = true) : (a.run calls).Sound := by
  induction calls generalizing a with
  | nil => exact h
  | cons call calls ih =>
    rw [once, Bool.and_eq_true] at honce
    exact ih (h.after honce.1) honce.2

end Sound

theorem Sound.live_of_descends (h : a.Sound) {owner : NodeId} (howned : a.owned owner = true)
    (hdescends : Relation.ReflTransGen (fun id parent => a.origin id = some parent) owner id) :
    ∃ node, a.lineage.node? id = some node := by
  induction hdescends with
  | refl => exact h.live_of_owned howned
  | tail _ hup ih =>
    obtain ⟨node, hid⟩ := ih
    rw [h.origin_eq hid] at hup
    obtain ⟨above, habove, -⟩ := h.counted.parent_live hid hup
    exact ⟨above, habove⟩

theorem Sound.isLive_iff (h : a.Sound) (id : NodeId) :
    a.lineage.isLive id = true
      ↔
    ∃ owner, a.owned owner = true ∧
      Relation.ReflTransGen (fun id parent => a.origin id = some parent) owner id := by
  rw [isLive, Option.isSome_iff_exists]
  constructor
  · intro hlive
    obtain ⟨node, hid⟩ := hlive
    obtain ⟨owner, hpos, hdescends⟩ := h.counted.exists_owner h.tallied hid
    have howned : a.owned owner = true := by simpa [Nat.pos_iff_ne_zero] using hpos
    refine ⟨owner, howned, Relation.ReflTransGen.mono ?_ _ _ hdescends⟩
    intro child parent hchild
    obtain ⟨inner, hinner, hparent⟩ := hchild
    rw [h.origin_eq hinner, hparent]
  · intro howner
    obtain ⟨owner, howned, hdescends⟩ := howner
    exact h.live_of_descends howned hdescends

/--
As long as no node is released twice, a node is live just as long as it, or a node that descends
from it, has not been released. So nothing is left in the end, and it does not matter in which order
nodes are released.
-/
theorem isLive_iff_owned (calls : List Call) (honce : once {} calls = true) :
    (∀ id node, (run {} calls).lineage.node? id = some node →
      node.refcount = ((run {} calls).owned id).toNat + (run {} calls).lineage.childCount id) ∧
    (∀ id, (run {} calls).lineage.isLive id = true ↔ ∃ owner, (run {} calls).owned owner = true ∧
      Relation.ReflTransGen (fun id parent => (run {} calls).origin id = some parent) owner id) ∧
    (∀ id node parent, (run {} calls).lineage.node? id = some node → node.parent = some parent →
      (run {} calls).lineage.isLive parent = true) ∧
    (∀ id, (run {} calls).owned id = true → ((run {} calls).lineage.release id).1 = .ok ()) ∧
    ((∀ id, (run {} calls).issued id = true → (run {} calls).owned id = false) →
      (run {} calls).lineage.stats.liveNodes = 0 ∧
        (run {} calls).lineage.stats.overlaySectors = 0 ∧
        (run {} calls).lineage.stats.overlayBytes = 0) ∧
    ∀ others, once {} others = true → (run {} others).origin = (run {} calls).origin →
      (run {} others).owned = (run {} calls).owned →
      ∀ id, (run {} others).lineage.isLive id = (run {} calls).lineage.isLive id := by
  have hsound := Sound.empty.run honce
  refine ⟨?_, hsound.isLive_iff, ?_, ?_, ?_, ?_⟩
  · intro id node hid
    have := hsound.counted.refcount_eq hid
    simp only [Bool.toNat_false] at this
    omega
  · intro id node parent hid hparent
    obtain ⟨above, habove, -⟩ := hsound.counted.parent_live hid hparent
    rw [isLive, habove]
    rfl
  · intro id howned
    apply (hsound.counted.release_owed _).1
    rw [howned]
    exact Nat.one_pos
  · intro hreleased
    apply hsound.tallied.eq_zero
    intro id
    apply hsound.counted.no_node hsound.tallied
    intro owner
    cases howned : (run {} calls).owned owner with
    | false => rfl
    | true =>
      obtain ⟨node, hid⟩ := hsound.live_of_owned howned
      rw [hreleased owner (hsound.issued_of_live hid)] at howned
      contradiction
  · intro others honce' horigin howned id
    have hsound' := Sound.empty.run honce'
    rw [Bool.eq_iff_iff, hsound'.isLive_iff, hsound.isLive_iff, horigin, howned]

-- The root and one of its children are released, but the child has children of its own.
def family : List Call := [
  .attach "disk" 4,
  .addRoot,
  .write ⟨0, 0⟩ ⟨0⟩ 1 (Sector.fill 7).bytes,
  .fork ⟨0, 0⟩,
  .release ⟨0, 0⟩,
  .release ⟨1, 0⟩,
  .fork ⟨2, 0⟩,
  .release ⟨2, 0⟩]

theorem isLive_iff_owned_family :
    once {} family = true ∧ (run {} family).owned ⟨0, 0⟩ = false ∧
      (run {} family).lineage.isLive ⟨0, 0⟩ = true ∧
      ((run {} family).lineage.release ⟨1, 1⟩).1 = .ok () := by
  have honce : once {} family = true := by decide +kernel
  have howned : (run {} family).owned ⟨1, 1⟩ = true := by decide +kernel
  have hchild : (run {} family).origin ⟨1, 1⟩ = some ⟨2, 0⟩ := by decide +kernel
  have hroot : (run {} family).origin ⟨2, 0⟩ = some ⟨0, 0⟩ := by decide +kernel
  obtain ⟨-, hlive, -, hrelease, -⟩ := isLive_iff_owned family honce
  refine ⟨honce, by decide +kernel, ?_, hrelease _ howned⟩
  exact (hlive ⟨0, 0⟩).mpr ⟨⟨1, 1⟩, howned, .tail (.single hchild) hroot⟩

end Account

end Lineage

end MachineFork
