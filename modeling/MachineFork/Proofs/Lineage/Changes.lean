import Mathlib.Logic.Relation
import MachineFork.Proofs.Lineage.Ownership

/-!
This module contains the small changes that calls consist of, and runs of calls. A call that is not
a release adds nodes, changes nodes in place, or changes the disks; a release takes references back
and frees nodes. So an invariant needs a look at these changes only, and not at every call.
-/

namespace MachineFork

namespace Lineage

variable {l m : Lineage} {id : NodeId} {node : Node} {disk : DiskHandle} {call : Call}
variable {key : DiskHandle × UInt64}

structure Newborn (l : Lineage) (node : Node) : Prop where
  overlay : node.overlay = ∅
  parent : ∀ parent, node.parent = some parent →
    ∃ above, l.node? parent = some above ∧ above.frozen = true

/--
Whether `node` may be put in the place of `old`. It stays below its parent, it stays frozen, and the
sectors that it holds in addition are sectors of attached disks.
-/
structure Follows (l : Lineage) (old node : Node) : Prop where
  parent : node.parent = old.parent
  frozen : old.frozen = true → node.frozen = true
  overlay : ∀ key, (node.overlay.find? key).isSome →
    (old.overlay.find? key).isSome ∨ l.requireSector key.1 key.2 = .ok ()

inductive Change : Lineage → Lineage → Prop where
  | attach {l : Lineage} (disk : Disk) : Change l { l with disks := l.disks.push (some disk) }
  | detach {l m : Lineage} {disk : DiskHandle} (h : l.detach disk = (.ok (), m)) : Change l m
  | insert {l : Lineage} {node : Node} (hnew : l.Newborn node) : Change l (l.insertNode node).2
  | update {l : Lineage} {id : NodeId} {old node : Node} (hid : l.node? id = some old)
    (hfollows : l.Follows old node) (stats : Stats) : Change l { l.setNode id node with stats }
  | account {l : Lineage} (stats : Stats) : Change l { l with stats }

inductive Loss : Lineage → Lineage → Prop where
  | drop {l : Lineage} {id : NodeId} {node : Node} (hid : l.node? id = some node)
    (refcount : Nat) : Loss l (l.setNode id { node with refcount })
  | free {l : Lineage} {id : NodeId} {node : Node} (hid : l.node? id = some node) :
    Loss l (l.freeNode id node)

def releases (calls : List Call) : Nat :=
  (calls.filterMap Call.released?).length

/-! What calls consist of. -/

theorem Follows.store (hkey : l.requireSector key.1 key.2 = .ok ()) (node : Node)
    (sector : Sector) : l.Follows node { node with overlay := node.overlay.insert key sector } where
  parent := rfl
  frozen h := h
  overlay other hother := by
    rw [Table.find?_insert] at hother
    split at hother
    · next heq =>
      rw [← heq]
      exact .inr hkey
    · exact .inl hother

theorem Change.store (hid : l.node? id = some node)
    (hkey : l.requireSector key.1 key.2 = .ok ()) (sector : Sector) :
    Change l (l.store id node key sector) := by
  have hfollows := Follows.store hkey node sector
  unfold Lineage.store
  dsimp only
  split
  · exact .update hid hfollows _
  · exact .update hid hfollows l.stats

theorem changes_fork (hfree : l.FreeSlots) (id : NodeId) :
    Relation.ReflTransGen Change l (l.fork id).2 := by
  unfold fork
  split
  · exact .refl
  · split
    · exact .refl
    · next node hid =>
      split
      · exact .refl
      · have hparent := node?_setNode_of_live hid (forked node) id
        rw [if_pos rfl] at hparent
        have hfree' := freeSlots_setNode hfree hid (forked node)
        have hleft := node?_insertNode hfree' (child id node) id
        rw [if_neg (ne_insertNode_of_live hfree' hparent _)] at hleft
        have hnew {n : Lineage} (hn : n.node? id = some (forked node)) :
            n.Newborn (child id node) := by
          refine ⟨rfl, ?_⟩
          intro parent heq
          cases heq
          exact ⟨_, hn, rfl⟩
        have hfollows : l.Follows node (forked node) := ⟨rfl, fun _ => rfl, fun _ h => .inl h⟩
        have hfork : Change l (l.setNode id (forked node)) := .update hid hfollows l.stats
        have hchildren := ((Relation.ReflTransGen.single hfork).tail (.insert (hnew hparent))).tail
          (.insert (hnew (hleft.trans hparent)))
        exact hchildren.tail (.account _)

theorem changes_perform (hfree : l.FreeSlots) (hreleased : call.released? = none) :
    Relation.ReflTransGen Change l (l.perform call) := by
  cases call with
  | attach name sectorCount =>
    dsimp only [perform, attach]
    split
    · exact .refl
    · exact .single (.attach _)
  | detach disk =>
    dsimp only [perform]
    cases detach_cases l disk with
    | inl hcase =>
      obtain ⟨e, hcase⟩ := hcase
      rw [hcase]
    | inr hcase =>
      obtain ⟨m, hcase⟩ := hcase
      rw [hcase]
      exact .single (.detach hcase)
  | addRoot =>
    dsimp only [perform]
    cases addRoot_cases l with
    | inl hcase =>
      obtain ⟨e, hcase⟩ := hcase
      rw [hcase]
    | inr hcase =>
      rw [hcase]
      exact .single (.insert ⟨rfl, by simp⟩)
  | fork id => exact changes_fork hfree id
  | write id disk index data =>
    exact write_preserves (P := Relation.ReflTransGen Change l)
      (fun key sector hid hkey h => h.tail (.store hid hkey sector)) .refl id disk index data
  | writeRun id disk first data =>
    exact writeRun_preserves (P := Relation.ReflTransGen Change l)
      (fun key sector hid hkey h => h.tail (.store hid hkey sector)) .refl id disk first data
  | release id => simp [Call.released?] at hreleased

theorem losses_releaseUp (l : Lineage) (id? : Option NodeId) (rounds : Nat) :
    Relation.ReflTransGen Loss l (l.releaseUp id? rounds).2 := by
  induction rounds generalizing l id? with
  | zero => exact .refl
  | succ rounds ih =>
    unfold releaseUp
    split
    · exact .refl
    · split
      · exact .refl
      · next node hid =>
        dsimp only
        split
        · exact .single (.drop hid _)
        · exact .head (.free hid) (ih _ _)

theorem Loss.frame (hloss : Loss l m) : m.disks = l.disks ∧ m.slots.size = l.slots.size := by
  cases hloss with
  | drop => exact ⟨rfl, Array.size_modify⟩
  | free => exact ⟨rfl, Array.size_modify⟩

theorem frame_release (l : Lineage) (id : NodeId) :
    (l.release id).2.disks = l.disks ∧ (l.release id).2.slots.size = l.slots.size := by
  have hlosses := losses_releaseUp l (some id) (l.slots.size + 1)
  unfold release
  generalize (l.releaseUp (some id) (l.slots.size + 1)).2 = m at hlosses
  induction hlosses with
  | refl => exact ⟨rfl, rfl⟩
  | tail _ hloss ih => exact ⟨hloss.frame.1.trans ih.1, hloss.frame.2.trans ih.2⟩

theorem perform_cases (hfree : l.FreeSlots) (call : Call) :
    (releases [call] = 0 ∧ Relation.ReflTransGen Change l (l.perform call)) ∨
      (releases [call] = 1 ∧ Relation.ReflTransGen Loss l (l.perform call)) := by
  cases hreleased : call.released? with
  | none =>
    refine .inl ⟨?_, changes_perform hfree hreleased⟩
    simp [releases, hreleased]
  | some id =>
    obtain rfl := Call.eq_release hreleased
    exact .inr ⟨rfl, losses_releaseUp l _ _⟩

/-! What the changes do to nodes and slots. -/

theorem eq_of_detach (h : l.detach disk = (.ok (), m)) :
    m.slots = (l.dropDisk disk).slots ∧ m.free = l.free ∧
      m.disks = l.disks.setIfInBounds disk.number none := by
  unfold detach at h
  split at h
  · simp at h
  · simp only [Prod.mk.injEq, true_and] at h
    subst h
    exact ⟨rfl, rfl, rfl⟩

theorem Follows.refl (l : Lineage) (node : Node) : l.Follows node node :=
  ⟨rfl, fun h => h, fun _ h => .inl h⟩

theorem Change.node_cases (hchange : Change l m) (hfree : l.FreeSlots)
    (hid : m.node? id = some node) :
    (∃ old, l.node? id = some old ∧ l.Follows old node) ∨ (l.node? id = none ∧ l.Newborn node) := by
  cases hchange with
  | attach => exact .inl ⟨node, hid, .refl l node⟩
  | detach hdetach =>
    rw [node?_detach hdetach, Option.map_eq_some_iff] at hid
    obtain ⟨old, hold, rfl⟩ := hid
    refine .inl ⟨old, hold, rfl, fun h => h, ?_⟩
    intro key hkey
    dsimp only at hkey
    rw [Table.find?_filterKeys] at hkey
    split at hkey
    · exact .inl hkey
    · simp at hkey
  | @insert new hnew =>
    rw [node?_insertNode hfree] at hid
    split at hid
    · next heq =>
      rw [Option.some.injEq] at hid
      subst heq hid
      exact .inr ⟨node?_insertNode_self hfree _, hnew⟩
    · exact .inl ⟨node, hid, .refl l node⟩
  | @update changed old new hchanged hfollows stats =>
    change (l.setNode changed new).node? id = some node at hid
    rw [node?_setNode_of_live hchanged] at hid
    split at hid
    · next heq =>
      rw [Option.some.injEq] at hid
      subst heq hid
      exact .inl ⟨old, hchanged, hfollows⟩
    · exact .inl ⟨node, hid, .refl l node⟩
  | account => exact .inl ⟨node, hid, .refl l node⟩

theorem Loss.node_before (hloss : Loss l m) (hid : m.node? id = some node) :
    ∃ old, l.node? id = some old ∧ l.Follows old node := by
  have hkept : Kept l m := by
    cases hloss with
    | drop hdropped refcount => exact kept_setNode hdropped refcount
    | free hfreed => exact kept_freeNode hfreed
  obtain ⟨refcount, hold⟩ := hkept id node hid
  exact ⟨_, hold, rfl, fun h => h, fun _ h => .inl h⟩

theorem FreeSlots.change (h : l.FreeSlots) (hchange : Change l m) : m.FreeSlots := by
  cases hchange with
  | attach => exact h.of_eq rfl rfl
  | detach hdetach =>
    obtain ⟨hslots, hfree, -⟩ := eq_of_detach hdetach
    exact (freeSlots_dropDisk h _).of_eq hslots hfree
  | insert => exact freeSlots_insertNode h _
  | update hid => exact (freeSlots_setNode h hid _).of_eq rfl rfl
  | account => exact h.of_eq rfl rfl

theorem FreeSlots.loss (h : l.FreeSlots) (hloss : Loss l m) : m.FreeSlots := by
  cases hloss with
  | drop hid => exact freeSlots_setNode h hid _
  | free hid => exact freeSlots_freeNode h hid

theorem FreeSlots.changes (h : l.FreeSlots) (hchanges : Relation.ReflTransGen Change l m) :
    m.FreeSlots := by
  induction hchanges with
  | refl => exact h
  | tail _ hchange ih => exact ih.change hchange

theorem preserves_of_changes {P : Lineage → Prop}
    (hchange : ∀ {l m}, l.FreeSlots → Change l m → P l → P m) (hfree : l.FreeSlots) (h : P l)
    (hchanges : Relation.ReflTransGen Change l m) : P m := by
  induction hchanges with
  | refl => exact h
  | tail hbefore hlast ih => exact hchange (hfree.changes hbefore) hlast ih

theorem FreeSlots.losses (h : l.FreeSlots) (hlosses : Relation.ReflTransGen Loss l m) :
    m.FreeSlots := by
  induction hlosses with
  | refl => exact h
  | tail _ hloss ih => exact ih.loss hloss

theorem FreeSlots.perform (h : l.FreeSlots) (call : Call) : (l.perform call).FreeSlots := by
  cases perform_cases h call with
  | inl hcase => exact h.changes hcase.2
  | inr hcase => exact h.losses hcase.2

/-! What the calls do to the disks. -/

theorem eq_of_attach_ok {name : String} {sectorCount : UInt64}
    (h : l.attach name sectorCount = (.ok disk, m)) :
    disk = ⟨l.disks.size⟩ ∧ m = { l with disks := l.disks.push (some { name, sectorCount }) } := by
  unfold attach at h
  split at h
  · simp at h
  · simp only [Prod.mk.injEq, Except.ok.injEq] at h
    exact ⟨h.1.symm, h.2.symm⟩

theorem lt_size_of_disk? {found : Disk} (h : l.disk? disk = some found) :
    disk.number < l.disks.size := by
  unfold disk? at h
  rw [Option.join_eq_some_iff] at h
  exact (Array.getElem?_eq_some_iff.mp h).1

theorem disk?_push (l : Lineage) (found : Disk) (disk : DiskHandle) :
    { l with disks := l.disks.push (some found) }.disk? disk
      =
    if disk.number = l.disks.size then some found else l.disk? disk := by
  unfold disk?
  rw [Array.getElem?_push]
  split <;> rfl

theorem disk?_of_detach (h : l.detach disk = (.ok (), m)) (other : DiskHandle) :
    m.disk? other = if disk = other then none else l.disk? other := by
  obtain ⟨-, -, hdisks⟩ := eq_of_detach h
  unfold disk?
  rw [hdisks]
  by_cases heq : disk = other
  · rw [if_pos heq, heq, Array.getElem?_setIfInBounds_self]
    split <;> rfl
  · rw [if_neg heq, Array.getElem?_setIfInBounds_ne]
    intro hnumber
    apply heq
    rw [DiskHandle.mk.injEq, hnumber]

theorem isSome_of_detach (h : l.detach disk = (.ok (), m)) : (l.disk? disk).isSome := by
  unfold detach at h
  split at h
  · simp at h
  · next hfound =>
    rw [hfound]
    rfl

theorem disks_insertNode (l : Lineage) (node : Node) : (l.insertNode node).2.disks = l.disks := by
  unfold insertNode
  split <;> rfl

theorem disks_of_addRoot (h : l.addRoot = (.ok id, m)) : m.disks = l.disks := by
  have hinsert := disks_insertNode l { parent := none, depth := 0 }
  rw [insertNode_of_addRoot h] at hinsert
  exact hinsert

theorem disks_of_fork {children : NodeId × NodeId} (h : l.fork id = (.ok children, m)) :
    m.disks = l.disks := by
  unfold fork at h
  split at h
  · simp at h
  · split at h
    · simp at h
    · split at h
      · simp at h
      · simp only [Prod.mk.injEq] at h
        rw [← h.2]
        dsimp only
        rw [disks_insertNode, disks_insertNode]
        rfl

/-! Runs. -/

def performAll (l : Lineage) (calls : List Call) : Lineage :=
  calls.foldl perform l

def trace (l : Lineage) : List Call → List (Lineage × Call)
  | [] => []
  | call :: calls => (l, call) :: (l.perform call).trace calls

def issued (l : Lineage) (calls : List Call) : List NodeId :=
  (l.trace calls).flatMap fun (l, call) => l.issues call

theorem releases_append (calls more : List Call) :
    releases (calls ++ more) = releases calls + releases more := by
  unfold releases
  rw [List.filterMap_append, List.length_append]

theorem releases_cons (call : Call) (calls : List Call) :
    releases (call :: calls) = releases [call] + releases calls :=
  releases_append [call] calls

theorem performAll_cons (l : Lineage) (call : Call) (calls : List Call) :
    l.performAll (call :: calls) = (l.perform call).performAll calls := rfl

theorem performAll_append (l : Lineage) (calls more : List Call) :
    l.performAll (calls ++ more) = (l.performAll calls).performAll more :=
  List.foldl_append

theorem issued_cons (l : Lineage) (call : Call) (calls : List Call) :
    l.issued (call :: calls) = l.issues call ++ (l.perform call).issued calls :=
  List.flatMap_cons

theorem FreeSlots.performAll (h : l.FreeSlots) (calls : List Call) :
    (l.performAll calls).FreeSlots := by
  induction calls generalizing l with
  | nil => exact h
  | cons call calls ih => exact ih (h.perform call)

end Lineage

end MachineFork
