import MachineFork.Proofs.Lineage.Generations

/-!
This module contains that a lineage is consistent after any calls, whoever makes them: also if nodes
are released too often, or by somebody else's names. The free list and the statistics agree with the
slots, parents are frozen, and sectors are held for attached disks only.
-/

namespace MachineFork

def Stats.Covers (stats : Stats) (nodes sectors : Nat) : Prop :=
  nodes ≤ stats.liveNodes ∧ sectors ≤ stats.overlaySectors ∧
    sectors * sectorSize ≤ stats.overlayBytes

namespace Lineage

variable {l m : Lineage} {id parent : NodeId} {node above : Node} {call : Call}
variable {disk : DiskHandle} {key : DiskHandle × UInt64} {n : Nat}

/-! The free list. -/

def Listed (l : Lineage) : Prop :=
  ∀ i slot, l.slots[i]? = some slot → slot.node = none → i ∈ l.free

theorem Listed.modify (h : Listed l) (i : Nat) (f : Slot → Slot)
    (hslots : m.slots = l.slots.modify i f) (hi : i ∈ m.free ∨ ∀ slot, (f slot).node ≠ none)
    (hfree : ∀ j ∈ l.free, j ≠ i → j ∈ m.free) : Listed m := by
  intro j slot hslot hvacant
  rw [hslots, Array.getElem?_modify] at hslot
  split at hslot
  · next heq =>
    subst heq
    obtain ⟨old, -, rfl⟩ := Option.map_eq_some_iff.mp hslot
    cases hi with
    | inl hmem => exact hmem
    | inr hnode => exact absurd hvacant (hnode old)
  · next hne => exact hfree j (h j slot hslot hvacant) (Ne.symm hne)

theorem Listed.setNode (h : Listed l) (id : NodeId) (node : Node) : Listed (l.setNode id node) := by
  apply h.modify id.slot (fun slot => { slot with node }) rfl
  · exact .inr (by simp)
  · exact fun _ hj _ => hj

theorem Listed.insertNode (h : Listed l) (node : Node) : Listed (l.insertNode node).2 := by
  unfold Lineage.insertNode
  split
  · next i free heq =>
    apply h.modify i (fun slot => { slot with node }) rfl
    · exact .inr (by simp)
    · intro j hj hne
      rw [heq, List.mem_cons] at hj
      exact hj.resolve_left hne
  · next heq =>
    intro j slot hslot hvacant
    rw [Array.getElem?_push] at hslot
    split at hslot
    · rw [Option.some.injEq] at hslot
      subst hslot
      contradiction
    · exact h j slot hslot hvacant

theorem Listed.detach (h : Listed l) (hdetach : l.detach disk = (.ok (), m)) : Listed m := by
  obtain ⟨hslots, hfree, -⟩ := eq_of_detach hdetach
  intro i slot hslot hvacant
  rw [hslots, dropDisk, Array.getElem?_map, Option.map_eq_some_iff] at hslot
  obtain ⟨old, hold, rfl⟩ := hslot
  rw [hfree]
  apply h i old hold
  simpa [Slot.dropDisk] using hvacant

theorem Listed.change (h : Listed l) (hchange : Change l m) : Listed m := by
  cases hchange with
  | attach => exact h
  | detach hdetach => exact h.detach hdetach
  | insert => exact h.insertNode _
  | update => exact h.setNode _ _
  | account => exact h

theorem Listed.loss (h : Listed l) (hloss : Loss l m) : Listed m := by
  cases hloss with
  | drop => exact h.setNode _ _
  | @free id =>
    apply h.modify id.slot (fun slot => { generation := slot.generation + 1, node := none }) rfl
    · exact .inl List.mem_cons_self
    · intro j hj _
      exact List.mem_cons_of_mem _ hj

theorem listed_performAll (calls : List Call) : Listed (performAll {} calls) := by
  apply performAll_preserves (fun _ hchange h => h.change hchange) (fun hloss h => h.loss hloss)
    Tallied.empty.freeSlots
  intro i slot hslot
  simp at hslot

/-! Parents. -/

structure Linked (l : Lineage) : Prop where
  issued : ∀ {id node parent}, l.node? id = some node → node.parent = some parent →
    parent.age ≤ l.age parent.slot
  frozen : ∀ {id node parent above}, l.node? id = some node → node.parent = some parent →
    l.node? parent = some above → above.frozen = true

theorem Linked.step (h : Linked l) (hprecedes : Precedes l m)
    (hnodes : ∀ {id node}, m.node? id = some node →
      (∃ old, l.node? id = some old ∧ l.Follows old node) ∨
        (l.node? id = none ∧ l.Newborn node)) : Linked m := by
  have hissued {id node parent} (hid : m.node? id = some node)
      (hparent : node.parent = some parent) : parent.age ≤ l.age parent.slot := by
    cases hnodes hid with
    | inl hold =>
      obtain ⟨old, hold, hfollows⟩ := hold
      exact h.issued hold (hfollows.parent.symm.trans hparent)
    | inr hnew =>
      obtain ⟨above, habove, -⟩ := hnew.2.parent parent hparent
      exact Nat.le_of_eq (age_of_live habove).symm
  constructor
  · intro id node parent hid hparent
    exact Nat.le_trans (hissued hid hparent) (hprecedes parent.slot)
  · intro id node parent above hid hparent habove
    cases hnodes habove with
    | inl hold =>
      obtain ⟨below, hbelow, hfollows⟩ := hold
      apply hfollows.frozen
      cases hnodes hid with
      | inl hold =>
        obtain ⟨old, hold, hfollows⟩ := hold
        exact h.frozen hold (hfollows.parent.symm.trans hparent) hbelow
      | inr hnew =>
        obtain ⟨below', hbelow', hfrozen⟩ := hnew.2.parent parent hparent
        rw [hbelow, Option.some.injEq] at hbelow'
        rwa [hbelow']
    | inr hnew =>
      -- The parent was issued before, so it is not new.
      have := hissued hid hparent
      have := age_lt_of_new hprecedes habove hnew.1
      omega

theorem linked_performAll (calls : List Call) (hroom : releases calls < UInt32.size) :
    Linked (performAll {} calls) := by
  apply invariant_of_empty
    (fun hfree hchange h => h.step (hchange.precedes hfree) (hchange.node_cases hfree))
    (fun hloss hprecedes h => h.step hprecedes fun hid => .inl (hloss.node_before hid)) calls hroom
  constructor <;> simp [node?]

/-! Sectors. -/

def Attached (l : Lineage) : Prop :=
  ∀ id node, l.node? id = some node → ∀ key, (node.overlay.find? key).isSome →
    l.requireSector key.1 key.2 = .ok ()

theorem requireSector_of_disk?_eq (h : m.disk? disk = l.disk? disk) (index : UInt64) :
    m.requireSector disk index = l.requireSector disk index := by
  unfold requireSector sectorCount
  rw [h]

theorem disk?_of_requireSector {index : UInt64} (h : l.requireSector disk index = .ok ()) :
    ∃ found, l.disk? disk = some found ∧ index < found.sectorCount := by
  obtain ⟨sectorCount, hcount, hlt⟩ := requireSector_ok_iff.mp h
  unfold Lineage.sectorCount at hcount
  split at hcount
  · next found hfound =>
    rw [Except.ok.injEq] at hcount
    exact ⟨found, hfound, hcount ▸ hlt⟩
  · contradiction

theorem Attached.requireSector (h : Attached l)
    (hnodes : (∃ old, l.node? id = some old ∧ l.Follows old node) ∨
      (l.node? id = none ∧ l.Newborn node))
    (hkey : (node.overlay.find? key).isSome) : l.requireSector key.1 key.2 = .ok () := by
  cases hnodes with
  | inl hold =>
    obtain ⟨old, hold, hfollows⟩ := hold
    cases hfollows.overlay key hkey with
    | inl hheld => exact h id old hold key hheld
    | inr hok => exact hok
  | inr hnew =>
    rw [hnew.2.overlay] at hkey
    contradiction

theorem Attached.change (h : Attached l) (hfree : l.FreeSlots) (hchange : Change l m) :
    Attached m := by
  intro id node hid key hkey
  have hok := h.requireSector (hchange.node_cases hfree hid) hkey
  cases hchange with
  | attach disk =>
    obtain ⟨found, hfound, -⟩ := disk?_of_requireSector hok
    rw [← hok]
    apply requireSector_of_disk?_eq
    rw [disk?_push, if_neg (Nat.ne_of_lt (lt_size_of_disk? hfound))]
  | @detach _ disk hdetach =>
    -- What is still held is held for another disk.
    have hother : key.1 ≠ disk := by
      rw [node?_detach hdetach, Option.map_eq_some_iff] at hid
      obtain ⟨old, -, rfl⟩ := hid
      dsimp only at hkey
      rw [Table.find?_filterKeys] at hkey
      split at hkey
      · next hne => simpa using hne
      · contradiction
    rw [← hok]
    apply requireSector_of_disk?_eq
    rw [disk?_of_detach hdetach, if_neg (Ne.symm hother)]
  | @insert new =>
    rw [← hok]
    apply requireSector_of_disk?_eq
    unfold disk?
    rw [disks_insertNode]
  | update => exact hok
  | account => exact hok

theorem Attached.loss (h : Attached l) (hloss : Loss l m) : Attached m := by
  intro id node hid key hkey
  have hok := h.requireSector (.inl (hloss.node_before hid)) hkey
  cases hloss with
  | drop => exact hok
  | free => exact hok

theorem attached_performAll (calls : List Call) : Attached (performAll {} calls) := by
  apply performAll_preserves (fun hfree hchange h => h.change hfree hchange)
    (fun hloss h => h.loss hloss) Tallied.empty.freeSlots
  intro id node hid
  simp [node?] at hid

/-! The statistics. -/

def CoversRelease (l : Lineage) (id? : Option NodeId) : (rounds : Nat) → Prop
  | 0 => True
  | rounds + 1 => ∀ id node, id? = some id → l.node? id = some node → node.refcount - 1 = 0 →
      l.stats.Covers 1 node.overlay.size ∧
        (l.freeNode id node).CoversRelease node.parent rounds

theorem Tallied.coversRelease (h : Tallied l) (id? : Option NodeId) (rounds : Nat) :
    l.CoversRelease id? rounds := by
  induction rounds generalizing l id? with
  | zero => trivial
  | succ rounds ih =>
    intro id node _ hid _
    refine ⟨?_, ih (h.freeNode hid) node.parent⟩
    have hcount := liveCount_freeNode hid
    have hheld := heldSectors_freeNode hid
    unfold Stats.Covers
    rw [h.liveNodes, h.overlaySectors, h.overlayBytes]
    refine ⟨by omega, by omega, ?_⟩
    apply Nat.mul_le_mul_right
    omega

theorem Tallied.coversDetach (h : Tallied l) (disk : DiskHandle) :
    l.stats.Covers 0 (l.heldOf disk) := by
  have := heldSectors_dropDisk l disk
  unfold Stats.Covers
  rw [h.overlaySectors, h.overlayBytes]
  refine ⟨Nat.zero_le _, by omega, ?_⟩
  apply Nat.mul_le_mul_right
  omega

/-! Where the nodes come from. -/

def Call.addsRoot : Call → Bool
  | addRoot => true
  | _ => false

def Call.forks (call : Call) : Bool :=
  call.forked?.isSome

def successes (l : Lineage) (p : Call → Bool) (calls : List Call) : Nat :=
  (l.trace calls).countP fun (l, call) => p call && (l.outcome call).isOk

theorem successes_cons (l : Lineage) (p : Call → Bool) (call : Call) (calls : List Call) :
    l.successes p (call :: calls)
      = (p call && (l.outcome call).isOk).toNat + (l.perform call).successes p calls := by
  unfold successes
  rw [trace, List.countP_cons, Nat.add_comm]
  dsimp only
  congr 1
  split
  · next hsuccess => rw [hsuccess, Bool.toNat_true]
  · next hfailure => rw [Bool.eq_false_of_not_eq_true hfailure, Bool.toNat_false]

structure Turnover (l : Lineage) (roots forks : Nat) (m : Lineage) : Prop where
  forks_eq : m.stats.forks = l.stats.forks + forks
  nodes_eq : m.stats.liveNodes + m.stats.releasedNodes
    = l.stats.liveNodes + l.stats.releasedNodes + roots + 2 * forks

theorem Turnover.refl (l : Lineage) : Turnover l 0 0 l := ⟨rfl, rfl⟩

theorem Turnover.trans {k : Lineage} {roots roots' forks forks' : Nat}
    (h : Turnover l roots forks m) (h' : Turnover m roots' forks' k) :
    Turnover l (roots + roots') (forks + forks') k := by
  constructor
  · rw [h'.forks_eq, h.forks_eq, Nat.add_assoc]
  · rw [h'.nodes_eq, h.nodes_eq]
    omega

theorem Turnover.store (h : Turnover l 0 0 m) (id : NodeId) (node : Node)
    (key : DiskHandle × UInt64) (sector : Sector) :
    Turnover l 0 0 (m.store id node key sector) := by
  unfold Lineage.store
  dsimp only
  split <;> exact ⟨h.forks_eq, h.nodes_eq⟩

theorem Turnover.insertNode (l : Lineage) (node : Node) :
    Turnover l 1 0 (l.insertNode node).2 := by
  constructor
  · rw [stats_insertNode]
    rfl
  · rw [stats_insertNode]
    dsimp only
    omega

theorem Tallied.turnover_releaseUp (h : Tallied l) (id? : Option NodeId) (rounds : Nat) :
    Turnover l 0 0 (l.releaseUp id? rounds).2 := by
  induction rounds generalizing l id? with
  | zero => exact .refl l
  | succ rounds ih =>
    unfold Lineage.releaseUp
    split
    · exact .refl l
    · split
      · exact .refl l
      · next id _ node hid =>
        dsimp only
        split
        · exact ⟨rfl, rfl⟩
        · have hfreed : Turnover l 0 0 (l.freeNode id node) := by
            refine ⟨rfl, ?_⟩
            have hcount := liveCount_freeNode hid
            rw [stats_freeNode, h.liveNodes]
            dsimp only
            omega
          exact hfreed.trans (ih (h.freeNode hid) node.parent)

theorem turnover_fork (l : Lineage) (id : NodeId) :
    Turnover l 0 (l.fork id).1.isOk.toNat (l.fork id).2 := by
  unfold fork
  split
  · exact .refl l
  · split
    · exact .refl l
    · next node _ =>
      split
      · exact .refl l
      · dsimp only
        have hleft := Turnover.insertNode (l.setNode id (forked node)) (child id node)
        have hboth := hleft.trans (Turnover.insertNode _ (child id node))
        exact ⟨congrArg (· + 1) hboth.forks_eq, hboth.nodes_eq⟩

theorem Tallied.turnover (h : Tallied l) (call : Call) :
    Turnover l (call.addsRoot && (l.outcome call).isOk).toNat
      (call.forks && (l.outcome call).isOk).toNat (l.perform call) := by
  cases call with
  | attach name sectorCount =>
    dsimp only [Lineage.perform, attach]
    split
    · exact .refl l
    · exact ⟨rfl, rfl⟩
  | detach disk =>
    dsimp only [Lineage.perform, Lineage.detach]
    split
    · exact .refl l
    · exact ⟨rfl, rfl⟩
  | addRoot =>
    dsimp only [Lineage.perform, outcome]
    cases addRoot_cases l with
    | inl hcase =>
      obtain ⟨e, hcase⟩ := hcase
      rw [hcase]
      exact .refl l
    | inr hcase =>
      rw [hcase]
      exact .insertNode l _
  | fork id =>
    have hfork := turnover_fork l id
    dsimp only [Lineage.perform, outcome]
    cases hresult : (l.fork id).1 with
    | error e => rwa [hresult] at hfork
    | ok children => rwa [hresult] at hfork
  | write id disk index data =>
    exact write_preserves (P := Turnover l 0 0) (fun key sector _ _ h => h.store _ _ key sector)
      (.refl l) id disk index data
  | writeRun id disk first data =>
    exact writeRun_preserves (P := Turnover l 0 0) (fun key sector _ _ h => h.store _ _ key sector)
      (.refl l) id disk first data
  | release id => exact h.turnover_releaseUp _ _

theorem Tallied.performAll (h : Tallied l) (calls : List Call) :
    Tallied (l.performAll calls) ∧
      Turnover l (l.successes Call.addsRoot calls) (l.successes Call.forks calls)
        (l.performAll calls) := by
  induction calls generalizing l with
  | nil => exact ⟨h, .refl l⟩
  | cons call calls ih =>
    obtain ⟨htallied, hrest⟩ := ih (h.perform call)
    rw [successes_cons, successes_cons]
    exact ⟨htallied, (h.turnover call).trans hrest⟩

/-! All together. -/

/--
Whether the free list, the nodes and the statistics agree with the slots, and the statistics are
large enough for whatever may be taken off them.
-/
structure Consistent (l : Lineage) : Prop where
  mem_free_iff : ∀ i, i ∈ l.free ↔ ∃ slot, l.slots[i]? = some slot ∧ slot.node = none
  free_nodup : l.free.Nodup
  referenced : ∀ id node, l.node? id = some node → 0 < node.refcount
  parent_frozen : ∀ id node parent above, l.node? id = some node → node.parent = some parent →
    l.node? parent = some above → above.frozen = true
  attached : ∀ id node, l.node? id = some node → ∀ key ∈ node.overlay.keys,
    ∃ found, l.disk? key.1 = some found ∧ key.2 < found.sectorCount
  liveNodes : l.stats.liveNodes = l.liveCount
  overlaySectors : l.stats.overlaySectors = l.heldSectors
  overlayBytes : l.stats.overlayBytes = l.heldSectors * sectorSize
  coversRelease : ∀ id, l.CoversRelease (some id) (l.slots.size + 1)
  coversDetach : ∀ disk, l.heldSectors - (l.dropDisk disk).heldSectors = l.heldOf disk ∧
    l.stats.Covers 0 (l.heldOf disk)

theorem Tallied.consistent (h : Tallied l) (hlisted : Listed l) (hlinked : Linked l)
    (hattached : Attached l) : Consistent l where
  mem_free_iff i := by
    refine ⟨h.freeSlots.vacant i, ?_⟩
    intro hslot
    obtain ⟨slot, hslot, hvacant⟩ := hslot
    exact hlisted i slot hslot hvacant
  free_nodup := h.freeSlots.nodup
  referenced _ _ := h.referenced
  parent_frozen _ _ _ _ := hlinked.frozen
  attached id node hid key hkey := by
    rw [Table.mem_keys_iff] at hkey
    exact disk?_of_requireSector (hattached id node hid key hkey)
  liveNodes := h.liveNodes
  overlaySectors := h.overlaySectors
  overlayBytes := h.overlayBytes
  coversRelease id := h.coversRelease _ _
  coversDetach disk := by
    have := heldSectors_dropDisk l disk
    exact ⟨by omega, h.coversDetach disk⟩

/--
Every lineage is consistent, whatever is called and whether it succeeds or not, as long as there are
less than 2^32 releases. All nodes that there are, or have been, come from a root that was added or
from a fork.
-/
theorem consistent_performAll (calls : List Call) (hroom : releases calls < UInt32.size) :
    Consistent (performAll {} calls) ∧
      (performAll {} calls).stats.forks = successes {} Call.forks calls ∧
      (performAll {} calls).stats.liveNodes + (performAll {} calls).stats.releasedNodes =
        successes {} Call.addsRoot calls + 2 * (performAll {} calls).stats.forks := by
  have hlisted := listed_performAll calls
  have hlinked := linked_performAll calls hroom
  have hattached := attached_performAll calls
  obtain ⟨htallied, hturnover⟩ := Tallied.empty.performAll calls
  have hforks := hturnover.forks_eq
  have hnodes := hturnover.nodes_eq
  simp only [Nat.zero_add] at hforks hnodes
  refine ⟨htallied.consistent hlisted hlinked hattached, hforks, ?_⟩
  rw [hnodes, hforks]

-- The root is released too often and goes away below its children; its slot is used again, but its
-- children do not descend from the new root.
def disorder : List Call := [
  .attach "disk" 4,
  .addRoot,
  .write ⟨0, 0⟩ ⟨0⟩ 1 (Sector.fill 7).bytes,
  .fork ⟨0, 0⟩,
  .write ⟨2, 0⟩ ⟨0⟩ 3 (Sector.fill 9).bytes,
  .release ⟨0, 0⟩,
  .release ⟨0, 0⟩,
  .release ⟨0, 0⟩,
  .addRoot,
  .release ⟨7, 3⟩,
  .release ⟨1, 0⟩,
  .fork ⟨2, 0⟩]

theorem consistent_performAll_disorder :
    releases disorder < UInt32.size ∧ Consistent (performAll {} disorder) ∧
      (performAll {} disorder).stats.forks = 2 ∧
      (performAll {} disorder).stats.liveNodes + (performAll {} disorder).stats.releasedNodes = 6 ∧
      (performAll {} disorder).heldOf ⟨0⟩ = 1 := by
  have hroom : releases disorder < UInt32.size := by decide +kernel
  have hroots : successes {} Call.addsRoot disorder = 2 := by decide +kernel
  have hforks : successes {} Call.forks disorder = 2 := by decide +kernel
  obtain ⟨hconsistent, hcount, hnodes⟩ := consistent_performAll disorder hroom
  rw [hforks] at hcount
  rw [hroots, hcount] at hnodes
  exact ⟨hroom, hconsistent, hcount, hnodes, by decide +kernel⟩

end Lineage

end MachineFork
