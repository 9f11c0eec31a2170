import MachineFork.Lineage.Read
import MachineFork.Proofs.Lineage.Atomicity
import MachineFork.Proofs.Lineage.Changes

/-!
This module contains the ages of slots. A slot is taken and vacated in turn, and gets older by one
each time. A node is the occupant of its slot at one age, and the slot never has that age again;
that the generations of 32 bits tell all ages apart takes a bound on the number of releases. So the
name of a node that is gone never becomes the name of another one.
-/

namespace MachineFork

namespace Slot

def age (slot : Slot) : Nat :=
  2 * slot.generation.toNat + slot.node.isSome.toNat

end Slot

namespace NodeId

def age (id : NodeId) : Nat :=
  2 * id.generation.toNat + 1

end NodeId

namespace Lineage

variable {l m : Lineage} {id : NodeId} {node old : Node} {call : Call} {n : Nat}

def age (l : Lineage) (i : Nat) : Nat :=
  match l.slots[i]? with
  | some slot => slot.age
  | none => 0

theorem age_of_slots_eq (h : m.slots = l.slots) (i : Nat) : m.age i = l.age i := by
  unfold age
  rw [h]

theorem age_eq {i : Nat} {slot : Slot} (h : l.slots[i]? = some slot) : l.age i = slot.age := by
  unfold age
  rw [h]

theorem isLive_iff_age : l.isLive id = true ↔ l.age id.slot = id.age := by
  unfold isLive node? age
  cases l.slots[id.slot]? with
  | none =>
    simp only [Option.isSome_none, Bool.false_eq_true, false_iff, NodeId.age]
    omega
  | some slot =>
    unfold Slot.age NodeId.age
    dsimp only
    cases hnode : slot.node with
    | none =>
      simp only [ite_self, Option.isSome_none, Bool.false_eq_true, false_iff, Bool.toNat_false]
      omega
    | some node =>
      simp only [Option.isSome_some, Bool.toNat_true, Nat.add_right_cancel_iff]
      rw [Nat.mul_right_inj (by omega), UInt32.toNat_inj]
      split
      · next heq => simp [heq]
      · next hne => simp [hne]

@[simp]
theorem age_empty (i : Nat) : age {} i = 0 := rfl

theorem age_of_live (h : l.node? id = some node) : l.age id.slot = id.age := by
  rw [← isLive_iff_age, isLive, h]
  rfl

/-! What the changes do to ages. -/

theorem age_modify {i : Nat} {slot : Slot} (hslot : l.slots[i]? = some slot) (f : Slot → Slot)
    (h : m.slots = l.slots.modify i f) (j : Nat) :
    m.age j = if j = i then (f slot).age else l.age j := by
  unfold age
  rw [h, Array.getElem?_modify]
  by_cases hj : j = i
  · rw [if_pos hj.symm, if_pos hj, hj, hslot]
    rfl
  · rw [if_neg (Ne.symm hj), if_neg hj]

theorem age_setNode (h : l.node? id = some old) (node : Node) (i : Nat) :
    (l.setNode id node).age i = l.age i := by
  obtain ⟨slot, hslot, -, hnode⟩ := node?_eq_some_iff.mp h
  have hage := age_modify (m := l.setNode id node) hslot (fun slot => { slot with node }) rfl i
  rw [hage]
  split
  · next heq =>
    rw [heq, age_eq hslot]
    simp [Slot.age, hnode]
  · rfl

theorem age_lt_insertNode (hfree : l.FreeSlots) (node : Node) :
    l.age (l.insertNode node).1.slot + 1 = (l.insertNode node).1.age := by
  unfold insertNode
  split
  · next i free heq =>
    obtain ⟨slot, hslot, hnode⟩ := hfree.vacant i (by simp [heq])
    rw [age_eq hslot]
    simp [Slot.age, NodeId.age, hslot, hnode]
  · simp [age, NodeId.age]

theorem age_insertNode (hfree : l.FreeSlots) (node : Node) (i : Nat) :
    (l.insertNode node).2.age i
      =
    if i = (l.insertNode node).1.slot then (l.insertNode node).1.age else l.age i := by
  unfold insertNode
  split
  · next j free heq =>
    obtain ⟨slot, hslot, -⟩ := hfree.vacant j (by simp [heq])
    have hgen : (l.slots.getD j {}).generation = slot.generation := by simp [hslot]
    dsimp only
    rw [hgen]
    exact age_modify hslot (fun slot => { slot with node }) rfl i
  · unfold age
    dsimp only
    rw [Array.getElem?_push]
    by_cases hi : i = l.slots.size
    · simp [hi, Slot.age, NodeId.age]
    · rw [if_neg hi, if_neg hi]

theorem age_freeNode (h : l.node? id = some node)
    (hroom : id.generation.toNat + 1 < UInt32.size) (i : Nat) :
    (l.freeNode id node).age i = if i = id.slot then id.age + 1 else l.age i := by
  obtain ⟨slot, hslot, hgen, -⟩ := node?_eq_some_iff.mp h
  have hnext : (slot.generation + 1).toNat = id.generation.toNat + 1 := by
    rw [hgen, UInt32.toNat_add]
    apply Nat.mod_eq_of_lt
    exact hroom
  have hage := age_modify (m := l.freeNode id node) hslot
    (fun slot => { generation := slot.generation + 1, node := none }) rfl i
  rw [hage]
  simp only [Slot.age, NodeId.age, hnext, Option.isSome_none, Bool.toNat_false]
  rfl

theorem age_detach {disk : DiskHandle} (h : l.detach disk = (.ok (), m)) (i : Nat) :
    m.age i = l.age i := by
  obtain ⟨hslots, -, -⟩ := eq_of_detach h
  rw [age_of_slots_eq hslots]
  unfold age dropDisk
  rw [Array.getElem?_map]
  cases l.slots[i]? with
  | none => rfl
  | some slot => simp [Slot.age, Slot.dropDisk]

def Precedes (l m : Lineage) : Prop :=
  ∀ i, l.age i ≤ m.age i

theorem Precedes.refl (l : Lineage) : Precedes l l := by
  intro i
  exact Nat.le_refl _

theorem Precedes.trans {k : Lineage} (hlm : Precedes l m) (hmk : Precedes m k) : Precedes l k := by
  intro i
  exact Nat.le_trans (hlm i) (hmk i)

theorem Change.age_eq_or (hchange : Change l m) (hfree : l.FreeSlots) (i : Nat) :
    m.age i = l.age i ∨ ∃ id : NodeId, m.age i = id.age ∧ l.age i + 1 = id.age := by
  cases hchange with
  | attach => exact .inl rfl
  | detach hdetach => exact .inl (age_detach hdetach i)
  | @insert node =>
    have hlt := age_lt_insertNode hfree node
    rw [age_insertNode hfree]
    split
    · next heq =>
      subst heq
      exact .inr ⟨_, rfl, hlt⟩
    · exact .inl rfl
  | update hid => exact .inl (age_setNode hid _ i)
  | account => exact .inl rfl

def VacatedAtMost (l : Lineage) (n : Nat) : Prop :=
  ∀ i, l.age i ≤ 2 * n + 1

theorem vacatedAtMost_empty : VacatedAtMost {} 0 := by
  intro i
  rw [age_empty]
  omega

theorem Change.precedes (hchange : Change l m) (hfree : l.FreeSlots) : Precedes l m := by
  intro i
  cases hchange.age_eq_or hfree i with
  | inl heq => exact Nat.le_of_eq heq.symm
  | inr hnew =>
    obtain ⟨id, heq, hlt⟩ := hnew
    omega

theorem ages_of_changes (hchanges : Relation.ReflTransGen Change l m) (hfree : l.FreeSlots)
    (hvacated : l.VacatedAtMost n) : Precedes l m ∧ m.VacatedAtMost n := by
  induction hchanges with
  | refl => exact ⟨.refl l, hvacated⟩
  | @tail k m hchanges hchange ih =>
    obtain ⟨hprecedes, hvacated⟩ := ih
    have hfree' := hfree.changes hchanges
    constructor
    · exact hprecedes.trans (hchange.precedes hfree')
    · intro i
      specialize hvacated i
      cases hchange.age_eq_or hfree' i with
      | inl heq =>
        rw [heq]
        exact hvacated
      | inr hnew =>
        -- A slot is taken at an even age, so that there is room for one more.
        obtain ⟨id, heq, hlt⟩ := hnew
        unfold NodeId.age at heq hlt
        omega

theorem Loss.ages (hloss : Loss l m) (hvacated : ∀ i, l.age i ≤ 2 * n + 2)
    (hroom : n + 1 < UInt32.size) : Precedes l m ∧ ∀ i, m.age i ≤ 2 * n + 2 := by
  cases hloss with
  | drop hid =>
    have hage := age_setNode hid
    constructor
    · intro i
      rw [hage]
    · intro i
      rw [hage]
      exact hvacated i
  | @free id _ hid =>
    -- A slot is vacated at an odd age, so that its generation is still at most `n`.
    have hold := age_of_live hid
    have hle := hvacated id.slot
    rw [hold] at hle
    unfold NodeId.age at hle hold
    have hage := age_freeNode hid (by omega)
    unfold NodeId.age at hage
    constructor
    · intro i
      rw [hage]
      split
      · next heq =>
        rw [heq]
        omega
      · exact Nat.le_refl _
    · intro i
      rw [hage]
      split
      · omega
      · exact hvacated i

theorem ages_of_losses (hlosses : Relation.ReflTransGen Loss l m)
    (hvacated : ∀ i, l.age i ≤ 2 * n + 2) (hroom : n + 1 < UInt32.size) :
    Precedes l m ∧ ∀ i, m.age i ≤ 2 * n + 2 := by
  induction hlosses with
  | refl => exact ⟨.refl l, hvacated⟩
  | tail _ hloss ih =>
    obtain ⟨hprecedes, hvacated⟩ := ih
    obtain ⟨hlast, hvacated⟩ := hloss.ages hvacated hroom
    exact ⟨hprecedes.trans hlast, hvacated⟩

theorem ages_of_perform (hfree : l.FreeSlots) (hvacated : l.VacatedAtMost n) (call : Call)
    (hroom : n + releases [call] < UInt32.size) :
    Precedes l (l.perform call) ∧ (l.perform call).VacatedAtMost (n + releases [call]) := by
  cases perform_cases hfree call with
  | inl hcase =>
    obtain ⟨hcount, hchanges⟩ := hcase
    rw [hcount]
    exact ages_of_changes hchanges hfree hvacated
  | inr hcase =>
    obtain ⟨hcount, hlosses⟩ := hcase
    rw [hcount] at hroom ⊢
    have hvacated' (i : Nat) : l.age i ≤ 2 * n + 2 := Nat.le_succ_of_le (hvacated i)
    obtain ⟨hprecedes, hvacated'⟩ := ages_of_losses hlosses hvacated' hroom
    refine ⟨hprecedes, ?_⟩
    intro i
    specialize hvacated' i
    omega

/-! The nodes that a run issues. -/

theorem age_lt_of_new (hprecedes : Precedes l m) (hid : m.node? id = some node)
    (hnew : l.node? id = none) : l.age id.slot < id.age := by
  -- The slot is not older than with the node in it, and it does not hold the node.
  apply Nat.lt_of_le_of_ne
  · rw [← age_of_live hid]
    exact hprecedes id.slot
  · intro heq
    rw [← isLive_iff_age, isLive, hnew] at heq
    contradiction

theorem ages_of_issues (hfree : l.FreeSlots) (hprecedes : Precedes l (l.perform call))
    (hid : id ∈ l.issues call) :
    l.age id.slot < id.age ∧ (l.perform call).age id.slot = id.age := by
  obtain ⟨-, hnew⟩ := issues_new hfree call
  obtain ⟨hnone, node, hnode, -⟩ := hnew id hid
  exact ⟨age_lt_of_new hprecedes hnode hnone, age_of_live hnode⟩

theorem ages_of_performAll (hfree : l.FreeSlots) (hvacated : l.VacatedAtMost n) (calls : List Call)
    (hroom : n + releases calls < UInt32.size) :
    Precedes l (l.performAll calls) ∧ (l.performAll calls).VacatedAtMost (n + releases calls) ∧
      (l.issued calls).Nodup ∧
      ∀ id ∈ l.issued calls,
        l.age id.slot < id.age ∧ id.age ≤ (l.performAll calls).age id.slot := by
  induction calls generalizing l n with
  | nil => exact ⟨.refl l, hvacated, List.nodup_nil, by simp [issued, trace]⟩
  | cons call calls ih =>
    rw [releases_cons, ← Nat.add_assoc] at hroom ⊢
    obtain ⟨hstep, hvacated⟩ := ages_of_perform hfree hvacated call (by omega)
    obtain ⟨hrest, hvacated, hnodup, hissued⟩ := ih (hfree.perform call) hvacated hroom
    rw [performAll_cons, issued_cons]
    refine ⟨hstep.trans hrest, hvacated, ?_, ?_⟩
    · rw [List.nodup_append]
      refine ⟨(issues_new hfree call).1, hnodup, ?_⟩
      -- What comes later is issued at an age that comes later.
      intro id hfirst other hlater heq
      subst heq
      have := (ages_of_issues hfree hstep hfirst).2
      have := (hissued id hlater).1
      omega
    · intro id hid
      have hslot := hstep id.slot
      rw [List.mem_append] at hid
      cases hid with
      | inl hfirst =>
        obtain ⟨hlt, hage⟩ := ages_of_issues hfree hstep hfirst
        rw [← hage]
        exact ⟨by omega, hrest id.slot⟩
      | inr hlater =>
        obtain ⟨hlt, hle⟩ := hissued id hlater
        exact ⟨by omega, hle⟩

/-! Invariants of runs. -/

theorem performAll_preserves {P : Lineage → Prop}
    (hchange : ∀ {l m}, l.FreeSlots → Change l m → P l → P m)
    (hloss : ∀ {l m}, Loss l m → P l → P m) (hfree : l.FreeSlots) (h : P l)
    (calls : List Call) : P (l.performAll calls) := by
  induction calls generalizing l with
  | nil => exact h
  | cons call calls ih =>
    apply ih (hfree.perform call)
    cases perform_cases hfree call with
    | inl hcase =>
      obtain ⟨-, hchanges⟩ := hcase
      exact preserves_of_changes hchange hfree h hchanges
    | inr hcase =>
      obtain ⟨-, hlosses⟩ := hcase
      generalize l.perform call = m at hlosses
      induction hlosses with
      | refl => exact h
      | tail _ hlast ih => exact hloss hlast ih

section Invariant

variable {P : Lineage → Prop}
variable (hchange : ∀ {l m}, l.FreeSlots → Change l m → P l → P m)
variable (hloss : ∀ {l m}, Loss l m → Precedes l m → P l → P m)

include hchange hloss

theorem perform_invariant (hfree : l.FreeSlots) (hvacated : l.VacatedAtMost n) (call : Call)
    (hroom : n + releases [call] < UInt32.size) (h : P l) : P (l.perform call) := by
  cases perform_cases hfree call with
  | inl hcase =>
    obtain ⟨-, hchanges⟩ := hcase
    exact preserves_of_changes hchange hfree h hchanges
  | inr hcase =>
    obtain ⟨hcount, hlosses⟩ := hcase
    rw [hcount] at hroom
    have hvacated' (i : Nat) : l.age i ≤ 2 * n + 2 := Nat.le_succ_of_le (hvacated i)
    generalize l.perform call = m at hlosses
    induction hlosses with
    | refl => exact h
    | tail hbefore hlast ih =>
      obtain ⟨-, hvacated'⟩ := ages_of_losses hbefore hvacated' hroom
      exact hloss hlast (hlast.ages hvacated' hroom).1 ih

theorem performAll_invariant (hfree : l.FreeSlots) (hvacated : l.VacatedAtMost n)
    (calls : List Call) (hroom : n + releases calls < UInt32.size) (h : P l) :
    P (l.performAll calls) := by
  induction calls generalizing l n with
  | nil => exact h
  | cons call calls ih =>
    rw [releases_cons, ← Nat.add_assoc] at hroom
    have hroom' : n + releases [call] < UInt32.size := by omega
    obtain ⟨-, hvacated'⟩ := ages_of_perform hfree hvacated call hroom'
    apply ih (hfree.perform call) hvacated' hroom
    exact perform_invariant hchange hloss hfree hvacated call hroom' h

theorem invariant_of_empty (calls : List Call) (hroom : releases calls < UInt32.size)
    (hempty : P {}) : P (performAll {} calls) := by
  have hfree := Tallied.empty.freeSlots
  exact performAll_invariant hchange hloss hfree vacatedAtMost_empty calls (by omega) hempty

end Invariant

/-! What a name is good for after its node is gone. -/

def Call.node? : Call → Option NodeId
  | fork id => some id
  | write id _ _ _ => some id
  | writeRun id _ _ _ => some id
  | release id => some id
  | _ => none

/--
Whether `id` is good for nothing: whatever is done with it fails, and neither reads nor changes
anything.
-/
structure Refuses (l : Lineage) (id : NodeId) : Prop where
  isLive : l.isLive id = false
  perform : ∀ call, Call.node? call = some id →
    (∃ e, l.outcome call = .error e) ∧ l.perform call = l
  parent : l.parent id = .error (.staleNode id)
  depth : l.depth id = .error (.staleNode id)
  refcount : l.refcount id = .error (.staleNode id)
  isFrozen : l.isFrozen id = .error (.staleNode id)
  overlaySize : l.overlaySize id = .error (.staleNode id)
  owner : ∀ disk index, ∃ e, l.owner? id disk index = .error e
  canTransfer : ∀ disk, l.canTransfer id disk = false
  read : ∀ {τ : Type} disk index buffer (fallback : Fallback τ) state, ∃ e,
    l.read id disk index buffer fallback state = (.error e, buffer, state)
  readRun : ∀ {τ : Type} disk first buffer (fallback : Fallback τ) state, buffer ≠ [] → ∃ e,
    l.readRun id disk first buffer fallback state = (.error e, buffer, state)

theorem node_of_stale (hid : l.node? id = none) : l.node id = .error (.staleNode id) := by
  unfold node
  rw [hid]

theorem trail_of_stale (hid : l.node? id = none) : l.trail id = .broken id := by
  unfold trail trailFrom
  rw [hid]

theorem outcome_of_stale (hid : l.node? id = none) (hcall : Call.node? call = some id) :
    ∃ e, l.outcome call = .error e := by
  cases call with
  | attach name sectorCount => simp [Call.node?] at hcall
  | detach disk => simp [Call.node?] at hcall
  | addRoot => simp [Call.node?] at hcall
  | fork forked =>
    obtain rfl := Option.some.inj hcall
    cases fork_cases l forked with
    | inl hcase =>
      obtain ⟨e, hcase⟩ := hcase
      exact ⟨e, by rw [outcome, hcase, Except.map]⟩
    | inr hcase =>
      obtain ⟨_, _, _, _, -, hforks⟩ := hcase
      have hlive := hforks.live
      simp [hid] at hlive
  | write written disk index data =>
    obtain rfl := Option.some.inj hcall
    cases write_cases l written disk index data with
    | inl hcase =>
      obtain ⟨e, hcase⟩ := hcase
      exact ⟨e, by rw [outcome, hcase]⟩
    | inr hcase =>
      obtain ⟨_, _, hlive, -⟩ := hcase
      simp [hid] at hlive
  | writeRun written disk first data =>
    obtain rfl := Option.some.inj hcall
    cases writeRun_cases l written disk first data with
    | inl hcase =>
      obtain ⟨e, hcase⟩ := hcase
      exact ⟨e, by rw [outcome, hcase]⟩
    | inr hcase =>
      obtain ⟨_, _, hlive, -⟩ := hcase
      simp [hid] at hlive
  | release released =>
    obtain rfl := Option.some.inj hcall
    exact ⟨_, by rw [outcome, release_of_stale hid]⟩

theorem perform_of_stale (hid : l.node? id = none) (hcall : Call.node? call = some id) :
    l.perform call = l := by
  cases hreleased : call.released? with
  | none =>
    obtain ⟨e, he⟩ := outcome_of_stale hid hcall
    exact perform_eq_self_of_error he hreleased
  | some released =>
    obtain rfl := Call.eq_release hreleased
    obtain rfl := Option.some.inj hcall
    exact congrArg Prod.snd (release_of_stale hid)

section Reads

variable {τ : Type} (disk : DiskHandle) (index : UInt64) (buffer : Bytes) (fallback : Fallback τ)
variable (state : τ)

theorem read_of_stale (hid : l.node? id = none) :
    ∃ e, l.read id disk index buffer fallback state = (.error e, buffer, state) := by
  unfold read
  split
  · exact ⟨_, rfl⟩
  · split
    · exact ⟨_, rfl⟩
    · rw [trail_of_stale hid]
      exact ⟨_, rfl⟩

theorem readRun_of_stale (hid : l.node? id = none) (hbuffer : buffer ≠ []) :
    ∃ e, l.readRun id disk index buffer fallback state = (.error e, buffer, state) := by
  unfold readRun
  split
  · exact ⟨_, rfl⟩
  · next hrun =>
    -- A run is one sector at least.
    have hlength : buffer.length / sectorSize ≠ 0 := by
      have := List.length_pos_iff.mpr hbuffer
      unfold requireRun at hrun
      split at hrun
      · contradiction
      · unfold sectorSize at *
        omega
    obtain ⟨count, hcount⟩ := Nat.exists_eq_succ_of_ne_zero hlength
    rw [hcount, readEach]
    obtain ⟨e, hread⟩ := read_of_stale disk index (buffer.take sectorSize) fallback state hid
    rw [hread]
    dsimp only
    exact ⟨e, by rw [List.take_append_drop]⟩

end Reads

theorem refuses_of_stale (hid : l.node? id = none) : Refuses l id where
  isLive := by rw [isLive, hid, Option.isSome_none]
  perform call hcall := ⟨outcome_of_stale hid hcall, perform_of_stale hid hcall⟩
  parent := by rw [parent, node_of_stale hid, Except.map]
  depth := by rw [depth, node_of_stale hid, Except.map]
  refcount := by rw [refcount, node_of_stale hid, Except.map]
  isFrozen := by rw [isFrozen, node_of_stale hid, Except.map]
  overlaySize := by rw [overlaySize, node_of_stale hid, Except.map]
  owner disk index := by
    unfold owner?
    split
    · exact ⟨_, rfl⟩
    · rw [trail_of_stale hid]
      exact ⟨_, rfl⟩
  canTransfer disk := by
    rw [canTransfer, trail_of_stale hid, Trail.isClear, Bool.and_false]
  read disk index buffer fallback state := read_of_stale disk index buffer fallback state hid
  readRun disk first buffer fallback state hbuffer :=
    readRun_of_stale disk first buffer fallback state hid hbuffer

/--
All names that are issued are different, and a name whose node has been freed is good for nothing
from then on, however often its slot is used again, as long as there are less than 2^32 releases.
-/
theorem refuses_of_freed (calls more : List Call)
    (hroom : releases (calls ++ more) < UInt32.size) :
    (issued {} (calls ++ more)).Nodup ∧
    ∀ id ∈ issued {} calls, (performAll {} calls).isLive id = false →
      Refuses (performAll {} (calls ++ more)) id := by
  have hfree := Tallied.empty.freeSlots
  have hvacated := vacatedAtMost_empty
  obtain ⟨-, -, hnodup, -⟩ := ages_of_performAll hfree hvacated (calls ++ more) (by omega)
  refine ⟨hnodup, ?_⟩
  intro id hissued hfreed
  rw [releases_append] at hroom
  obtain ⟨-, hvacated, -, hages⟩ := ages_of_performAll hfree hvacated calls (by omega)
  obtain ⟨hprecedes, -⟩ := ages_of_performAll (hfree.performAll calls) hvacated more (by omega)
  rw [performAll_append]
  apply refuses_of_stale
  rw [← Option.not_isSome_iff_eq_none]
  -- The slot has been older than the node before, and it did not get younger.
  intro hlive
  have hle := (hages id hissued).2
  have hslot := hprecedes id.slot
  rw [isLive_iff_age.mp hlive] at hslot
  have heq := isLive_iff_age.mpr (Nat.le_antisymm hslot hle)
  rw [hfreed] at heq
  contradiction

-- The slot of the first child is used for its nephew, and then for a root.
def childReleased : List Call := [.addRoot, .fork ⟨0, 0⟩, .release ⟨1, 0⟩]

def nephews : List Call := [.fork ⟨2, 0⟩, .release ⟨1, 1⟩, .addRoot]

theorem refuses_of_freed_reuse :
    releases (childReleased ++ nephews) < UInt32.size ∧ ⟨1, 0⟩ ∈ issued {} childReleased ∧
      (performAll {} (childReleased ++ nephews)).isLive ⟨1, 2⟩ = true ∧
      (issued {} (childReleased ++ nephews)).Nodup ∧
      Refuses (performAll {} (childReleased ++ nephews)) ⟨1, 0⟩ := by
  have hroom : releases (childReleased ++ nephews) < UInt32.size := by decide +kernel
  have hissued : ⟨1, 0⟩ ∈ issued {} childReleased := by decide +kernel
  have hfreed : (performAll {} childReleased).isLive ⟨1, 0⟩ = false := by decide +kernel
  obtain ⟨hnodup, hrefuses⟩ := refuses_of_freed childReleased nephews hroom
  exact ⟨hroom, hissued, by decide +kernel, hnodup, hrefuses _ hissued hfreed⟩

end Lineage

end MachineFork
