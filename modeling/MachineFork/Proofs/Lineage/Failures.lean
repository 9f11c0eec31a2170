import MachineFork.Lineage.Read
import MachineFork.Proofs.Lineage.Calls

/-!
This module contains that no call fails because of its node, if the node is live and, for a write,
not frozen: such a call is refused for its disk, its index or its length only, or because there is
no more room. A read may fail in any way in which its fallback does.
-/

namespace MachineFork

def DiskError.NamesNode : DiskError → Prop
  | .staleNode _ | .frozenNode _ => True
  | _ => False

namespace Lineage

variable {l m : Lineage} {held : NodeId → Bool} {owed : NodeId → Nat} {id : NodeId} {node : Node}
variable {disk : DiskHandle} {index first : UInt64} {data buffer : Bytes} {e : DiskError}
variable {frozen : Bool}

theorem isFrozen_eq_ok_iff :
    l.isFrozen id = .ok frozen ↔ ∃ node, l.node? id = some node ∧ node.frozen = frozen := by
  unfold isFrozen Lineage.node
  cases l.node? id <;> simp [Except.map]

theorem isFrozen_congr (h : (m.node? id).map (·.frozen) = (l.node? id).map (·.frozen)) :
    m.isFrozen id = l.isFrozen id := by
  unfold isFrozen Lineage.node
  cases hm : m.node? id <;> cases hl : l.node? id <;> simp_all [Except.map]

theorem Kept.isFrozen_eq (h : Kept l m) (hlive : m.node? id = some node) :
    m.isFrozen id = l.isFrozen id := by
  obtain ⟨refcount, hold⟩ := h id node hlive
  apply isFrozen_congr
  rw [hlive, hold]
  rfl

/-! Disks and room. -/

theorem not_namesNode_of_sectorCount (h : l.sectorCount disk = .error e) : ¬e.NamesNode := by
  unfold sectorCount at h
  split at h <;> simp_all [DiskError.NamesNode]
  subst h
  simp

theorem not_namesNode_of_requireSector (h : l.requireSector disk index = .error e) :
    ¬e.NamesNode := by
  unfold requireSector at h
  split at h
  · next heq =>
    rw [Except.error.injEq] at h
    exact h ▸ not_namesNode_of_sectorCount heq
  · split at h
    · simp at h
    · rw [Except.error.injEq] at h
      simp [← h, DiskError.NamesNode]

theorem not_namesNode_of_requireRun {length : Nat} (h : l.requireRun disk first length = .error e) :
    ¬e.NamesNode := by
  unfold requireRun at h
  split at h
  · rw [Except.error.injEq] at h
    simp [← h, DiskError.NamesNode]
  · split at h
    · cases hcount : l.sectorCount disk with
      | error error =>
        rw [hcount, Except.map, Except.error.injEq] at h
        exact h ▸ not_namesNode_of_sectorCount hcount
      | ok sectorCount => simp [hcount, Except.map] at h
    · exact not_namesNode_of_requireSector h

theorem not_namesNode_of_requireRoom {count : Nat} (h : l.requireRoom count = .error e) :
    ¬e.NamesNode := by
  unfold requireRoom at h
  dsimp only at h
  split at h
  · rw [Except.error.injEq] at h
    simp [← h, DiskError.NamesNode]
  · simp at h

theorem not_namesNode_of_attach {name : String} {sectorCount : UInt64}
    (h : l.attach name sectorCount = (.error e, m)) : ¬e.NamesNode := by
  unfold attach at h
  split at h
  · simp only [Prod.mk.injEq, Except.error.injEq] at h
    simp [← h.1, DiskError.NamesNode]
  · simp at h

theorem not_namesNode_of_detach (h : l.detach disk = (.error e, m)) : ¬e.NamesNode := by
  unfold detach at h
  split at h
  · simp only [Prod.mk.injEq, Except.error.injEq] at h
    simp [← h.1, DiskError.NamesNode]
  · simp at h

theorem not_namesNode_of_addRoot (h : l.addRoot = (.error e, m)) : ¬e.NamesNode := by
  unfold addRoot at h
  split at h
  · next hroom =>
    simp only [Prod.mk.injEq, Except.error.injEq] at h
    exact h.1 ▸ not_namesNode_of_requireRoom hroom
  · simp at h

theorem not_namesNode_of_fork (hlive : l.isFrozen id = .ok frozen)
    (h : l.fork id = (.error e, m)) : ¬e.NamesNode := by
  obtain ⟨node, hid, -⟩ := isFrozen_eq_ok_iff.mp hlive
  unfold fork at h
  split at h
  · next hroom =>
    simp only [Prod.mk.injEq, Except.error.injEq] at h
    exact h.1 ▸ not_namesNode_of_requireRoom hroom
  · rw [hid] at h
    dsimp only at h
    split at h
    · simp only [Prod.mk.injEq, Except.error.injEq] at h
      simp [← h.1, DiskError.NamesNode]
    · simp at h

theorem isFrozen_attach (l : Lineage) (name : String) (sectorCount : UInt64) (id : NodeId) :
    (l.attach name sectorCount).2.isFrozen id = l.isFrozen id := by
  unfold attach
  split <;> rfl

theorem isFrozen_detach (l : Lineage) (disk : DiskHandle) (id : NodeId) :
    (l.detach disk).2.isFrozen id = l.isFrozen id := by
  cases detach_cases l disk with
  | inl hcase =>
    obtain ⟨e, hcase⟩ := hcase
    rw [hcase]
  | inr hcase =>
    obtain ⟨m, hcase⟩ := hcase
    rw [hcase]
    apply isFrozen_congr
    rw [node?_detach hcase, Option.map_map]
    rfl

/-! Writes. -/

theorem isFrozen_store (hid : l.node? id = some node) (key : DiskHandle × UInt64) (sector : Sector)
    (other : NodeId) : (l.store id node key sector).isFrozen other = l.isFrozen other := by
  apply isFrozen_congr
  rw [node?_store hid]
  split
  · next heq =>
    rw [heq, hid]
    rfl
  · rfl

theorem isFrozen_write (l : Lineage) (id : NodeId) (disk : DiskHandle) (index : UInt64)
    (data : Bytes) (other : NodeId) :
    (l.write id disk index data).2.isFrozen other = l.isFrozen other :=
  write_preserves (P := fun m => m.isFrozen other = l.isFrozen other)
    (fun key sector hid _ h => (isFrozen_store hid key sector other).trans h) rfl id disk index data

theorem isFrozen_writeRun (l : Lineage) (id : NodeId) (disk : DiskHandle) (first : UInt64)
    (data : Bytes) (other : NodeId) :
    (l.writeRun id disk first data).2.isFrozen other = l.isFrozen other :=
  writeRun_preserves (P := fun m => m.isFrozen other = l.isFrozen other)
    (fun key sector hid _ h => (isFrozen_store hid key sector other).trans h) rfl id disk first data

theorem not_namesNode_of_write (hopen : l.isFrozen id = .ok false)
    (h : l.write id disk index data = (.error e, m)) : ¬e.NamesNode := by
  obtain ⟨node, hid, hfrozen⟩ := isFrozen_eq_ok_iff.mp hopen
  unfold write at h
  split at h
  · next hrequire =>
    simp only [Prod.mk.injEq, Except.error.injEq] at h
    exact h.1 ▸ not_namesNode_of_requireSector hrequire
  · split at h
    · simp only [Prod.mk.injEq, Except.error.injEq] at h
      simp [← h.1, DiskError.NamesNode]
    · simp [hid, hfrozen] at h

theorem not_namesNode_of_writeEach {count : Nat} (hopen : l.isFrozen id = .ok false)
    (h : l.writeEach id disk count index data = (.error e, m)) : ¬e.NamesNode := by
  induction count generalizing l index data with
  | zero => simp [writeEach] at h
  | succ count ih =>
    rw [writeEach] at h
    split at h
    · next hone =>
      simp only [Prod.mk.injEq, Except.error.injEq] at h
      exact h.1 ▸ not_namesNode_of_write hopen hone
    · next m₁ hone =>
      have hsame := isFrozen_write l id disk index (data.take sectorSize) id
      rw [hone] at hsame
      exact ih (hsame.trans hopen) h

theorem not_namesNode_of_writeRun (hopen : l.isFrozen id = .ok false)
    (h : l.writeRun id disk first data = (.error e, m)) : ¬e.NamesNode := by
  unfold writeRun at h
  split at h
  · next hrequire =>
    simp only [Prod.mk.injEq, Except.error.injEq] at h
    exact h.1 ▸ not_namesNode_of_requireRun hrequire
  · rw [hopen] at h
    exact not_namesNode_of_writeEach hopen h

/-! Reads. -/

theorem Counted.exists_lookup (h : Counted l held owed) (hid : l.node? id = some node)
    (key : DiskHandle × UInt64) : ∃ found, (l.trail id).lookup key = .ok found := by
  have hdepth := h.depth_lt hid
  unfold trail
  generalize hrounds : l.slots.size + 1 = rounds
  replace hdepth : node.depth < rounds := by omega
  clear hrounds
  induction rounds generalizing id node with
  | zero => omega
  | succ rounds ih =>
    rw [trailFrom, hid]
    dsimp only
    rw [Trail.lookup]
    split
    · exact ⟨_, rfl⟩
    · cases hparent : node.parent with
      | none => exact ⟨none, by simp [trailFrom, Trail.lookup]⟩
      | some parent =>
        obtain ⟨above, habove, -, hlevel⟩ := h.parent_live hid hparent
        exact ih habove (by omega)

variable {τ : Type} {fallback : Fallback τ} {state : τ}

theorem exists_fallback_of_read (h : Counted l held owed) (hlive : l.isFrozen id = .ok frozen)
    (hread : (l.read id disk index buffer fallback state).1 = .error e) (hnames : e.NamesNode) :
    ∃ old, (fallback disk index old state).1 = .error e := by
  obtain ⟨node, hid, -⟩ := isFrozen_eq_ok_iff.mp hlive
  unfold read at hread
  split at hread
  · next hrequire =>
    rw [Except.error.injEq] at hread
    exact absurd hnames (hread ▸ not_namesNode_of_requireSector hrequire)
  · split at hread
    · rw [Except.error.injEq] at hread
      simp [← hread, DiskError.NamesNode] at hnames
    · next old _ =>
      obtain ⟨found, hlookup⟩ := h.exists_lookup hid (disk, index)
      rw [hlookup] at hread
      cases found with
      | none => exact ⟨old, hread⟩
      | some found => simp at hread

theorem read_preserves {P : τ → Prop} (l : Lineage) (id : NodeId) (buffer : Bytes)
    (hstate : P state) (hfallback : ∀ old, P (fallback disk index old state).2.2) :
    P (l.read id disk index buffer fallback state).2.2 := by
  unfold read
  split
  · exact hstate
  · split
    · exact hstate
    · next old _ =>
      split
      · exact hstate
      · exact hstate
      · exact hfallback old

theorem exists_fallback_of_readEach {count : Nat} (h : Counted l held owed)
    (hlive : l.isFrozen id = .ok frozen)
    (hread : (l.readEach id disk fallback count index buffer state).1 = .error e)
    (hnames : e.NamesNode) :
    ∃ index old state, (fallback disk index old state).1 = .error e := by
  induction count generalizing index buffer state with
  | zero => simp [readEach] at hread
  | succ count ih =>
    rw [readEach] at hread
    dsimp only at hread
    split at hread
    · next hone =>
      have hone' := congrArg Prod.fst hone
      dsimp only at hone' hread
      rw [hread] at hone'
      obtain ⟨old, hfallback⟩ := exists_fallback_of_read h hlive hone' hnames
      exact ⟨_, old, _, hfallback⟩
    · exact ih hread

theorem exists_fallback_of_readRun (h : Counted l held owed) (hlive : l.isFrozen id = .ok frozen)
    (hread : (l.readRun id disk first buffer fallback state).1 = .error e) (hnames : e.NamesNode) :
    ∃ index old state, (fallback disk index old state).1 = .error e := by
  unfold readRun at hread
  split at hread
  · next hrequire =>
    rw [Except.error.injEq] at hread
    exact absurd hnames (hread ▸ not_namesNode_of_requireRun hrequire)
  · exact exists_fallback_of_readEach h hlive hread hnames

end Lineage

end MachineFork
