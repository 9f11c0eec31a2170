import MachineFork.Proofs.Lineage.Ancestors
import MachineFork.Proofs.Lineage.Consistency

/-!
This module contains the way up from a node as a path of live nodes, and what can be told from the
path alone: which node owns a sector, and whether a node sees the base image of a disk and nothing
else. This holds after any calls. A path may break off, because a node has been released too often,
and then nothing is told from it.
-/

namespace MachineFork

namespace Trail

def ofPath : List (NodeId × Node) → Trail
  | [] => root
  | (id, node) :: path => step id node (ofPath path)

def isBroken : Trail → Bool
  | root => false
  | broken _ => true
  | step _ _ up => up.isBroken

variable {trail : Trail} {key : DiskHandle × UInt64} {disk : DiskHandle}

theorem lookup_ofPath (path : List (NodeId × Node)) (key : DiskHandle × UInt64) :
    (ofPath path).lookup key
      =
    .ok (path.findSome? fun step => (step.2.overlay.find? key).map (step.1, ·)) := by
  induction path with
  | nil => rfl
  | cons step path ih =>
    rw [ofPath, lookup, List.findSome?_cons, ih]
    cases step.2.overlay.find? key <;> rfl

theorem isClear_ofPath (path : List (NodeId × Node)) (disk : DiskHandle) :
    (ofPath path).isClear disk = path.all fun step => step.2.overlay.keys.all (·.1 ≠ disk) := by
  induction path with
  | nil => rfl
  | cons step path ih => rw [ofPath, isClear, ih, List.all_cons]

theorem isBroken_of_lookup (h : trail.lookup key = .ok none) : trail.isBroken = false := by
  induction trail with
  | root => rfl
  | broken => contradiction
  | step id node up ih =>
    rw [lookup] at h
    split at h
    · simp at h
    · exact ih h

theorem isBroken_of_isClear (h : trail.isClear disk = true) : trail.isBroken = false := by
  induction trail with
  | root => rfl
  | broken => contradiction
  | step id node up ih =>
    rw [isClear, Bool.and_eq_true] at h
    exact ih h.2

end Trail

namespace Lineage

variable {l m : Lineage} {id parent : NodeId} {id? : Option NodeId} {node above : Node}
variable {path other : List (NodeId × Node)} {entry : NodeId × Node} {disk : DiskHandle}
variable {index : UInt64}

/-! Paths. -/

inductive Climbs (l : Lineage) : Option NodeId → List (NodeId × Node) → Prop where
  | root : Climbs l none []
  | step {id : NodeId} {node : Node} {path : List (NodeId × Node)} (hid : l.node? id = some node)
    (hup : Climbs l node.parent path) : Climbs l (some id) ((id, node) :: path)

namespace Climbs

theorem unique (h : l.Climbs id? path) (hother : l.Climbs id? other) : path = other := by
  induction h generalizing other with
  | root =>
    cases hother
    rfl
  | step hid hup ih =>
    cases hother with
    | step hid' hup' =>
      obtain rfl := Option.some.inj (hid.symm.trans hid')
      rw [ih hup']

theorem live (h : l.Climbs id? path) (hmem : entry ∈ path) : l.node? entry.1 = some entry.2 := by
  induction h with
  | root => contradiction
  | step hid _ ih =>
    rw [List.mem_cons] at hmem
    cases hmem with
    | inl heq =>
      rw [heq]
      exact hid
    | inr htail => exact ih htail

theorem exists_rest (h : l.Climbs id? path) (hmem : entry ∈ path) :
    ∃ rest, l.Climbs (some entry.1) rest ∧ rest.length ≤ path.length := by
  induction h with
  | root => contradiction
  | @step id node path hid hup ih =>
    rw [List.mem_cons] at hmem
    cases hmem with
    | inl heq =>
      rw [heq]
      exact ⟨_, .step hid hup, Nat.le_refl _⟩
    | inr htail =>
      obtain ⟨rest, hrest, hlength⟩ := ih htail
      exact ⟨rest, hrest, Nat.le_succ_of_le hlength⟩

theorem nodup_slots (h : l.Climbs id? path) : (path.map (·.1.slot)).Nodup := by
  induction h with
  | root => exact List.nodup_nil
  | @step id node path hid hup ih =>
    rw [List.map_cons, List.nodup_cons]
    refine ⟨?_, ih⟩
    intro hmem
    obtain ⟨again, hagain, hslot⟩ := List.mem_map.mp hmem
    -- The node would be above itself, and its path longer than itself.
    have heq := eq_of_slot_eq (hup.live hagain) hid hslot
    obtain ⟨rest, hrest, hlength⟩ := hup.exists_rest hagain
    rw [heq] at hrest
    rw [hrest.unique (.step hid hup), List.length_cons] at hlength
    omega

theorem length_le (h : l.Climbs id? path) : path.length ≤ l.slots.size := by
  have hsubset : path.map (·.1.slot) ⊆ List.range l.slots.size := by
    intro slot hslot
    obtain ⟨entry, hentry, rfl⟩ := List.mem_map.mp hslot
    exact List.mem_range.mpr (slot_lt_of_node? (h.live hentry))
  have hlength := (h.nodup_slots.subperm hsubset).length_le
  rwa [List.length_map, List.length_range] at hlength

theorem trailFrom_eq (h : l.Climbs id? path) {rounds : Nat} (hrounds : path.length ≤ rounds) :
    l.trailFrom rounds id? = .ofPath path := by
  induction h generalizing rounds with
  | root => cases rounds <;> rfl
  | step hid hup ih =>
    cases rounds with
    | zero => simp at hrounds
    | succ rounds =>
      rw [trailFrom, hid]
      dsimp only
      rw [ih (Nat.le_of_succ_le_succ hrounds)]
      rfl

theorem trail_eq (h : l.Climbs (some id) path) : l.trail id = .ofPath path :=
  h.trailFrom_eq (Nat.le_succ_of_le h.length_le)

end Climbs

theorem exists_climbs_of_trailFrom {rounds : Nat}
    (h : (l.trailFrom rounds id?).isBroken = false) : ∃ path, l.Climbs id? path := by
  induction rounds generalizing id? with
  | zero =>
    cases id? with
    | none => exact ⟨[], .root⟩
    | some id => contradiction
  | succ rounds ih =>
    cases id? with
    | none => exact ⟨[], .root⟩
    | some id =>
      rw [trailFrom] at h
      split at h
      · contradiction
      · next node hid =>
        obtain ⟨path, hpath⟩ := ih h
        exact ⟨_, .step hid hpath⟩

/-! Chains of parents. -/

theorem Climbs.isLive (h : l.Climbs (some id) path)
    (hchain : Relation.ReflTransGen l.IsChild id parent) : l.isLive parent = true := by
  induction hchain using Relation.ReflTransGen.head_induction_on generalizing path with
  | refl =>
    cases h with
    | step hid => rw [Lineage.isLive, hid, Option.isSome_some]
  | head hhead _ ih =>
    obtain ⟨node, hid, hparent⟩ := hhead
    cases h with
    | step hid' hup =>
      obtain rfl := Option.some.inj (hid.symm.trans hid')
      rw [hparent] at hup
      exact ih hup

def Ranked (l : Lineage) : Prop :=
  ∃ rank : NodeId → Nat, ∀ id parent, l.IsChild id parent → l.isLive parent = true →
    rank parent < rank id

theorem Ranked.exists_climbs (h : Ranked l)
    (hlive : ∀ other, Relation.ReflTransGen l.IsChild id other → l.isLive other = true) :
    ∃ path, l.Climbs (some id) path := by
  obtain ⟨rank, hrank⟩ := h
  induction hbound : rank id using Nat.strongRecOn generalizing id with
  | ind bound ih =>
    obtain ⟨node, hid⟩ := Option.isSome_iff_exists.mp (hlive id .refl)
    cases hparent : node.parent with
    | none =>
      refine ⟨[(id, node)], .step hid ?_⟩
      rw [hparent]
      exact .root
    | some parent =>
      have hup : l.IsChild id parent := ⟨node, hid, hparent⟩
      have hless := hrank id parent hup (hlive parent (.single hup))
      obtain ⟨path, hpath⟩ := ih (rank parent) (hbound ▸ hless)
        (fun other hother => hlive other (.head hup hother)) rfl
      refine ⟨(id, node) :: path, .step hid ?_⟩
      rw [hparent]
      exact hpath

theorem ranked_performAll (calls : List Call) (hroom : releases calls < UInt32.size) :
    Ranked (performAll {} calls) := by
  refine ⟨fun id => ((performAll {} calls).node? id).elim 0 (·.depth), ?_⟩
  intro id parent hhas hlive
  obtain ⟨node, hid, hparent⟩ := hhas
  obtain ⟨above, habove⟩ := Option.isSome_iff_exists.mp hlive
  have hlevel := (graded_performAll calls hroom).depth_eq hid hparent habove
  dsimp only
  rw [hid, habove, Option.elim_some, Option.elim_some]
  omega

/-! Sectors. -/

theorem requireSector_iff_of_disk? {found : Disk} (h : l.disk? disk = some found) :
    l.requireSector disk index = .ok () ↔ index < found.sectorCount := by
  rw [requireSector_ok_iff, sectorCount, h]
  simp

theorem Climbs.lookup_eq_none {key : DiskHandle × UInt64} (h : l.Climbs (some id) path)
    (hnone : ∀ entry ∈ path, entry.2.overlay.find? key = none) :
    (l.trail id).lookup key = .ok none := by
  rw [h.trail_eq, Trail.lookup_ofPath, List.findSome?_eq_none_iff.mpr]
  intro entry hentry
  rw [hnone entry hentry, Option.map_none]

theorem owner?_eq_ok_none_iff :
    l.owner? id disk index = .ok none ↔
      l.requireSector disk index = .ok () ∧
        ∃ path, l.Climbs (some id) path ∧
          ∀ entry ∈ path, entry.2.overlay.find? (disk, index) = none := by
  unfold owner?
  cases hrequire : l.requireSector disk index with
  | error e => simp
  | ok =>
    dsimp only
    constructor
    · intro h
      cases hlookup : (l.trail id).lookup (disk, index) with
      | error e => simp [hlookup, Except.map] at h
      | ok found =>
        rw [hlookup, Except.map, Except.ok.injEq, Option.map_eq_none_iff] at h
        subst h
        obtain ⟨path, hpath⟩ := exists_climbs_of_trailFrom (Trail.isBroken_of_lookup hlookup)
        rw [hpath.trail_eq, Trail.lookup_ofPath, Except.ok.injEq] at hlookup
        simp only [List.findSome?_eq_none_iff, Option.map_eq_none_iff] at hlookup
        exact ⟨rfl, path, hpath, hlookup⟩
    · intro h
      obtain ⟨-, path, hpath, hnone⟩ := h
      rw [hpath.lookup_eq_none hnone]
      rfl

theorem owner?_eq_of_holder (h : l.Climbs (some id) path)
    (hrequire : l.requireSector disk index = .ok ()) (hmem : entry ∈ path)
    (hheld : (entry.2.overlay.find? (disk, index)).isSome) :
    ∃ owner ∈ path, (owner.2.overlay.find? (disk, index)).isSome ∧
      l.owner? id disk index = .ok (some owner.1) := by
  unfold owner?
  rw [hrequire, h.trail_eq, Trail.lookup_ofPath]
  dsimp only
  cases hfound : path.findSome?
      (fun entry => (entry.2.overlay.find? (disk, index)).map (entry.1, ·)) with
  | none =>
    rw [List.findSome?_eq_none_iff] at hfound
    have hnone := hfound entry hmem
    rw [Option.map_eq_none_iff] at hnone
    rw [hnone] at hheld
    contradiction
  | some found =>
    obtain ⟨owner, howner, hsector⟩ := List.exists_of_findSome?_eq_some hfound
    obtain ⟨sector, hheld, rfl⟩ := Option.map_eq_some_iff.mp hsector
    exact ⟨owner, howner, Option.isSome_of_eq_some hheld, rfl⟩

theorem read_of_owner?_eq_none {τ : Type} (howner : l.owner? id disk index = .ok none)
    (old : Sector) (fallback : Fallback τ) (state : τ) :
    l.read id disk index old.bytes fallback state
      =
    let (result, sector, state) := fallback disk index old state
    (result, sector.bytes, state) := by
  obtain ⟨hrequire, path, hpath, hnone⟩ := owner?_eq_ok_none_iff.mp howner
  unfold read
  rw [hrequire, Sector.ofBytes?_bytes, hpath.lookup_eq_none hnone]

/-! The gate. -/

theorem canTransfer_iff_path :
    l.canTransfer id disk = true ↔
      (l.disk? disk).isSome ∧ ∃ path, l.Climbs (some id) path ∧
        ∀ entry ∈ path, ∀ index, entry.2.overlay.find? (disk, index) = none := by
  have hkeys (node : Node) : node.overlay.keys.all (·.1 ≠ disk) = true ↔
      ∀ index, node.overlay.find? (disk, index) = none := by
    simp only [List.all_eq_true, decide_eq_true_eq, Table.mem_keys_iff, Prod.forall]
    constructor
    · intro h index
      rw [← Option.not_isSome_iff_eq_none]
      exact fun hheld => h disk index hheld rfl
    · intro h other index hheld heq
      rw [heq, h index] at hheld
      contradiction
  unfold canTransfer
  rw [Bool.and_eq_true]
  apply and_congr_right
  intro _
  constructor
  · intro h
    obtain ⟨path, hpath⟩ := exists_climbs_of_trailFrom (Trail.isBroken_of_isClear h)
    rw [hpath.trail_eq, Trail.isClear_ofPath, List.all_eq_true] at h
    exact ⟨path, hpath, fun entry hentry => (hkeys entry.2).mp (h entry hentry)⟩
  · intro h
    obtain ⟨path, hpath, hnone⟩ := h
    rw [hpath.trail_eq, Trail.isClear_ofPath, List.all_eq_true]
    exact fun entry hentry => (hkeys entry.2).mpr (hnone entry hentry)

theorem Attached.canTransfer_iff (h : Attached l) :
    l.canTransfer id disk = true ↔
      ∃ found path, l.disk? disk = some found ∧ l.Climbs (some id) path ∧
        ∀ index < found.sectorCount, l.owner? id disk index = .ok none := by
  rw [canTransfer_iff_path]
  constructor
  · intro hclear
    obtain ⟨hdisk, path, hpath, hnone⟩ := hclear
    obtain ⟨found, hfound⟩ := Option.isSome_iff_exists.mp hdisk
    refine ⟨found, path, hfound, hpath, ?_⟩
    intro index hindex
    rw [owner?_eq_ok_none_iff, requireSector_iff_of_disk? hfound]
    exact ⟨hindex, path, hpath, fun entry hentry => hnone entry hentry index⟩
  · intro howners
    obtain ⟨found, path, hfound, hpath, howners⟩ := howners
    refine ⟨by rw [hfound, Option.isSome_some], path, hpath, ?_⟩
    intro entry hentry index
    rw [← Option.not_isSome_iff_eq_none]
    intro hheld
    have hrequire := h entry.1 entry.2 (hpath.live hentry) (disk, index) hheld
    rw [requireSector_iff_of_disk? hfound] at hrequire
    obtain ⟨-, path', hpath', hnone⟩ := owner?_eq_ok_none_iff.mp (howners index hrequire)
    rw [hpath'.unique hpath] at hnone
    rw [hnone entry hentry] at hheld
    contradiction

/--
After any calls, a node is free for transfers if and only if its path is unbroken and no sector of
the disk has an owner on it. Then whatever is read is what the fallback answers; if it is not free
in spite of an unbroken path, there is a sector that is held by a node on the path. As long as there
are less than 2^32 releases, a path is unbroken if all nodes on it are live.
-/
theorem canTransfer_exact (calls : List Call) (id : NodeId) (disk : DiskHandle) :
    let l := performAll {} calls
    (l.canTransfer id disk = true ↔
      ∃ found path, l.disk? disk = some found ∧ l.Climbs (some id) path ∧
        ∀ index < found.sectorCount, l.owner? id disk index = .ok none) ∧
    (releases calls < UInt32.size → ((∃ path, l.Climbs (some id) path) ↔
      ∀ other, Relation.ReflTransGen l.IsChild id other → l.isLive other = true)) ∧
    (l.canTransfer id disk = true →
      ∀ (τ : Type) (fallback : Fallback τ) (index : UInt64) (old : Sector) (state : τ),
        l.requireSector disk index = .ok () →
          l.read id disk index old.bytes fallback state
            =
          let (result, sector, state) := fallback disk index old state
          (result, sector.bytes, state)) ∧
    (l.canTransfer id disk = false →
      ∀ found path, l.disk? disk = some found → l.Climbs (some id) path →
        ∃ index < found.sectorCount, ∃ owner ∈ path,
          (owner.2.overlay.find? (disk, index)).isSome ∧
            l.owner? id disk index = .ok (some owner.1)) := by
  intro l
  have hattached : Attached l := attached_performAll calls
  refine ⟨hattached.canTransfer_iff, ?_, ?_, ?_⟩
  · intro hroom
    constructor
    · intro h
      obtain ⟨path, hpath⟩ := h
      exact fun other hchain => hpath.isLive hchain
    · exact (ranked_performAll calls hroom).exists_climbs
  · intro hclear τ fallback index old state hrequire
    obtain ⟨found, path, hfound, -, howners⟩ := hattached.canTransfer_iff.mp hclear
    rw [requireSector_iff_of_disk? hfound] at hrequire
    exact read_of_owner?_eq_none (howners index hrequire) old fallback state
  · intro hheld found path hfound hpath
    obtain ⟨entry, hentry, index, hindex⟩ :
        ∃ entry ∈ path, ∃ index, (entry.2.overlay.find? (disk, index)).isSome := by
      by_contra hnone
      push Not at hnone
      rw [← Bool.not_eq_true, canTransfer_iff_path] at hheld
      apply hheld
      refine ⟨by rw [hfound, Option.isSome_some], path, hpath, ?_⟩
      intro entry hentry index
      rw [← Option.not_isSome_iff_eq_none]
      exact hnone entry hentry index
    have hrequire := hattached entry.1 entry.2 (hpath.live hentry) (disk, index) hindex
    refine ⟨index, (requireSector_iff_of_disk? hfound).mp hrequire, ?_⟩
    exact owner?_eq_of_holder hpath hrequire hentry hindex

-- One of the first root's children holds a sector. The second root is released below its children.
def orphaned : List Call := [
  .attach "disk" 4,
  .addRoot,
  .fork ⟨0, 0⟩,
  .write ⟨1, 0⟩ ⟨0⟩ 3 (Sector.fill 7).bytes,
  .addRoot,
  .fork ⟨3, 0⟩,
  .release ⟨3, 0⟩,
  .release ⟨3, 0⟩,
  .release ⟨3, 0⟩]

theorem canTransfer_exact_orphaned :
    releases orphaned < UInt32.size ∧
      (performAll {} orphaned).canTransfer ⟨2, 0⟩ ⟨0⟩ = true ∧
      (∃ path, (performAll {} orphaned).Climbs (some ⟨2, 0⟩) path) ∧
      (performAll {} orphaned).canTransfer ⟨1, 0⟩ ⟨0⟩ = false ∧
      (performAll {} orphaned).owner? ⟨1, 0⟩ ⟨0⟩ 3 = .ok (some ⟨1, 0⟩) ∧
      (performAll {} orphaned).canTransfer ⟨4, 0⟩ ⟨0⟩ = false ∧
      ¬∃ path, (performAll {} orphaned).Climbs (some ⟨4, 0⟩) path := by
  have hroom : releases orphaned < UInt32.size := by decide +kernel
  have hclear : (performAll {} orphaned).canTransfer ⟨2, 0⟩ ⟨0⟩ = true := by decide +kernel
  obtain ⟨hgate, -⟩ := canTransfer_exact orphaned ⟨2, 0⟩ ⟨0⟩
  obtain ⟨-, hchain, -⟩ := canTransfer_exact orphaned ⟨4, 0⟩ ⟨0⟩
  obtain ⟨found, path, -, hpath, -⟩ := hgate.mp hclear
  refine ⟨hroom, hclear, ⟨path, hpath⟩, by decide +kernel, by decide +kernel, by decide +kernel, ?_⟩
  rw [hchain hroom]
  intro hlive
  have hparent : ((performAll {} orphaned).node? ⟨4, 0⟩).map (·.parent)
      = some (some ⟨3, 0⟩) := by decide +kernel
  obtain ⟨node, hid, hparent⟩ := Option.map_eq_some_iff.mp hparent
  have hgone : (performAll {} orphaned).isLive ⟨3, 0⟩ = false := by decide +kernel
  exact Bool.false_ne_true (hgone.symm.trans (hlive ⟨3, 0⟩ (.single ⟨node, hid, hparent⟩)))

end Lineage

end MachineFork
