import MachineFork.Lineage.Read
import MachineFork.Proofs.Lineage.Calls

/-!
This module contains the plain picture of a lineage: every node has a copy of all sectors of its
own, and a fork copies the parent's copy twice. Sharing sectors along the way up cannot be told from
this by reading.
-/

namespace MachineFork

/--
The sectors that each node would hold if it had a full copy; what nobody has written is left open.
-/
abbrev Copies := NodeId → DiskHandle × UInt64 → Option Bytes

namespace Copies

def none : Copies := fun _ _ => .none

def put (c : Copies) (id : NodeId) (disk : DiskHandle) (first : UInt64) (data : Bytes) : Copies :=
  Function.update c id fun key => (runSector? disk first data key).or (c id key)

def drop (c : Copies) (disk : DiskHandle) : Copies :=
  fun id key => if key.1 = disk then .none else c id key

def after (c : Copies) (l : Lineage) : Lineage.Call → Copies
  | .attach _ _ => c
  | .detach disk =>
    match (l.detach disk).1 with
    | .ok () => c.drop disk
    | .error _ => c
  | .addRoot =>
    match l.addRoot.1 with
    | .ok id => Function.update c id fun _ => .none
    | .error _ => c
  | .fork id =>
    match (l.fork id).1 with
    | .ok (left, right) => Function.update (Function.update c left (c id)) right (c id)
    | .error _ => c
  | .write id disk index data =>
    match (l.write id disk index data).1 with
    | .ok () => c.put id disk index data
    | .error _ => c
  | .writeRun id disk first data =>
    match (l.writeRun id disk first data).1 with
    | .ok () => c.put id disk first data
    | .error _ => c
  | .release _ => c

end Copies

namespace Lineage

variable {l m : Lineage} {c : Copies} {held : NodeId → Bool} {owed : NodeId → Nat}
variable {id parent owner : NodeId} {node : Node} {key : DiskHandle × UInt64} {sector : Sector}

def history (calls : List Call) : Lineage × Copies :=
  calls.foldl (fun (l, c) call => (l.perform call, c.after l call)) (empty, Copies.none)

inductive Nearest (l : Lineage) (key : DiskHandle × UInt64) : NodeId → NodeId → Sector → Prop where
  | here {id : NodeId} {node : Node} {sector : Sector} (live : l.node? id = some node)
      (holds : node.overlay.find? key = some sector) : Nearest l key id id sector
  | above {id parent owner : NodeId} {node : Node} {sector : Sector} (live : l.node? id = some node)
      (lacks : node.overlay.find? key = none) (up : node.parent = some parent)
      (rest : Nearest l key parent owner sector) : Nearest l key id owner sector

/--
A node's copy is what it holds itself laid over its parent's copy.
-/
def Mirrors (l : Lineage) (c : Copies) : Prop :=
  ∀ id node, l.node? id = some node → ∀ key,
    c id key = ((node.overlay.find? key).map (·.bytes)).or (node.parent.bind fun parent => c parent key)

theorem lookup_trailFrom (hcounted : Counted l held owed) (hmirrors : Mirrors l c)
    (hid : l.node? id = some node) {rounds : Nat} (hrounds : node.depth < rounds)
    (key : DiskHandle × UInt64) :
    ∃ found, (l.trailFrom rounds (some id)).lookup key = .ok found ∧
      found.map (·.2.bytes) = c id key ∧
      ∀ owner sector, found = some (owner, sector) ↔ Nearest l key id owner sector := by
  -- The rounds are enough because they are as many as the levels above `id`, so the induction that
  -- takes one round off can go on with the parent.
  induction rounds generalizing id node with
  | zero => omega
  | succ rounds ih =>
    unfold trailFrom
    simp only [hid, Trail.lookup]
    have hcopy := hmirrors id node hid key
    cases hfind : node.overlay.find? key with
    | some sector =>
      refine ⟨some (id, sector), rfl, ?_, ?_⟩
      · rw [hcopy, hfind]
        rfl
      · intro owner sector'
        constructor
        · intro h
          simp only [Option.some.injEq, Prod.mk.injEq] at h
          obtain ⟨rfl, rfl⟩ := h
          exact .here hid hfind
        · intro h
          cases h with
          | here live holds => grind
          | above live lacks up rest => grind
    | none =>
      rw [hfind, Option.map_none, Option.none_or] at hcopy
      cases hpar : node.parent with
      | none =>
        rw [hpar, Option.bind_none] at hcopy
        refine ⟨none, ?_, hcopy.symm, ?_⟩
        · cases rounds <;> rfl
        · intro owner sector
          constructor
          · intro h
            contradiction
          · intro h
            cases h with
            | here live holds => grind
            | above live lacks up rest => grind
      | some parent =>
        rw [hpar, Option.bind_some] at hcopy
        obtain ⟨above, habove, _, hdepth⟩ := hcounted.parent_live hid hpar
        obtain ⟨found, hlookup, hsame, hnearest⟩ := ih habove (by omega)
        refine ⟨found, hlookup, hsame.trans hcopy.symm, ?_⟩
        intro owner sector
        rw [hnearest]
        constructor
        · intro h
          exact .above hid hfind hpar h
        · intro h
          cases h with
          | here live holds => grind
          | above live lacks up rest => grind

/-! Every call keeps the picture. -/

theorem Mirrors.of_kept (h : Mirrors l c) (hkept : Kept l m) : Mirrors m c := by
  intro id node hid key
  obtain ⟨refcount, hold⟩ := hkept id node hid
  apply h id _ hold key

theorem Mirrors.stores {disk : DiskHandle} {first : UInt64} {data : Bytes} (h : Mirrors l c)
    (hcounted : Counted l held owed) (hid : l.node? id = some node) (hopen : node.frozen = false)
    (hstores : Stores l id disk first data m) : Mirrors m (c.put id disk first data) := by
  obtain ⟨node', overlay, hid', _, hothers, hsectors⟩ := hstores
  rw [hid, Option.some.injEq] at hid'
  subst hid'
  -- The copies of parents stay as they are, because a parent is frozen and `id` is not.
  have hparent {child : NodeId} {inner : Node} (hchild : l.node? child = some inner)
      (key : DiskHandle × UInt64) :
      (inner.parent.bind fun parent => c.put id disk first data parent key)
        = inner.parent.bind fun parent => c parent key := by
    cases hpar : inner.parent with
    | none => rfl
    | some parent =>
      obtain ⟨above, habove, hfrozen, _⟩ := hcounted.parent_live hchild hpar
      have hne : parent ≠ id := by
        intro heq
        subst heq
        rw [hid, Option.some.injEq] at habove
        subst habove
        rw [hopen] at hfrozen
        contradiction
      simp [Copies.put, Function.update_of_ne hne]
  intro other inner hother key
  rw [hothers] at hother
  split at hother
  · next heq =>
    rw [Option.some.injEq] at hother
    subst hother heq
    rw [hsectors, Option.or_assoc, hparent hid, ← h other node hid]
    simp [Copies.put]
  · next hne =>
    rw [hparent hother, ← h other inner hother]
    simp [Copies.put, Function.update_of_ne hne]

theorem Mirrors.drop {disk : DiskHandle} (h : Mirrors l c)
    (hdetach : l.detach disk = (.ok (), m)) : Mirrors m (c.drop disk) := by
  intro id node hid key
  rw [node?_detach hdetach, Option.map_eq_some_iff] at hid
  obtain ⟨old, hold, rfl⟩ := hid
  have hcopy := h id old hold key
  dsimp only
  rw [Table.find?_filterKeys]
  unfold Copies.drop
  by_cases hkey : key.1 = disk
  · cases old.parent <;> simp [hkey]
  · simpa [hkey] using hcopy

theorem Mirrors.root (h : Mirrors l c) (hcounted : Counted l held owed)
    (hnew : l.node? id = none)
    (hothers : ∀ other, m.node? other =
      if other = id then some { parent := none, depth := 0 } else l.node? other) :
    Mirrors m (Function.update c id fun _ => none) := by
  intro other node hother key
  rw [hothers] at hother
  split at hother
  · next heq =>
    rw [Option.some.injEq] at hother
    subst hother heq
    simp
  · next hne =>
    rw [Function.update_of_ne hne, h other node hother key]
    cases hpar : node.parent with
    | none => rfl
    | some parent =>
      obtain ⟨above, habove, _⟩ := hcounted.parent_live hother hpar
      have hparent : parent ≠ id := by
        intro heq
        rw [heq, hnew] at habove
        contradiction
      simp [Function.update_of_ne hparent]

theorem Mirrors.forks {left right : NodeId} (h : Mirrors l c) (hcounted : Counted l held owed)
    (hforks : Forks l id node left right m) :
    Mirrors m (Function.update (Function.update c left (c id)) right (c id)) := by
  -- No node that was live before is a child, so the copies of all of these stay as they are.
  obtain ⟨hleft, hright⟩ := hforks.children_new hcounted.freeSlots
  have hold {other : NodeId} {inner : Node} (hother : l.node? other = some inner) :
      Function.update (Function.update c left (c id)) right (c id) other = c other := by
    have hneleft : other ≠ left := by
      intro heq
      rw [heq, hleft] at hother
      contradiction
    have hneright : other ≠ right := by
      intro heq
      rw [heq, hright] at hother
      contradiction
    rw [Function.update_of_ne hneright, Function.update_of_ne hneleft]
  have hparent {child : NodeId} {inner : Node} (hchild : l.node? child = some inner)
      (key : DiskHandle × UInt64) :
      (inner.parent.bind fun parent =>
          Function.update (Function.update c left (c id)) right (c id) parent key)
        = inner.parent.bind fun parent => c parent key := by
    cases hpar : inner.parent with
    | none => rfl
    | some parent =>
      obtain ⟨above, habove, _⟩ := hcounted.parent_live hchild hpar
      simp only [Option.bind_some]
      rw [hold habove]
  intro other inner hother key
  rw [hforks.node?_eq hcounted.freeSlots] at hother
  split at hother
  · next hchild =>
    rw [Option.some.injEq] at hother
    subst hother
    have hcopy : Function.update (Function.update c left (c id)) right (c id) other = c id := by
      by_cases heq : other = right
      · rw [heq, Function.update_self]
      · have heq' : other = left := by simpa [heq] using hchild
        rw [Function.update_of_ne heq, heq', Function.update_self]
    rw [hcopy]
    simp only [child, Option.bind_some]
    rw [hold hforks.live]
    simp
  · split at hother
    · next heq =>
      rw [Option.some.injEq] at hother
      subst hother heq
      rw [hold hforks.live, h other node hforks.live key]
      simp only [forked]
      rw [hparent hforks.live]
    · rw [hold hother, h other inner hother key]
      rw [hparent hother]

theorem Mirrors.after (h : Mirrors l c) (hcounted : Counted l held fun _ => 0) (call : Call) :
    Mirrors (l.perform call) (c.after l call) := by
  cases call with
  | attach name sectorCount =>
    dsimp only [perform, Copies.after, attach]
    split <;> exact h
  | detach disk =>
    dsimp only [perform, Copies.after]
    cases detach_cases l disk with
    | inl hcase =>
      obtain ⟨e, hcase⟩ := hcase
      rw [hcase]
      exact h
    | inr hcase =>
      obtain ⟨m, hcase⟩ := hcase
      rw [hcase]
      exact h.drop hcase
  | addRoot =>
    dsimp only [perform, Copies.after]
    cases addRoot_cases l with
    | inl hcase =>
      obtain ⟨e, hcase⟩ := hcase
      rw [hcase]
      exact h
    | inr hcase =>
      rw [hcase]
      apply h.root hcounted
      · apply node?_insertNode_self hcounted.freeSlots
      · apply node?_insertNode hcounted.freeSlots
  | fork id =>
    dsimp only [perform, Copies.after]
    cases fork_cases l id with
    | inl hcase =>
      obtain ⟨e, hcase⟩ := hcase
      rw [hcase]
      exact h
    | inr hcase =>
      obtain ⟨node, left, right, m, hcase, hforks⟩ := hcase
      rw [hcase]
      exact h.forks hcounted hforks
  | write id disk index data =>
    dsimp only [perform, Copies.after]
    cases write_cases l id disk index data with
    | inl hcase =>
      obtain ⟨e, hcase⟩ := hcase
      rw [hcase]
      exact h
    | inr hcase =>
      obtain ⟨node, sector, hid, hopen, hsector, hcase⟩ := hcase
      rw [hcase, ← hsector]
      exact h.stores hcounted hid hopen (stores_store hid sector)
  | writeRun id disk first data =>
    dsimp only [perform, Copies.after]
    cases writeRun_cases l id disk first data with
    | inl hcase =>
      obtain ⟨e, hcase⟩ := hcase
      rw [hcase]
      exact h
    | inr hcase =>
      obtain ⟨node, m, hid, hopen, hcase, hstores⟩ := hcase
      rw [hcase]
      exact h.stores hcounted hid hopen hstores
  | release id => exact h.of_kept (kept_release l id)

theorem counted_and_mirrors_foldl (calls : List Call) (released : List NodeId)
    (hcounted : Counted l held fun _ => 0) (hmirrors : Mirrors l c)
    (hreleased : ∀ id, held id = false → id ∈ released)
    (honce : (released ++ calls.filterMap Call.released?).Nodup) :
    let (m, d) := calls.foldl (fun (l, c) call => (l.perform call, c.after l call)) (l, c)
    ∃ held, Counted m held (fun _ => 0) ∧ Mirrors m d := by
  induction calls generalizing l c held released with
  | nil => exact ⟨held, hcounted, hmirrors⟩
  | cons call calls ih =>
    -- A node that is not held any more has been released, so this call cannot release it again.
    have hheld (id : NodeId) (node : Node) (hcall : call = .release id)
        (_ : l.node? id = some node) : held id = true := by
      subst hcall
      by_contra hnot
      rw [Bool.not_eq_true] at hnot
      have hmem := hreleased id hnot
      rw [List.nodup_append] at honce
      exact honce.2.2 id hmem id (by simp [Call.released?]) rfl
    rw [List.foldl_cons]
    apply ih (released ++ call.released?.toList) (hcounted.perform call hheld)
      (hmirrors.after hcounted call)
    · intro id hid
      cases released_of_heldAfter hid with
      | inl hid => simp [hreleased id hid]
      | inr hid => simp [hid]
    · rw [List.append_assoc]
      convert honce using 2
      rw [List.filterMap_cons]
      cases call.released? <;> rfl

/--
Reading cannot tell a lineage from the picture of full copies, as long as no node is released twice:
what the copy holds is read without a look at the fallback, and for what it does not hold the
fallback is asked once. The owner of a sector is the nearest node on the way up that holds it.
-/
theorem read_eq_of_history (calls : List Call) (honce : (calls.filterMap Call.released?).Nodup)
    {id : NodeId} {disk : DiskHandle} {sectorCount index : UInt64}
    (hlive : (history calls).1.isLive id = true)
    (hdisk : (history calls).1.sectorCount disk = .ok sectorCount) (hindex : index < sectorCount) :
    (∀ sector, (history calls).2 id (disk, index) = some sector →
      (∀ (τ : Type) (buffer : Bytes) (fallback : Fallback τ) (state : τ),
        buffer.length = sectorSize →
          (history calls).1.read id disk index buffer fallback state = (.ok (), sector, state)) ∧
      ∃ owner held, (history calls).1.owner? id disk index = .ok (some owner) ∧
        Nearest (history calls).1 (disk, index) id owner held ∧ held.bytes = sector) ∧
    ((history calls).2 id (disk, index) = none →
      (∀ (τ : Type) (buffer : Sector) (fallback : Fallback τ) (state : τ),
        (history calls).1.read id disk index buffer.bytes fallback state =
          let (result, filled, state) := fallback disk index buffer state
          (result, filled.bytes, state)) ∧
      (history calls).1.owner? id disk index = .ok none ∧
      ∀ owner held, ¬ Nearest (history calls).1 (disk, index) id owner held) := by
  obtain ⟨held, hcounted, hmirrors⟩ := counted_and_mirrors_foldl calls []
    (counted_empty fun _ => true) (c := Copies.none) (by simp [Mirrors, node?])
    (by simp) (by simpa using honce)
  -- From here on only the invariant matters, and not how the lineage came about.
  change Counted (history calls).1 held _ at hcounted
  change Mirrors (history calls).1 (history calls).2 at hmirrors
  generalize history calls = result at *
  obtain ⟨l, c⟩ := result
  dsimp only at *
  obtain ⟨node, hid⟩ := Option.isSome_iff_exists.mp hlive
  have hdepth := hcounted.depth_lt hid
  have hrequire : l.requireSector disk index = .ok () :=
    requireSector_ok_iff.mpr ⟨sectorCount, hdisk, hindex⟩
  obtain ⟨found, hlookup, hsame, hnearest⟩ :=
    lookup_trailFrom hcounted hmirrors hid (show node.depth < l.slots.size + 1 by omega)
      (disk, index)
  rw [← hsame]
  constructor
  · intro bytes hbytes
    rw [Option.map_eq_some_iff] at hbytes
    obtain ⟨⟨owner, sector⟩, hfound, rfl⟩ := hbytes
    subst hfound
    refine ⟨?_, owner, sector, ?_, (hnearest owner sector).mp rfl, rfl⟩
    · intro τ buffer fallback state hbuffer
      unfold read
      simp [hrequire, Sector.ofBytes?, hbuffer, trail, hlookup]
    · unfold owner?
      simp [hrequire, trail, hlookup, Except.map]
  · intro hnone
    rw [Option.map_eq_none_iff] at hnone
    subst hnone
    refine ⟨?_, ?_, ?_⟩
    · intro τ buffer fallback state
      unfold read
      simp [hrequire, trail, hlookup]
    · unfold owner?
      simp [hrequire, trail, hlookup, Except.map]
    · intro owner held hnear
      have := (hnearest owner held).mpr hnear
      contradiction

-- A child is released and its slot goes to a grandchild of the root.
def reuse : List Call := [
  .attach "disk" 4,
  .addRoot,
  .write ⟨0, 0⟩ ⟨0⟩ 1 (Sector.fill 7).bytes,
  .fork ⟨0, 0⟩,
  .release ⟨0, 0⟩,
  .writeRun ⟨1, 0⟩ ⟨0⟩ 1 (Sector.fill 8).bytes,
  .release ⟨1, 0⟩,
  .fork ⟨2, 0⟩]

theorem read_eq_of_history_reuse :
    (reuse.filterMap Call.released?).Nodup ∧ (history reuse).1.isLive ⟨1, 1⟩ = true ∧
    (history reuse).1.sectorCount ⟨0⟩ = .ok 4 ∧
    ∀ (τ : Type) (buffer : Bytes) (fallback : Fallback τ) (state : τ), buffer.length = sectorSize →
      (history reuse).1.read ⟨1, 1⟩ ⟨0⟩ 1 buffer fallback state
        = (.ok (), (Sector.fill 7).bytes, state) := by
  have honce : (reuse.filterMap Call.released?).Nodup := by decide
  have hlive : (history reuse).1.isLive ⟨1, 1⟩ = true := by decide +kernel
  have hdisk : (history reuse).1.sectorCount ⟨0⟩ = .ok 4 := by decide +kernel
  have hcopy : (history reuse).2 ⟨1, 1⟩ (⟨0⟩, 1) = some (Sector.fill 7).bytes := by decide +kernel
  have hread := (read_eq_of_history reuse honce hlive hdisk (show 1 < 4 by decide)).1 _ hcopy
  exact ⟨honce, hlive, hdisk, hread.1⟩

end Lineage

end MachineFork
