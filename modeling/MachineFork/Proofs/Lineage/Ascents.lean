import MachineFork.Proofs.Lineage.DepthBounds

/-!
This module contains that every way up comes to an end. The lookup of a sector, the gate and a
release are loops that go from parent to parent without a look at how far they have come. From a
node of some depth none of them takes more rounds than there are levels down to it, whatever is
found on the way.
-/

namespace MachineFork

/--
Whether a loop that starts from `s` ends in its `n`-th round with `r`. A round leaves something to go
on with, or it is the last one.
-/
inductive Loop {σ ρ : Type} (round : σ → σ ⊕ ρ) : σ → Nat → ρ → Prop
  | last {s : σ} {r : ρ} (h : round s = .inr r) : Loop round s 1 r
  | next {s t : σ} {n : Nat} {r : ρ} (h : round s = .inl t) (rest : Loop round t n r) :
    Loop round s (n + 1) r

/--
What is looked for on the way up: what a node answers, if it does not leave the answer to its
parent, and what the answer is at the end of the way.
-/
structure Search (ρ : Type) where
  found? : NodeId → Node → Option ρ
  root : ρ
  broken : NodeId → ρ

namespace Search

def sector (key : DiskHandle × UInt64) : Search (Except DiskError (Option (NodeId × Sector))) where
  found? id node := (node.overlay.find? key).map fun sector => .ok (some (id, sector))
  root := .ok none
  broken id := .error (.staleNode id)

def clear (disk : DiskHandle) : Search Bool where
  found? _ node := if node.overlay.keys.all (·.1 ≠ disk) then none else some false
  root := true
  broken _ := false

end Search

namespace Trail

variable {ρ : Type}

def search (s : Search ρ) : Trail → ρ
  | root => s.root
  | broken id => s.broken id
  | step id node up => (s.found? id node).getD (up.search s)

theorem lookup_eq_search (trail : Trail) (key : DiskHandle × UInt64) :
    trail.lookup key = trail.search (.sector key) := by
  induction trail with
  | root => rfl
  | broken => rfl
  | step id node up ih =>
    rw [lookup, search, ih]
    dsimp only [Search.sector]
    cases node.overlay.find? key <;> rfl

theorem isClear_eq_search (trail : Trail) (disk : DiskHandle) :
    trail.isClear disk = trail.search (.clear disk) := by
  induction trail with
  | root => rfl
  | broken => rfl
  | step id node up ih =>
    rw [isClear, search, ih]
    dsimp only [Search.clear]
    cases node.overlay.keys.all (·.1 ≠ disk) <;> rfl

end Trail

namespace Lineage

variable {l : Lineage} {id parent : NodeId} {node : Node} {rounds : Nat} {ρ : Type}

/-! Rounds. -/

def searchRound (l : Lineage) (s : Search ρ) (id : NodeId) : NodeId ⊕ ρ :=
  match l.node? id with
  | none => .inr (s.broken id)
  | some node =>
    match s.found? id node with
    | some r => .inr r
    | none =>
      match node.parent with
      | some parent => .inl parent
      | none => .inr s.root

def releaseRound : Lineage × NodeId → (Lineage × NodeId) ⊕ (Except DiskError Unit × Lineage)
  | (l, id) =>
    match l.node? id with
    | none => .inr (.error (.staleNode id), l)
    | some node =>
      let refcount := node.refcount - 1
      if 0 < refcount then
        .inr (.ok (), l.setNode id { node with refcount })
      else
        match node.parent with
        | some parent => .inl (l.freeNode id node, parent)
        | none => .inr (.ok (), l.freeNode id node)

structure EndsWithin (l : Lineage) (id : NodeId) (bound : Nat) : Prop where
  trail : (l.trail id).ids.length ≤ bound
  lookup : ∀ key, ∃ n ≤ bound, Loop (l.searchRound (.sector key)) id n ((l.trail id).lookup key)
  canTransfer : ∀ disk, (l.disk? disk).isSome →
    ∃ n ≤ bound, Loop (l.searchRound (.clear disk)) id n (l.canTransfer id disk)
  release : ∃ n ≤ bound, Loop releaseRound (l, id) n (l.release id)

/-! The way up, without a count of rounds. -/

def countAbove (l : Lineage) (depth : Nat) : Nat :=
  l.slots.countP (·.node.any (·.depth < depth))

theorem countAbove_lt (hid : l.node? id = some node) :
    l.countAbove node.depth < l.countAbove (node.depth + 1) := by
  obtain ⟨slot, hslot, -, hnode⟩ := node?_eq_some_iff.mp hid
  have hmem : slot ∈ l.slots.toList := Array.mem_toList_iff.mpr (Array.mem_of_getElem? hslot)
  unfold countAbove
  rw [← Array.countP_toList, ← Array.countP_toList]
  let above : Slot → Bool := fun slot => slot.node.any (·.depth < node.depth)
  let upTo : Slot → Bool := fun slot => slot.node.any (·.depth < node.depth + 1)
  have hsub : above = fun slot => above slot && upTo slot := by
    funext slot
    rw [Bool.eq_iff_iff, Bool.and_eq_true, iff_self_and]
    simp only [above, upTo, Option.any_eq_true, decide_eq_true_eq]
    intro hdepth
    obtain ⟨other, hother, hlt⟩ := hdepth
    exact ⟨other, hother, Nat.lt_succ_of_lt hlt⟩
  calc l.slots.toList.countP above
    _ = (l.slots.toList.filter upTo).countP above := by rw [List.countP_filter, ← hsub]
    _ < (l.slots.toList.filter upTo).length := by
      rw [List.countP_lt_length_iff]
      refine ⟨slot, List.mem_filter.mpr ⟨hmem, ?_⟩, ?_⟩
      · simp [upTo, hnode]
      · simp [above, hnode]
    _ = l.slots.toList.countP upTo := List.countP_eq_length_filter.symm

theorem trailFrom_of_stale (hid : l.node? id = none) (rounds : Nat) :
    l.trailFrom rounds (some id) = .broken id := by
  cases rounds with
  | zero => rfl
  | succ rounds => rw [trailFrom, hid]

theorem Graded.trailFrom_succ (h : Graded l) (hid : l.node? id = some node)
    (hrounds : l.countAbove (node.depth + 1) ≤ rounds) :
    l.trailFrom (rounds + 1) (some id) = l.trailFrom rounds (some id) := by
  induction rounds generalizing id node with
  | zero =>
    have := countAbove_lt hid
    omega
  | succ rounds ih =>
    rw [trailFrom, hid, trailFrom, hid]
    dsimp only
    congr 1
    cases hparent : node.parent with
    | none => cases rounds <;> rfl
    | some parent =>
      cases habove : l.node? parent with
      | none => rw [trailFrom_of_stale habove, trailFrom_of_stale habove]
      | some above =>
        apply ih habove
        -- The parent is one level up, and there is the node itself below it.
        have hlevel := h.depth_eq hid hparent habove
        have hcount := countAbove_lt hid
        rw [← hlevel]
        omega

theorem Graded.trail_eq (h : Graded l) (hid : l.node? id = some node) :
    l.trail id = .step id node (node.parent.elim .root l.trail) := by
  rw [trail, trailFrom, hid]
  dsimp only
  congr 1
  cases hparent : node.parent with
  | none => cases l.slots.size <;> rfl
  | some parent =>
    rw [Option.elim_some, trail]
    cases habove : l.node? parent with
    | none => rw [trailFrom_of_stale habove, trailFrom_of_stale habove]
    | some above =>
      rw [h.trailFrom_succ habove]
      exact Array.countP_le_size

theorem releaseUp_none (l : Lineage) (rounds : Nat) : l.releaseUp none rounds = (.ok (), l) := by
  cases rounds <;> rfl

theorem releaseUp_of_stale (hid : l.node? id = none) (rounds : Nat) :
    l.releaseUp (some id) (rounds + 1) = (.error (.staleNode id), l) := by
  rw [releaseUp, hid]

theorem releaseUp_of_live (hid : l.node? id = some node) (rounds : Nat) :
    l.releaseUp (some id) (rounds + 1) =
      if 0 < node.refcount - 1 then
        (.ok (), l.setNode id { node with refcount := node.refcount - 1 })
      else
        (l.freeNode id node).releaseUp node.parent rounds := by
  rw [releaseUp, hid]

theorem releaseUp_succ (id? : Option NodeId) (hrounds : l.liveCount < rounds) :
    l.releaseUp id? (rounds + 1) = l.releaseUp id? rounds := by
  induction rounds generalizing l id? with
  | zero => omega
  | succ rounds ih =>
    cases id? with
    | none => rw [releaseUp_none, releaseUp_none]
    | some id =>
      cases hid : l.node? id with
      | none => rw [releaseUp_of_stale hid, releaseUp_of_stale hid]
      | some node =>
        rw [releaseUp_of_live hid, releaseUp_of_live hid]
        split
        · rfl
        · apply ih
          have hcount := liveCount_freeNode hid
          omega

theorem release_of_last (hid : l.node? id = some node) (hlast : ¬0 < node.refcount - 1) :
    l.release id =
      match node.parent with
      | none => (.ok (), l.freeNode id node)
      | some parent => (l.freeNode id node).release parent := by
  rw [release, releaseUp_of_live hid, if_neg hlast]
  cases node.parent with
  | none => rw [releaseUp_none]
  | some parent =>
    have hsize : (l.freeNode id node).slots.size = l.slots.size := Array.size_modify
    dsimp only
    rw [release, hsize, releaseUp_succ]
    have hcount := liveCount_freeNode hid
    have hle : l.liveCount ≤ l.slots.size := Array.countP_le_size
    omega

/-! Loops. -/

theorem loop_search_of_stale (s : Search ρ) (hid : l.node? id = none) :
    Loop (l.searchRound s) id 1 ((l.trail id).search s) := by
  rw [trail_of_stale hid]
  apply Loop.last
  rw [searchRound, hid]
  rfl

theorem loop_release_of_stale (hid : l.node? id = none) :
    Loop releaseRound (l, id) 1 (l.release id) := by
  rw [release_of_stale hid]
  apply Loop.last
  rw [releaseRound, hid]

namespace Graded

theorem depth_ne_zero (h : Graded l) (hid : l.node? id = some node)
    (hparent : node.parent = some parent) : node.depth ≠ 0 := by
  rw [ne_eq, ← h.parent_eq_none_iff hid, hparent]
  exact Option.some_ne_none parent

theorem exists_rounds {P : NodeId → Nat → Prop} (h : Graded l)
    (stale : ∀ id, l.node? id = none → P id 1)
    (root : ∀ id node, l.node? id = some node → node.parent = none → P id 1)
    (up : ∀ id node parent n, l.node? id = some node → node.parent = some parent → P parent n →
      P id (n + 1))
    (hid : l.node? id = some node) : ∃ n ≤ node.depth + 1, P id n := by
  induction hdepth : node.depth using Nat.strongRecOn generalizing id node with
  | ind depth ih =>
    subst hdepth
    cases hparent : node.parent with
    | none => exact ⟨1, Nat.le_add_left _ _, root id node hid hparent⟩
    | some parent =>
      cases habove : l.node? parent with
      | none =>
        have hdeep := h.depth_ne_zero hid hparent
        exact ⟨2, by omega, up id node parent 1 hid hparent (stale parent habove)⟩
      | some above =>
        have hlevel := h.depth_eq hid hparent habove
        obtain ⟨n, hn, hrest⟩ := ih above.depth (by omega) habove rfl
        exact ⟨n + 1, by omega, up id node parent n hid hparent hrest⟩

theorem length_ids_le (h : Graded l) (hid : l.node? id = some node) :
    (l.trail id).ids.length ≤ node.depth + 1 := by
  obtain ⟨n, hn, hlength⟩ : ∃ n ≤ node.depth + 1, (l.trail id).ids.length ≤ n := by
    apply h.exists_rounds (P := fun id n => (l.trail id).ids.length ≤ n) _ _ _ hid
    · intro id hid
      rw [trail_of_stale hid]
      exact Nat.zero_le 1
    · intro id node hid hparent
      rw [h.trail_eq hid, hparent]
      exact Nat.le_refl 1
    · intro id node parent n hid hparent hn
      rw [h.trail_eq hid, hparent]
      exact Nat.succ_le_succ hn
  exact Nat.le_trans hlength hn

theorem loop_search (h : Graded l) (s : Search ρ) (hid : l.node? id = some node) :
    ∃ n ≤ node.depth + 1, Loop (l.searchRound s) id n ((l.trail id).search s) := by
  obtain ⟨bound, hbound, n, hn, hloop⟩ : ∃ bound ≤ node.depth + 1, ∃ n ≤ bound,
      Loop (l.searchRound s) id n ((l.trail id).search s) := by
    apply h.exists_rounds (P := fun id bound => ∃ n ≤ bound,
      Loop (l.searchRound s) id n ((l.trail id).search s)) _ _ _ hid
    · intro id hid
      exact ⟨1, Nat.le_refl 1, loop_search_of_stale s hid⟩
    · intro id node hid hparent
      rw [h.trail_eq hid, hparent]
      refine ⟨1, Nat.le_refl 1, .last ?_⟩
      rw [searchRound, hid, Trail.search]
      dsimp only
      rw [hparent]
      cases s.found? id node <;> rfl
    · intro id node parent bound hid hparent hrest
      obtain ⟨n, hn, hloop⟩ := hrest
      rw [h.trail_eq hid, hparent, Trail.search, Option.elim_some]
      cases hfound : s.found? id node with
      | some r =>
        refine ⟨1, Nat.le_add_left _ _, .last ?_⟩
        rw [searchRound, hid]
        dsimp only
        rw [hfound]
        rfl
      | none =>
        refine ⟨n + 1, Nat.succ_le_succ hn, .next ?_ hloop⟩
        rw [searchRound, hid]
        dsimp only
        rw [hfound, hparent]
  exact ⟨n, Nat.le_trans hn hbound, hloop⟩

theorem loop_release (h : Graded l) (hid : l.node? id = some node) :
    ∃ n ≤ node.depth + 1, Loop releaseRound (l, id) n (l.release id) := by
  -- What is freed on the way up does not make the way longer.
  induction hdepth : node.depth using Nat.strongRecOn generalizing l id node with
  | ind depth ih =>
    subst hdepth
    by_cases hlast : 0 < node.refcount - 1
    · refine ⟨1, Nat.le_add_left _ _, .last ?_⟩
      rw [releaseRound, hid, release, releaseUp_of_live hid]
      dsimp only
      rw [if_pos hlast, if_pos hlast]
    · rw [release_of_last hid hlast]
      cases hparent : node.parent with
      | none =>
        refine ⟨1, Nat.le_add_left _ _, .last ?_⟩
        rw [releaseRound, hid]
        dsimp only
        rw [if_neg hlast, hparent]
      | some parent =>
        have hround : releaseRound (l, id) = .inl (l.freeNode id node, parent) := by
          rw [releaseRound, hid]
          dsimp only
          rw [if_neg hlast, hparent]
        dsimp only
        cases habove : (l.freeNode id node).node? parent with
        | none =>
          have hdeep := h.depth_ne_zero hid hparent
          exact ⟨2, by omega, .next hround (loop_release_of_stale habove)⟩
        | some above =>
          have hkept := kept_freeNode hid
          obtain ⟨refcount, habove'⟩ := hkept parent above habove
          have hlevel := h.depth_eq hid hparent habove'
          dsimp only at hlevel
          obtain ⟨n, hn, hrest⟩ := ih above.depth (by omega) (h.of_kept hkept) habove rfl
          exact ⟨n + 1, by omega, .next hround hrest⟩

theorem endsWithin (h : Graded l) (hid : l.node? id = some node) :
    l.EndsWithin id (node.depth + 1) where
  trail := h.length_ids_le hid
  lookup key := by
    rw [Trail.lookup_eq_search]
    exact h.loop_search (.sector key) hid
  canTransfer disk hdisk := by
    rw [Lineage.canTransfer, hdisk, Bool.true_and, Trail.isClear_eq_search]
    exact h.loop_search (.clear disk) hid
  release := h.loop_release hid

end Graded

theorem endsWithin_of_stale (hid : l.node? id = none) : l.EndsWithin id 1 where
  trail := by
    rw [trail_of_stale hid]
    exact Nat.zero_le 1
  lookup key := by
    rw [Trail.lookup_eq_search]
    exact ⟨1, Nat.le_refl 1, loop_search_of_stale _ hid⟩
  canTransfer disk hdisk := by
    rw [Lineage.canTransfer, hdisk, Bool.true_and, Trail.isClear_eq_search]
    exact ⟨1, Nat.le_refl 1, loop_search_of_stale _ hid⟩
  release := ⟨1, Nat.le_refl 1, loop_release_of_stale hid⟩

/--
After any calls, over-releases included, the live nodes without a parent are those of depth zero, and
a parent that is there is the very node that was forked, one level up. No node is its own ancestor,
and all loops up from a node end within one round more than it is deep.
-/
theorem ancestors_of_history (calls : List Call) (hroom : releases calls < UInt32.size) :
    let l := performAll {} calls
    (∀ id node, l.node? id = some node →
      (node.parent = none ↔ node.depth = 0) ∧ node.depth < UInt32.size ∧
      l.EndsWithin id (node.depth + 1)) ∧
    (∀ id, l.node? id = none → l.EndsWithin id 1) ∧
    (∀ id node parent, l.node? id = some node → node.parent = some parent →
      (∃ before after, calls = before ++ .fork parent :: after ∧
        ForkedFrom before after id parent) ∧
      ∀ above, l.node? parent = some above → node.depth = above.depth + 1) ∧
    ∀ id, ¬Relation.TransGen l.IsChild id id := by
  intro l
  have hgraded : Graded l := graded_performAll calls hroom
  refine ⟨?_, fun id hid => endsWithin_of_stale hid, ?_, hgraded.acyclic⟩
  · intro id node hid
    exact ⟨hgraded.parent_eq_none_iff hid, depth_lt_of_history calls hroom hid,
      hgraded.endsWithin hid⟩
  · intro id node parent hid hparent
    obtain ⟨before, after, hcalls, hforked, -⟩ := exists_fork calls hroom hid hparent
    refine ⟨⟨before, after, hcalls, hforked⟩, ?_⟩
    intro above habove
    exact hgraded.depth_eq hid hparent habove

-- A node is released below its children, its slot goes to another root, and all of them are forked.
def supplanted : List Call := [
  .attach "disk" 4,
  .addRoot,
  .fork ⟨0, 0⟩,
  .fork ⟨1, 0⟩,
  .release ⟨1, 0⟩,
  .release ⟨1, 0⟩,
  .release ⟨1, 0⟩,
  .addRoot,
  .fork ⟨1, 1⟩,
  .fork ⟨3, 0⟩]

theorem ancestors_of_history_supplanted :
    releases supplanted < UInt32.size ∧
      ((performAll {} supplanted).node? ⟨3, 0⟩).map (·.parent) = some (some ⟨1, 0⟩) ∧
      (performAll {} supplanted).node? ⟨1, 0⟩ = none ∧
      (performAll {} supplanted).isLive ⟨1, 1⟩ = true ∧
      (∃ before after, supplanted = before ++ .fork ⟨3, 0⟩ :: after ∧
        ForkedFrom before after ⟨7, 0⟩ ⟨3, 0⟩) ∧
      (performAll {} supplanted).EndsWithin ⟨7, 0⟩ 4 ∧
      (performAll {} supplanted).EndsWithin ⟨1, 0⟩ 1 ∧
      ¬Relation.TransGen (performAll {} supplanted).IsChild ⟨1, 1⟩ ⟨1, 1⟩ := by
  have hroom : releases supplanted < UInt32.size := by decide +kernel
  obtain ⟨hnodes, hstale, hparents, hacyclic⟩ := ancestors_of_history supplanted hroom
  have hgone : (performAll {} supplanted).node? ⟨1, 0⟩ = none := by
    rw [← Option.not_isSome_iff_eq_none]
    decide +kernel
  have hplace : ((performAll {} supplanted).node? ⟨7, 0⟩).map (fun node => (node.parent, node.depth))
      = some (some ⟨3, 0⟩, 3) := by decide +kernel
  obtain ⟨node, hid, hplace⟩ := Option.map_eq_some_iff.mp hplace
  obtain ⟨hparent, hdepth⟩ := Prod.mk.inj hplace
  obtain ⟨-, -, hends⟩ := hnodes _ node hid
  rw [hdepth] at hends
  obtain ⟨hforked, -⟩ := hparents _ node _ hid hparent
  exact ⟨hroom, by decide +kernel, hgone, by decide +kernel, hforked, hends, hstale _ hgone,
    hacyclic _⟩

end Lineage

end MachineFork
