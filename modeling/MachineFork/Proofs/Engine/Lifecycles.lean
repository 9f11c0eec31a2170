import MachineFork.Proofs.Engine.Walks

/-!
This module contains lifecycles: what is left of an engine when everything is left aside that its
snapshots hold. Every step of a walk is one of a few turns in the lifecycle, and from these follows
what a lifecycle tells about the past: which snapshots have been made by forks, and which ones have
ever been active.
-/

namespace MachineFork

structure Stage where
  frozen : Bool := false
  restored : Bool := false
  deriving DecidableEq, Repr

def Snapshot.stage (s : Snapshot) : Stage where
  frozen := s.frozen
  restored := s.restored

@[ext]
structure Lifecycle where
  stage? : SnapshotId → Option Stage := fun _ => none
  active : Option SnapshotId := none
  nextId : Nat := 0
  rootCreated : Bool := false

namespace Lifecycle

def addRoot (c : Lifecycle) : Lifecycle where
  stage? id := if id = ⟨c.nextId⟩ then some {} else c.stage? id
  active := some ⟨c.nextId⟩
  nextId := c.nextId + 1
  rootCreated := true

def restore (c : Lifecycle) (id : SnapshotId) (stage : Stage) : Lifecycle :=
  { c with
    stage? := fun other => if other = id then some { stage with restored := true }
      else c.stage? other
    active := some id }

def fail (c : Lifecycle) : Lifecycle :=
  { c with active := none }

def activeBut (c : Lifecycle) (id : SnapshotId) : Option SnapshotId :=
  if c.active = some id then none else c.active

def fork (c : Lifecycle) (id : SnapshotId) (stage : Stage) : Lifecycle :=
  { c with
    stage? := fun other => if other = ⟨c.nextId + 1⟩ ∨ other = ⟨c.nextId⟩ then some {}
      else if other = id then some { stage with frozen := true }
      else c.stage? other
    active := c.activeBut id
    nextId := c.nextId + 2 }

def destroy (c : Lifecycle) (id : SnapshotId) : Lifecycle :=
  { c with
    stage? := fun other => if other = id then none else c.stage? other
    active := c.activeBut id }

inductive Turn (c : Lifecycle) : List Birth → Option SnapshotId → Lifecycle → Prop where
  | stay : Turn c [] none c
  | root (hroot : c.rootCreated = false) : Turn c [⟨⟨c.nextId⟩, none⟩] none c.addRoot
  | restored {id : SnapshotId} {stage : Stage} (hid : c.stage? id = some stage)
    (hopen : stage.frozen = false) : Turn c [] none (c.restore id stage)
  | failed {id : SnapshotId} {stage : Stage} (hid : c.stage? id = some stage)
    (hopen : stage.frozen = false) : Turn c [] (some id) c.fail
  | forked {id : SnapshotId} {stage : Stage} (hid : c.stage? id = some stage)
    (hopen : stage.frozen = false) :
    Turn c [⟨⟨c.nextId⟩, some id⟩, ⟨⟨c.nextId + 1⟩, some id⟩] none (c.fork id stage)
  | destroyed (id : SnapshotId) : Turn c [] none (c.destroy id)

/--
Whether a lifecycle agrees with what has happened before: which snapshots are the children of forks,
which ones were ever active, and of which ones a restore has failed.
-/
structure Tells (c : Lifecycle) (children was failures : SnapshotId → Prop) : Prop where
  number_lt : ∀ id, (c.stage? id).isSome → id.number < c.nextId
  unborn : c.rootCreated = false → c.nextId = 0
  /-- As long as the root is not forked, there are no other snapshots. -/
  alone : ∀ stage, c.stage? ⟨0⟩ = some stage → stage.frozen = false → c.nextId = 1
  active : ∀ id, c.active = some id →
    was id ∧ ∃ stage, c.stage? id = some stage ∧ stage.frozen = false
  was_lt : ∀ id, was id → id.number < c.nextId
  /-- All but the root are active only after they have been restored. -/
  was_iff : ∀ id stage, c.stage? id = some stage →
    (was id ↔ stage.restored = true ∨ id.number = 0)
  children_iff : ∀ id, children id ↔ 0 < id.number ∧ id.number < c.nextId
  pending : ∀ stage, c.stage? ⟨0⟩ = some stage → stage.frozen = false → stage.restored = false →
    c.active = some ⟨0⟩ ∨ failures ⟨0⟩

variable {c c' : Lifecycle} {children was failures failures' : SnapshotId → Prop}
variable {id other : SnapshotId} {stage next : Stage} {births : List Birth}
variable {lost : Option SnapshotId}

theorem active_of_activeBut (h : c.activeBut id = some other) :
    c.active = some other ∧ other ≠ id := by
  unfold activeBut at h
  split at h
  · contradiction
  · next hother =>
    refine ⟨h, ?_⟩
    rintro rfl
    exact hother h

theorem fork_cases (h : (c.fork id stage).stage? other = some next) :
    (other.number = c.nextId ∨ other.number = c.nextId + 1) ∧ next = {} ∨
      other = id ∧ next = { stage with frozen := true } ∨
      other ≠ id ∧ c.stage? other = some next := by
  dsimp only [fork] at h
  split at h
  · next hnew =>
    left
    refine ⟨?_, (Option.some.inj h).symm⟩
    rcases hnew with rfl | rfl
    · exact .inr rfl
    · exact .inl rfl
  · split at h
    · next heq => exact .inr (.inl ⟨heq, (Option.some.inj h).symm⟩)
    · next hne => exact .inr (.inr ⟨hne, h⟩)

theorem stage?_fork_of_lt (hlt : other.number < c.nextId) (hne : other ≠ id) :
    (c.fork id stage).stage? other = c.stage? other := by
  dsimp only [fork]
  rw [if_neg, if_neg hne]
  rintro (rfl | rfl)
  · exact Nat.not_succ_lt_self hlt
  · exact Nat.lt_irrefl _ hlt

namespace Tells

theorem start : Tells {} (fun _ => False) (fun _ => False) (fun _ => False) := by
  constructor <;> simp

theorem lt_of_stage (h : c.Tells children was failures) (hid : c.stage? id = some stage) :
    id.number < c.nextId :=
  h.number_lt id (Option.isSome_of_eq_some hid)

theorem eq_root (h : c.Tells children was failures) {root : Stage}
    (hroot : c.stage? ⟨0⟩ = some root) (hopen : root.frozen = false)
    (hid : c.stage? id = some stage) : id = ⟨0⟩ := by
  have hlt := h.lt_of_stage hid
  rw [h.alone root hroot hopen] at hlt
  cases id
  rw [SnapshotId.mk.injEq]
  exact Nat.lt_one_iff.mp hlt

theorem narrow {d : Lifecycle} (h : c.Tells children was failures) (hnextId : d.nextId = c.nextId)
    (hroot : d.rootCreated = c.rootCreated)
    (hstages : ∀ id stage, d.stage? id = some stage → c.stage? id = some stage)
    (hactive : ∀ id, d.active = some id → c.active = some id ∧ d.stage? id = c.stage? id)
    (hpending : ∀ stage, d.stage? ⟨0⟩ = some stage → stage.frozen = false →
      stage.restored = false → d.active = some ⟨0⟩ ∨ failures' ⟨0⟩) :
    d.Tells children (fun id => was id ∨ d.active = some id) failures' := by
  have hwas (id : SnapshotId) : was id ∨ d.active = some id ↔ was id :=
    or_iff_left_of_imp fun hid => (h.active id (hactive id hid).1).1
  constructor
  · intro id hid
    obtain ⟨stage, hstage⟩ := Option.isSome_iff_exists.mp hid
    rw [hnextId]
    exact h.lt_of_stage (hstages id stage hstage)
  · rw [hroot, hnextId]
    exact h.unborn
  · rw [hnextId]
    exact fun stage hstage => h.alone stage (hstages ⟨0⟩ stage hstage)
  · intro id hid
    obtain ⟨hbefore, hsame⟩ := hactive id hid
    rw [hwas, hsame]
    exact h.active id hbefore
  · intro id hid
    rw [hnextId]
    exact h.was_lt id ((hwas id).mp hid)
  · intro id stage hstage
    rw [hwas]
    exact h.was_iff id stage (hstages id stage hstage)
  · rw [hnextId]
    exact h.children_iff
  · exact hpending

theorem stay (h : c.Tells children was failures) :
    c.Tells children (fun id => was id ∨ c.active = some id) failures :=
  h.narrow rfl rfl (fun _ _ hid => hid) (fun _ hid => ⟨hid, rfl⟩) h.pending

theorem destroy (h : c.Tells children was failures) (id : SnapshotId) :
    (c.destroy id).Tells children (fun other => was other ∨ (c.destroy id).active = some other)
      failures := by
  have hkept {other : SnapshotId} {stage : Stage}
      (hother : (c.destroy id).stage? other = some stage) :
      other ≠ id ∧ c.stage? other = some stage := by
    dsimp only [Lifecycle.destroy] at hother
    split at hother
    · contradiction
    · next hne => exact ⟨hne, hother⟩
  apply h.narrow (d := c.destroy id) rfl rfl
  · exact fun other stage hother => (hkept hother).2
  · intro other hother
    obtain ⟨hactive, hne⟩ := active_of_activeBut hother
    exact ⟨hactive, if_neg hne⟩
  · intro stage hstage hopen hrestored
    obtain ⟨hne, hstage⟩ := hkept hstage
    apply (h.pending stage hstage hopen hrestored).imp_left
    -- If the root is active and stays, another snapshot has gone.
    intro hactive
    dsimp only [Lifecycle.destroy, activeBut]
    rw [if_neg]
    · exact hactive
    · rw [hactive, Option.some.injEq]
      exact hne

theorem fail (h : c.Tells children was failures) (hid : c.stage? id = some stage)
    (hlost : failures' id) :
    c.fail.Tells children (fun other => was other ∨ c.fail.active = some other) failures' := by
  apply h.narrow (d := c.fail) rfl rfl
  · exact fun _ _ hother => hother
  · intro other hother
    cases hother
  · intro root hroot hopen _
    rw [← h.eq_root hroot hopen hid]
    exact .inr hlost

theorem restore (h : c.Tells children was failures) (hid : c.stage? id = some stage)
    (hopen : stage.frozen = false) :
    (c.restore id stage).Tells children
      (fun other => was other ∨ (c.restore id stage).active = some other) failures := by
  have hlt := h.lt_of_stage hid
  have hstage {other : SnapshotId} {next : Stage}
      (hother : (c.restore id stage).stage? other = some next) :
      other = id ∧ next = { stage with restored := true } ∨
        other ≠ id ∧ c.stage? other = some next := by
    dsimp only [Lifecycle.restore] at hother
    split at hother
    · next heq => exact .inl ⟨heq, (Option.some.inj hother).symm⟩
    · next hne => exact .inr ⟨hne, hother⟩
  constructor
  · intro other hother
    obtain ⟨next, hother⟩ := Option.isSome_iff_exists.mp hother
    rcases hstage hother with ⟨rfl, -⟩ | ⟨-, hother⟩
    · exact hlt
    · exact h.lt_of_stage hother
  · exact h.unborn
  · intro root hroot hunfrozen
    rcases hstage hroot with ⟨rfl, -⟩ | ⟨-, hroot⟩
    · exact h.alone stage hid hopen
    · exact h.alone root hroot hunfrozen
  · intro other hother
    obtain rfl := Option.some.inj hother
    exact ⟨.inr rfl, _, if_pos rfl, hopen⟩
  · intro other hother
    cases hother with
    | inl hbefore => exact h.was_lt other hbefore
    | inr hnow =>
      obtain rfl := Option.some.inj hnow
      exact hlt
  · intro other next hother
    rcases hstage hother with ⟨rfl, rfl⟩ | ⟨hne, hother⟩
    · exact iff_of_true (.inr rfl) (.inl rfl)
    · have hnow : (c.restore id stage).active ≠ some other :=
        fun heq => hne (Option.some.inj heq).symm
      rw [or_iff_left hnow]
      exact h.was_iff other next hother
  · exact h.children_iff
  · intro root hroot hunfrozen hnever
    rcases hstage hroot with ⟨-, rfl⟩ | ⟨hne, hroot⟩
    · contradiction
    · exact absurd (h.eq_root hroot hunfrozen hid).symm hne

theorem addRoot (h : c.Tells children was failures) (hroot : c.rootCreated = false) :
    c.addRoot.Tells children (fun other => was other ∨ c.addRoot.active = some other) failures := by
  have hnextId := h.unborn hroot
  have hnone (id : SnapshotId) : c.stage? id = none := by
    rw [← Option.not_isSome_iff_eq_none]
    intro hsome
    have := h.number_lt id hsome
    omega
  have hstage {other : SnapshotId} {stage : Stage} (hother : c.addRoot.stage? other = some stage) :
      other = ⟨0⟩ ∧ stage = {} := by
    dsimp only [Lifecycle.addRoot] at hother
    rw [hnone, hnextId] at hother
    split at hother
    · next heq => exact ⟨heq, (Option.some.inj hother).symm⟩
    · contradiction
  constructor
  · intro id hid
    obtain ⟨stage, hid⟩ := Option.isSome_iff_exists.mp hid
    rw [(hstage hid).1]
    exact Nat.succ_pos _
  · exact fun hnever => absurd hnever (Bool.noConfusion)
  · exact fun _ _ _ => congrArg (· + 1) hnextId
  · intro id hid
    obtain rfl := Option.some.inj hid
    exact ⟨.inr rfl, _, if_pos rfl, rfl⟩
  · intro id hid
    cases hid with
    | inl hbefore => exact Nat.lt_succ_of_lt (h.was_lt id hbefore)
    | inr hnow =>
      obtain rfl := Option.some.inj hnow
      exact Nat.lt_succ_self _
  · intro id stage hid
    obtain ⟨rfl, rfl⟩ := hstage hid
    have hnow : c.addRoot.active = some ⟨0⟩ := by rw [Lifecycle.addRoot, hnextId]
    exact iff_of_true (.inr hnow) (.inr rfl)
  · intro id
    rw [h.children_iff]
    dsimp only [Lifecycle.addRoot]
    omega
  · intro _ _ _ _
    rw [Lifecycle.addRoot, hnextId]
    exact .inl rfl

theorem fork (h : c.Tells children was failures) (hid : c.stage? id = some stage) :
    (c.fork id stage).Tells
      (fun other => children other ∨ ∃ parent,
        (⟨other, some parent⟩ : Birth) ∈ [⟨⟨c.nextId⟩, some id⟩, ⟨⟨c.nextId + 1⟩, some id⟩])
      (fun other => was other ∨ (c.fork id stage).active = some other) failures := by
  have hlt := h.lt_of_stage hid
  have hnextId : (c.fork id stage).nextId = c.nextId + 2 := rfl
  have hwas (other : SnapshotId) : was other ∨ (c.fork id stage).active = some other ↔ was other :=
    or_iff_left_of_imp fun hother => (h.active other (active_of_activeBut hother).1).1
  -- If it is the root that is forked, it freezes; and no other snapshot is forked before.
  have hroot {root : Stage} (hroot : (c.fork id stage).stage? ⟨0⟩ = some root) :
      root.frozen = true := by
    rcases fork_cases hroot with ⟨hnew, -⟩ | ⟨-, rfl⟩ | ⟨hne, hroot⟩
    · dsimp only at hnew
      omega
    · rfl
    · rw [← Bool.not_eq_false]
      exact fun hunfrozen => hne (h.eq_root hroot hunfrozen hid).symm
  constructor
  · intro other hother
    obtain ⟨next, hother⟩ := Option.isSome_iff_exists.mp hother
    rw [hnextId]
    rcases fork_cases hother with ⟨hnew, -⟩ | ⟨rfl, -⟩ | ⟨-, hother⟩
    · omega
    · omega
    · have := h.lt_of_stage hother
      omega
  · intro hnever
    have := h.unborn hnever
    omega
  · intro root hstage hunfrozen
    rw [hroot hstage] at hunfrozen
    contradiction
  · intro other hother
    obtain ⟨hactive, hne⟩ := active_of_activeBut hother
    obtain ⟨hbefore, next, hnext, hunfrozen⟩ := h.active other hactive
    refine ⟨.inl hbefore, next, ?_, hunfrozen⟩
    rw [stage?_fork_of_lt (h.lt_of_stage hnext) hne]
    exact hnext
  · intro other hother
    have := h.was_lt other ((hwas other).mp hother)
    omega
  · intro other next hother
    rw [hwas]
    rcases fork_cases hother with ⟨hnew, rfl⟩ | ⟨rfl, rfl⟩ | ⟨-, hother⟩
    · apply iff_of_false
      · intro hwas
        have := h.was_lt other hwas
        omega
      · rintro (hrestored | hzero)
        · contradiction
        · omega
    · exact h.was_iff other stage hid
    · exact h.was_iff other next hother
  · intro other
    obtain ⟨number⟩ := other
    simp only [h.children_iff, hnextId, List.mem_cons, List.not_mem_nil, or_false, Birth.mk.injEq,
      SnapshotId.mk.injEq, Option.some.injEq]
    constructor
    · rintro (hbefore | ⟨parent, hnew | hnew⟩) <;> omega
    · intro hnumber
      by_cases hbefore : number < c.nextId
      · exact .inl ⟨hnumber.1, hbefore⟩
      · have hnew : number = c.nextId ∨ number = c.nextId + 1 := by omega
        exact .inr ⟨id, hnew.imp (⟨·, rfl⟩) (⟨·, rfl⟩)⟩
  · intro root hstage hunfrozen
    rw [hroot hstage] at hunfrozen
    contradiction

theorem mono (h : c.Tells children was failures) (hmore : ∀ id, failures id → failures' id) :
    c.Tells children was failures' :=
  { h with
    pending := fun stage hstage hopen hrestored =>
      (h.pending stage hstage hopen hrestored).imp_right (hmore ⟨0⟩) }

theorem turn (h : c.Tells children was failures) (hturn : c.Turn births lost c') :
    c'.Tells (fun id => children id ∨ ∃ parent, ⟨id, some parent⟩ ∈ births)
      (fun id => was id ∨ c'.active = some id) (fun id => failures id ∨ lost = some id) := by
  have hnobody (births : List Birth) (hbirths : ∀ id parent, ⟨id, some parent⟩ ∉ births) :
      (fun id => children id ∨ ∃ parent, ⟨id, some parent⟩ ∈ births) = children := by
    funext id
    simp [hbirths]
  cases hturn with
  | stay =>
    rw [hnobody [] (by simp)]
    exact h.stay.mono fun _ => .inl
  | root hroot =>
    rw [hnobody _ (by simp)]
    exact (h.addRoot hroot).mono fun _ => .inl
  | restored hid hopen =>
    rw [hnobody [] (by simp)]
    exact (h.restore hid hopen).mono fun _ => .inl
  | failed hid =>
    rw [hnobody [] (by simp)]
    exact h.fail hid (.inr rfl)
  | forked hid => exact (h.fork hid).mono fun _ => .inl
  | destroyed id =>
    rw [hnobody [] (by simp)]
    exact (h.destroy id).mono fun _ => .inl

end Tells

theorem Turn.nextId_le (hturn : c.Turn births lost c') : c.nextId ≤ c'.nextId := by
  cases hturn with
  | stay | restored | failed | destroyed => exact Nat.le_refl _
  | root => exact Nat.le_add_right c.nextId 1
  | forked => exact Nat.le_add_right c.nextId 2

theorem Turn.frozen (hturn : c.Turn births lost c') (hlt : id.number < c.nextId)
    (hafter : c'.stage? id = some next) :
    ∃ stage, c.stage? id = some stage ∧ (stage.frozen = true → next.frozen = true) := by
  cases hturn with
  | stay | failed => exact ⟨next, hafter, fun h => h⟩
  | root =>
    dsimp only [addRoot] at hafter
    rw [if_neg] at hafter
    · exact ⟨next, hafter, fun h => h⟩
    · rintro rfl
      exact Nat.lt_irrefl _ hlt
  | @restored other stage hother =>
    dsimp only [restore] at hafter
    split at hafter
    · next heq =>
      obtain rfl := Option.some.inj hafter
      rw [heq]
      exact ⟨stage, hother, fun h => h⟩
    · exact ⟨next, hafter, fun h => h⟩
  | @forked other stage hother =>
    rcases fork_cases hafter with ⟨hnew, -⟩ | ⟨rfl, rfl⟩ | ⟨-, hafter⟩
    · omega
    · exact ⟨stage, hother, fun _ => rfl⟩
    · exact ⟨next, hafter, fun h => h⟩
  | destroyed other =>
    dsimp only [destroy] at hafter
    split at hafter
    · contradiction
    · exact ⟨next, hafter, fun h => h⟩

/-! Phases. -/

def phase? (c : Lifecycle) (id : SnapshotId) : Option Phase :=
  (c.stage? id).map fun stage =>
    if stage.frozen then .frozen
    else if c.active = some id then .active
    else if stage.restored then .suspended
    else .created

/--
Whether `id` is the root, which has not been forked and never been restored, but is not active.
-/
def Lapsed (c : Lifecycle) (id : SnapshotId) : Prop :=
  id.number = 0 ∧ c.active = none ∧
    ∃ stage, c.stage? id = some stage ∧ stage.frozen = false ∧ stage.restored = false

theorem phase?_eq_created_iff :
    c.phase? id = some .created ↔ c.active ≠ some id ∧
      ∃ stage, c.stage? id = some stage ∧ stage.frozen = false ∧ stage.restored = false := by
  unfold phase?
  cases c.stage? id with
  | none => simp
  | some stage => grind

theorem phase?_eq_frozen_iff :
    c.phase? id = some .frozen ↔ ∃ stage, c.stage? id = some stage ∧ stage.frozen = true := by
  unfold phase?
  cases c.stage? id with
  | none => simp
  | some stage => grind

theorem Tells.phase?_eq_active_iff (h : c.Tells children was failures) :
    c.phase? id = some .active ↔ c.active = some id := by
  unfold phase?
  constructor
  · cases c.stage? id with
    | none => simp
    | some stage => grind
  · intro hactive
    obtain ⟨-, stage, hstage, hopen⟩ := h.active id hactive
    simp [hstage, hopen, hactive]

theorem Tells.of_lapsed (h : c.Tells children was failures) (hlapsed : c.Lapsed id) :
    c.phase? id = some .created ∧ was id ∧ ¬children id ∧ failures id ∧ c.nextId = 1 := by
  obtain ⟨hzero, hnone, stage, hstage, hopen, hnever⟩ := hlapsed
  obtain rfl : id = ⟨0⟩ := by rw [← hzero]
  refine ⟨?_, ?_, ?_, ?_, h.alone stage hstage hopen⟩
  · rw [phase?_eq_created_iff, hnone]
    exact ⟨by simp, stage, hstage, hopen, hnever⟩
  · exact (h.was_iff _ stage hstage).mpr (.inr rfl)
  · rw [h.children_iff]
    exact fun hchild => Nat.lt_irrefl _ hchild.1
  · apply (h.pending stage hstage hopen hnever).resolve_left
    rw [hnone]
    simp

theorem Tells.created_iff (h : c.Tells children was failures) :
    (c.phase? id = some .created → children id ∧ ¬was id) ↔ ¬c.Lapsed id := by
  constructor
  · intro hcreated hlapsed
    obtain ⟨hphase, hwas, -⟩ := h.of_lapsed hlapsed
    exact (hcreated hphase).2 hwas
  · intro hlapsed hphase
    obtain ⟨hidle, stage, hstage, hopen, hnever⟩ := phase?_eq_created_iff.mp hphase
    have hpos : id.number ≠ 0 := by
      intro hzero
      apply hlapsed
      refine ⟨hzero, ?_, stage, hstage, hopen, hnever⟩
      obtain rfl : id = ⟨0⟩ := by rw [← hzero]
      -- While the root is not forked, nothing else could be active.
      cases hactive : c.active with
      | none => rfl
      | some other =>
        obtain ⟨-, next, hnext, -⟩ := h.active other hactive
        rw [h.eq_root hstage hopen hnext] at hactive
        contradiction
    rw [h.children_iff, h.was_iff id stage hstage, hnever]
    exact ⟨⟨Nat.pos_of_ne_zero hpos, h.lt_of_stage hstage⟩, by simp [hpos]⟩

end Lifecycle

end MachineFork
