import Mathlib.Algebra.Order.Ring.Nat
import Mathlib.Data.List.Induction
import Mathlib.Data.Nat.Log
import MachineFork.Proofs.Registry.Growth

/-!
This module contains how often the memory of a stream is reserved anew by operations that give none
of it back. A reallocation at least doubles the capacity, and it only happens when a write ends
behind the capacity. So the number of reallocations is logarithmic in where a run has written
furthest, and the next machines that are no larger are saved into the memory that is there.
-/

namespace MachineFork

namespace Stream

def Operation.Retains : Operation → Prop
  | put _ | take _ | reset | truncate => True
  | shrink _ | openSection _ | closeSection _ | enter _ | leave => False

def Operation.writeEnd (s : Stream) : Operation → Nat
  | put bytes => s.cursor + bytes.length
  | _ => 0

def furthestWrite (s : Stream) : List Operation → Nat
  | [] => 0
  | operation :: operations =>
    max (operation.writeEnd s) ((s.perform operation).furthestWrite operations)

def reallocations (s : Stream) : List Operation → Nat
  | [] => 0
  | operation :: operations =>
    (if (s.perform operation).capacity = s.capacity then 0 else 1)
      + (s.perform operation).reallocations operations

variable {s : Stream} {operation : Operation} {operations : List Operation}

theorem grow_eq_self_iff {capacity needed : Nat} : grow capacity needed = capacity ↔
    needed ≤ capacity := by
  constructor
  · intro h
    rw [← h]
    apply needed_le_grow
  · intro h
    exact if_pos h

theorem double_le_grow {capacity needed : Nat} (h : capacity < needed) :
    2 * capacity ≤ grow capacity needed ∧ 8 ≤ grow capacity needed := by
  rw [grow, if_neg (Nat.not_le.mpr h)]
  omega

theorem Operation.Retains.capacity_perform (h : operation.Retains) (s : Stream) :
    (s.perform operation).capacity = grow s.capacity (operation.writeEnd s) := by
  cases operation with
  | put bytes => rfl
  | take count =>
    dsimp only [perform]
    split
    · next htake =>
      obtain ⟨-, -, -, rfl⟩ := take_eq_ok_iff.mp htake
      rfl
    · rfl
  | reset => rfl
  | truncate => rfl
  | shrink | openSection | closeSection | enter | leave => exact h.elim

theorem furthestWrite_append (s : Stream) (before operations : List Operation) :
    s.furthestWrite (before ++ operations)
      =
    max (s.furthestWrite before) ((s.run before).furthestWrite operations) := by
  induction before generalizing s with
  | nil => exact (Nat.zero_max _).symm
  | cons operation before ih =>
    rw [List.cons_append, furthestWrite, furthestWrite, ih, run_cons, Nat.max_assoc]

theorem reallocations_append (s : Stream) (before operations : List Operation) :
    s.reallocations (before ++ operations)
      =
    s.reallocations before + (s.run before).reallocations operations := by
  induction before generalizing s with
  | nil => exact (Nat.zero_add _).symm
  | cons operation before ih =>
    rw [List.cons_append, reallocations, reallocations, ih, run_cons, Nat.add_assoc]

theorem reallocations_singleton (s : Stream) (operation : Operation) :
    s.reallocations [operation]
      =
    if (s.perform operation).capacity = s.capacity then 0 else 1 := rfl

theorem writeEnd_le_furthestWrite {before : List Operation}
    (h : before ++ [operation] <+: operations) :
    operation.writeEnd (s.run before) ≤ s.furthestWrite operations := by
  obtain ⟨rest, rfl⟩ := h
  rw [furthestWrite_append, furthestWrite_append]
  apply Nat.le_trans _ (Nat.le_max_left ..)
  apply Nat.le_trans _ (Nat.le_max_right ..)
  apply Nat.le_max_left

/-! There are no reallocations as long as no write ends behind the capacity. -/

theorem furthestWrite_le_capacity_run (h : ∀ operation ∈ operations, operation.Retains) :
    s.furthestWrite operations ≤ (s.run operations).capacity ∧
      s.capacity ≤ (s.run operations).capacity := by
  induction operations generalizing s with
  | nil => exact ⟨Nat.zero_le _, Nat.le_refl _⟩
  | cons operation rest ih =>
    obtain ⟨hfirst, hrest⟩ := List.forall_mem_cons.mp h
    obtain ⟨hfurthest, hcapacity⟩ := ih (s := s.perform operation) hrest
    rw [hfirst.capacity_perform] at hcapacity
    constructor
    · apply Nat.max_le.mpr
      exact ⟨Nat.le_trans (needed_le_grow ..) hcapacity, hfurthest⟩
    · exact Nat.le_trans (le_grow ..) hcapacity

theorem reallocations_eq_zero_iff (h : ∀ operation ∈ operations, operation.Retains) :
    s.reallocations operations = 0 ↔ s.furthestWrite operations ≤ s.capacity := by
  induction operations generalizing s with
  | nil => exact ⟨fun _ => Nat.zero_le _, fun _ => rfl⟩
  | cons operation rest ih =>
    obtain ⟨hfirst, hrest⟩ := List.forall_mem_cons.mp h
    have hkept : grow s.capacity (operation.writeEnd s) = s.capacity ↔
        operation.writeEnd s ≤ s.capacity := grow_eq_self_iff
    rw [reallocations, furthestWrite, Nat.add_eq_zero_iff, ih hrest, hfirst.capacity_perform,
      Nat.max_le, ← hkept]
    constructor
    · intro hzero
      have heq : grow s.capacity (operation.writeEnd s) = s.capacity := by
        simpa using hzero.1
      exact ⟨heq, heq ▸ hzero.2⟩
    · intro hwithin
      exact ⟨if_pos hwithin.1, hwithin.1.symm ▸ hwithin.2⟩

/-! What the last reallocation starts from has been doubled by all those before it. -/

theorem capacity_run_of_reallocations (h : ∀ operation ∈ operations, operation.Retains)
    (hpos : 1 ≤ s.reallocations operations) :
    8 * 2 ^ (s.reallocations operations - 1) ≤ (s.run operations).capacity := by
  induction operations using List.reverseRecOn with
  | nil => contradiction
  | append_singleton operations operation ih =>
    obtain ⟨hbefore, hlast⟩ := List.forall_mem_append.mp h
    replace hlast := hlast operation (List.mem_singleton.mpr rfl)
    have hcapacity : (s.run (operations ++ [operation])).capacity
        = grow (s.run operations).capacity (operation.writeEnd (s.run operations)) := by
      rw [run_append]
      exact hlast.capacity_perform _
    rw [reallocations_append, reallocations_singleton, hlast.capacity_perform] at hpos ⊢
    rw [hcapacity]
    split at hpos
    · next hkept =>
      rw [if_pos hkept, hkept]
      exact ih hbefore hpos
    · next hchanged =>
      rw [if_neg hchanged]
      obtain ⟨hdouble, hleast⟩ :=
        double_le_grow (Nat.not_le.mp (mt grow_eq_self_iff.mpr hchanged))
      cases hcount : s.reallocations operations with
      | zero => exact hleast
      | succ count =>
        rw [hcount] at ih
        have hhalf := ih hbefore (Nat.succ_pos _)
        rw [Nat.add_sub_cancel] at hhalf ⊢
        rw [Nat.pow_succ]
        omega

theorem exists_put_of_reallocations (h : ∀ operation ∈ operations, operation.Retains)
    (htwo : 2 ≤ s.reallocations operations) :
    ∃ before bytes, before ++ [.put bytes] <+: operations ∧
      8 * 2 ^ (s.reallocations operations - 2) < (s.run before).cursor + bytes.length := by
  induction operations using List.reverseRecOn with
  | nil => contradiction
  | append_singleton operations operation ih =>
    obtain ⟨hbefore, hlast⟩ := List.forall_mem_append.mp h
    replace hlast := hlast operation (List.mem_singleton.mpr rfl)
    rw [reallocations_append, reallocations_singleton, hlast.capacity_perform] at htwo ⊢
    split at htwo
    · next hkept =>
      rw [if_pos hkept]
      obtain ⟨before, bytes, hprefix, hend⟩ := ih hbefore htwo
      exact ⟨before, bytes, hprefix.trans (List.prefix_append ..), hend⟩
    · next hchanged =>
      rw [if_neg hchanged]
      -- The last write ends behind a capacity that the other reallocations have led to.
      have hbehind := Nat.not_le.mp (mt grow_eq_self_iff.mpr hchanged)
      have hcapacity := capacity_run_of_reallocations hbefore (Nat.le_of_succ_le_succ htwo)
      cases operation with
      | put bytes =>
        exact ⟨operations, bytes, List.prefix_rfl, Nat.lt_of_le_of_lt hcapacity hbehind⟩
      | take | reset | truncate => exact absurd hbehind (Nat.not_lt_zero _)
      | shrink | openSection | closeSection | enter | leave => exact hlast.elim

theorem reallocations_le_log (h : ∀ operation ∈ operations, operation.Retains) :
    s.reallocations operations ≤ Nat.log 2 (s.furthestWrite operations / 8) + 2 := by
  cases Nat.lt_or_ge (s.reallocations operations) 2 with
  | inl hfew => omega
  | inr htwo =>
    obtain ⟨before, bytes, hprefix, hend⟩ := exists_put_of_reallocations h htwo
    have hfurthest := writeEnd_le_furthestWrite (s := s) hprefix
    have hpow : 2 ^ (s.reallocations operations - 2) ≤ s.furthestWrite operations / 8 := by
      rw [Nat.le_div_iff_mul_le (by decide), Nat.mul_comm]
      exact Nat.le_of_lt (Nat.lt_of_lt_of_le hend hfurthest)
    have hlog := Nat.le_log_of_pow_le (by decide) hpow
    omega

end Stream

namespace Registry

variable {ι : Type} {M : Machine ι}

def savedLength (registry : Registry ι) (devices : Devices M) : Nat :=
  (layout devices registry.descriptors).2.length

variable [DecidableEq ι] {registry : Registry ι}

def cycle (registry : Registry ι) (s : Stream) (saved live : Devices M) : Stream :=
  (registry.restore live (registry.save saved s.reset).2.truncate.reset).2.2

def cycles (registry : Registry ι) (s : Stream) (machines : List (Devices M × Devices M)) :
    Stream :=
  machines.foldl (fun s (saved, live) => registry.cycle s saved live) s

theorem capacity_cycle (registry : Registry ι)
    (hputs : ∀ i state, ((M.model i).save state).PutsOnly)
    (hgets : ∀ i state, ((M.model i).restore state).GetsOnly) (s : Stream)
    (saved live : Devices M) :
    registry.savedLength saved ≤ (registry.cycle s saved live).capacity ∧
      (registry.savedLength saved ≤ s.capacity →
        (registry.cycle s saved live).capacity = s.capacity) := by
  have hreset := congrArg Stream.capacity (registry.restore_preserves live
    (registry.save saved s.reset).2.truncate.reset hgets).2
  have hcycle : (registry.cycle s saved live).capacity
      = (registry.save saved s.reset).2.capacity := hreset
  have hgrows := registry.grows_save saved s.reset hputs
  have hcursor : (registry.save saved s.reset).2.cursor = registry.savedLength saved := by
    have heach : ∀ descriptor ∈ registry.descriptors,
        ((M.model descriptor.device).save (saved.state descriptor.device)).PutsOnly :=
      fun _ _ => hputs _ _
    obtain ⟨t, hsave, hlays⟩ := saveEach_lays (s := s.reset) heach (Nat.zero_le _)
    unfold save forEach
    rw [hsave, hlays.cursor]
    exact Nat.zero_add _
  rw [hcycle, ← hcursor]
  exact ⟨hgrows.within (Nat.zero_le _), hgrows.capacity_eq⟩

theorem capacity_cycles (hputs : ∀ i state, ((M.model i).save state).PutsOnly)
    (hgets : ∀ i state, ((M.model i).restore state).GetsOnly) {s : Stream}
    {machines : List (Devices M × Devices M)}
    (hsettled : ∀ machine ∈ machines, registry.savedLength machine.1 ≤ s.capacity) :
    (registry.cycles s machines).capacity = s.capacity := by
  induction machines generalizing s with
  | nil => rfl
  | cons machine rest ih =>
    obtain ⟨hfirst, hrest⟩ := List.forall_mem_cons.mp hsettled
    have hcycle := (registry.capacity_cycle hputs hgets s machine.1 machine.2).2 hfirst
    rw [← hcycle] at hrest ⊢
    exact ih hrest

/--
Memory grows geometrically, whatever the operations are and however much memory there was at first.
Once a run has written to some place, or a machine has been saved, nothing that writes no further
makes memory grow.
-/
theorem growth_geometric (registry : Registry ι) (s : Stream) (operations : List Stream.Operation)
    (first : Devices M × Devices M) (later : List (Devices M × Devices M))
    (hretains : ∀ operation ∈ operations, operation.Retains)
    (hputs : ∀ i state, ((M.model i).save state).PutsOnly)
    (hgets : ∀ i state, ((M.model i).restore state).GetsOnly)
    (hsettled : ∀ machine ∈ later,
      registry.savedLength machine.1 ≤ registry.savedLength first.1) :
    (∀ bytes, (s.put bytes).capacity = s.capacity ↔ s.cursor + bytes.length ≤ s.capacity) ∧
      (s.reallocations operations = 0 ↔ s.furthestWrite operations ≤ s.capacity) ∧
      (1 ≤ s.reallocations operations →
        8 * 2 ^ (s.reallocations operations - 1) ≤ (s.run operations).capacity) ∧
      (2 ≤ s.reallocations operations →
        ∃ before bytes, before ++ [.put bytes] <+: operations ∧
          8 * 2 ^ (s.reallocations operations - 2) < (s.run before).cursor + bytes.length) ∧
      s.reallocations operations ≤ Nat.log 2 (s.furthestWrite operations / 8) + 2 ∧
      (∀ next : List Stream.Operation, (∀ operation ∈ next, operation.Retains) →
        (s.run operations).furthestWrite next ≤ s.furthestWrite operations →
        (s.run operations).reallocations next = 0) ∧
      (∀ done, done <+: later →
        (registry.cycles (registry.cycle s first.1 first.2) done).capacity
          =
        (registry.cycle s first.1 first.2).capacity) := by
  refine ⟨fun bytes => Stream.grow_eq_self_iff, Stream.reallocations_eq_zero_iff hretains,
    Stream.capacity_run_of_reallocations hretains, Stream.exists_put_of_reallocations hretains,
    Stream.reallocations_le_log hretains, ?_, ?_⟩
  · intro next hnext hfurthest
    apply (Stream.reallocations_eq_zero_iff hnext).mpr
    exact Nat.le_trans hfurthest (Stream.furthestWrite_le_capacity_run hretains).1
  · intro done hdone
    apply capacity_cycles hputs hgets
    intro machine hmem
    have hfirst := (registry.capacity_cycle hputs hgets s first.1 first.2).1
    exact Nat.le_trans (hsettled machine (hdone.subset hmem)) hfirst

/-! A counter that is saved a second time fits where it has been before. -/

def oneCounter : Registry Bool where
  descriptors := [⟨.singleton ⟨65, 0, 0, 0⟩, false, .startup⟩]
  isInitialized := true

def countersAt (value : UInt8) : Devices counters :=
  .ofState fun _ => value

def twoPuts : List Stream.Operation :=
  [.put (List.replicate 9 7), .reset, .put (List.replicate 20 7)]

theorem growth_geometric_counters :
    Stream.empty.reallocations twoPuts = 2 ∧
      (∃ before bytes, before ++ [.put bytes] <+: twoPuts ∧
        8 < (Stream.empty.run before).cursor + bytes.length) ∧
      (oneCounter.cycle .empty (countersAt 3) (countersAt 0)).capacity = 16 ∧
      (oneCounter.cycles (oneCounter.cycle .empty (countersAt 3) (countersAt 0))
        [(countersAt 4, countersAt 3)]).capacity = 16 := by
  have hcount : Stream.empty.reallocations twoPuts = 2 := by decide
  have hfirst : (oneCounter.cycle .empty (countersAt 3) (countersAt 0)).capacity = 16 := by
    decide
  have hretains : ∀ operation ∈ twoPuts, operation.Retains := by
    simp [twoPuts, Stream.Operation.Retains]
  obtain ⟨-, -, -, hput, -, -, hcycles⟩ :=
    growth_geometric oneCounter .empty twoPuts (countersAt 3, countersAt 0)
      [(countersAt 4, countersAt 3)] hretains (fun i => (faithful_counters i).puts)
      (fun i => (faithful_counters i).gets) (by decide)
  rw [hcount] at hput
  refine ⟨hcount, hput (Nat.le_refl _), hfirst, ?_⟩
  exact (hcycles _ List.prefix_rfl).trans hfirst

end Registry

end MachineFork
