import MachineFork.Blob.Program
import MachineFork.Proofs.Blob.Sections

/-!
This module contains what every operation keeps up about a stream, those that open, close, enter and
leave a section included: the cursor stays within the bytes, and the bytes within the reserved memory.

That a section which has been entered lies within the bytes, is kept up by all operations but one.
Truncating a stream in front of the end of its section takes away bytes that the section still
promises. A read that relies on the promise is then cut off, and that ends the program.
-/

namespace MachineFork

namespace Stream

/--
The operations of a stream. The first five are those that a device can use.
-/
inductive Operation where
  | put (bytes : Bytes)
  | take (count : Nat)
  | reset
  | truncate
  | shrink (floor : Nat)
  | openSection (device : DeviceId)
  | closeSection (origin : Nat)
  | enter (device : DeviceId)
  | leave
  deriving DecidableEq, Repr

def perform (s : Stream) : Operation → Stream
  | .put bytes => s.put bytes
  | .take count =>
    match s.take count with
    | .ok (_, t) => t
    | .error _ => s
  | .reset => s.reset
  | .truncate => s.truncate
  | .shrink floor => s.shrink floor
  | .openSection device => (s.openSection device).2
  | .closeSection origin =>
    match s.closeSection (origin + 10) with
    | .ok t => t
    | .error _ => s
  | .enter device => (s.enter device).2
  | .leave => s.leave.2

def run (s : Stream) (operations : List Operation) : Stream :=
  operations.foldl perform s

theorem run_cons (s : Stream) (operation : Operation) (operations : List Operation) :
    s.run (operation :: operations) = (s.perform operation).run operations := rfl

theorem run_append (s : Stream) (before operations : List Operation) :
    s.run (before ++ operations) = (s.run before).run operations := by
  apply List.foldl_append

inductive Made : Stream → Prop
  | empty : Made .empty
  | withCapacity {capacity : Nat} {s : Stream} (h : withCapacity capacity = .ok s) : Made s
  | ofBytes (bytes : Bytes) : Made (.ofBytes bytes)
  | clone (s : Stream) : Made s.clone

structure WellFormed (s : Stream) : Prop where
  cursor_le : s.cursor ≤ s.length
  length_le : s.length ≤ s.capacity
  start_le : ∀ entered, s.entered = some entered → entered.start ≤ entered.stop

def Covered (s : Stream) : Prop :=
  ∀ entered, s.entered = some entered → entered.stop ≤ s.length

def Operation.Cuts (s : Stream) : Operation → Prop
  | truncate => ∃ entered, s.entered = some entered ∧ s.cursor < entered.stop
  | _ => False

variable {s t : Stream} {count : Nat} {bytes : Bytes} {operations : List Operation}

theorem le_grow (capacity needed : Nat) : capacity ≤ grow capacity needed := by
  unfold grow
  split
  · apply Nat.le_refl
  · omega

theorem needed_le_grow (capacity needed : Nat) : needed ≤ grow capacity needed := by
  unfold grow
  split
  · assumption
  · omega

theorem covered_of_entered_eq_none (h : s.entered = none) : s.Covered := by
  intro entered hentered
  rw [h] at hentered
  contradiction

theorem entered_leave (s : Stream) : s.leave.2.entered = none := by
  unfold leave
  split
  · assumption
  · dsimp only
    split
    · rfl
    · rfl

theorem Made.wellFormed (h : s.Made) : s.WellFormed := by
  cases h with
  | empty => exact ⟨Nat.le_refl _, Nat.le_refl _, by simp [Stream.empty]⟩
  | withCapacity h =>
    unfold Stream.withCapacity at h
    split at h
    · cases h
      exact ⟨Nat.le_refl _, Nat.zero_le _, by simp⟩
    · contradiction
  | ofBytes bytes => exact ⟨Nat.zero_le _, Nat.le_refl _, by simp [Stream.ofBytes]⟩
  | clone s => exact ⟨Nat.zero_le _, Nat.le_refl _, by simp [Stream.clone, Stream.ofBytes]⟩

theorem Made.covered (h : s.Made) : s.Covered := by
  apply covered_of_entered_eq_none
  cases h with
  | empty => rfl
  | withCapacity h =>
    unfold Stream.withCapacity at h
    split at h
    · cases h
      rfl
    · contradiction
  | ofBytes bytes => rfl
  | clone s => rfl

namespace WellFormed

theorem put (h : s.WellFormed) (bytes : Bytes) : (s.put bytes).WellFormed := by
  have hlength := length_put bytes h.cursor_le
  refine ⟨?_, ?_, h.start_le⟩
  · rw [hlength]
    apply Nat.le_max_right
  · rw [hlength]
    apply Nat.max_le.mpr
    constructor
    · exact Nat.le_trans h.length_le (le_grow _ _)
    · apply needed_le_grow

theorem take (h : s.WellFormed) (htake : s.take count = .ok (bytes, t)) : t.WellFormed := by
  obtain ⟨-, hlength, -, rfl⟩ := take_eq_ok_iff.mp htake
  exact ⟨hlength, h.length_le, h.start_le⟩

theorem reset (h : s.WellFormed) : s.reset.WellFormed := by
  refine ⟨Nat.zero_le _, h.length_le, ?_⟩
  simp [Stream.reset]

theorem truncate (h : s.WellFormed) : s.truncate.WellFormed := by
  have hlength := length_truncate h.cursor_le
  refine ⟨Nat.le_of_eq hlength.symm, ?_, h.start_le⟩
  rw [hlength]
  exact Nat.le_trans h.cursor_le h.length_le

theorem shrink (h : s.WellFormed) (floor : Nat) : (s.shrink floor).WellFormed := by
  refine ⟨h.cursor_le, ?_, h.start_le⟩
  apply Nat.le_min.mpr
  constructor
  · exact h.length_le
  · apply Nat.le_max_left

theorem openSection (h : s.WellFormed) (device : DeviceId) :
    (s.openSection device).2.WellFormed := by
  unfold Stream.openSection
  apply put
  apply put
  apply put
  exact h

theorem lift (h : s.WellFormed) : { s with entered := none }.WellFormed :=
  ⟨h.cursor_le, h.length_le, by simp⟩

theorem leave (h : s.WellFormed) : s.leave.2.WellFormed := by
  unfold Stream.leave
  split
  · exact h
  · dsimp only
    split
    · exact h.lift
    · exact h.lift

end WellFormed

/-! Closing a section writes over four bytes of its header, so the stream keeps its length. -/

theorem length_of_closeSection {origin : Nat} (hcursor : s.cursor ≤ s.length)
    (h : s.closeSection (origin + 10) = .ok t) :
    t.length = s.length ∧ t = { s with bytes := t.bytes } := by
  obtain ⟨hstart, -, rfl⟩ := closeSection_eq_ok_iff.mp h
  refine ⟨?_, rfl⟩
  unfold length at *
  dsimp only
  rw [Bytes.length_overwrite _ (by omega)]
  rw [Bytes.length_littleEndian]
  omega

theorem WellFormed.closeSection {origin : Nat} (h : s.WellFormed)
    (hclose : s.closeSection (origin + 10) = .ok t) : t.WellFormed := by
  obtain ⟨hlength, ht⟩ := length_of_closeSection h.cursor_le hclose
  constructor
  · rw [hlength, ht]
    exact h.cursor_le
  · rw [hlength, ht]
    exact h.length_le
  · rw [ht]
    exact h.start_le

/-! Entering a section checks that all of its payload is there. -/

theorem WellFormed.enter (h : s.WellFormed) (device : DeviceId) :
    (s.enter device).2.WellFormed ∧ (s.enter device).2.Covered := by
  unfold Stream.enter
  have h₀ := h.lift
  dsimp only
  split
  · exact ⟨h₀, covered_of_entered_eq_none rfl⟩
  · next kind s₁ hkind =>
    have h₁ := h₀.take hkind
    obtain ⟨-, -, -, rfl⟩ := take_eq_ok_iff.mp hkind
    split
    · exact ⟨h₁, covered_of_entered_eq_none rfl⟩
    · next number s₂ hnumber =>
      have h₂ := h₁.take hnumber
      obtain ⟨-, -, -, rfl⟩ := take_eq_ok_iff.mp hnumber
      split
      · exact ⟨h₂, covered_of_entered_eq_none rfl⟩
      · split
        · exact ⟨h₂, covered_of_entered_eq_none rfl⟩
        · next size s₃ hsize =>
          have h₃ := h₂.take hsize
          obtain ⟨-, -, -, rfl⟩ := take_eq_ok_iff.mp hsize
          have hcursor := h₃.cursor_le
          split
          · exact ⟨h₃, covered_of_entered_eq_none rfl⟩
          · next hremaining =>
            refine ⟨⟨hcursor, h₃.length_le, ?_⟩, ?_⟩
            · intro entered hentered
              cases hentered
              apply Nat.le_add_right
            · intro entered hentered
              cases hentered
              simp only [remaining, readEnd, length] at hremaining hcursor ⊢
              omega

theorem WellFormed.perform (h : s.WellFormed) (operation : Operation) :
    (s.perform operation).WellFormed := by
  cases operation with
  | put bytes => apply h.put
  | take count =>
    dsimp only [Stream.perform]
    split
    · next htake => exact h.take htake
    · exact h
  | reset => exact h.reset
  | truncate => exact h.truncate
  | shrink floor => apply h.shrink
  | openSection device => apply h.openSection
  | closeSection origin =>
    dsimp only [Stream.perform]
    split
    · next hclose => exact h.closeSection hclose
    · exact h
  | enter device => exact (h.enter device).1
  | leave => exact h.leave

theorem WellFormed.run (h : s.WellFormed) (operations : List Operation) :
    (s.run operations).WellFormed := by
  induction operations generalizing s with
  | nil => exact h
  | cons operation rest ih =>
    apply ih
    apply h.perform

/-! A section stays covered as long as bytes are only added. -/

theorem Covered.mono (h : s.Covered) (hentered : t.entered = s.entered)
    (hlength : s.length ≤ t.length) : t.Covered := by
  intro entered ht
  rw [hentered] at ht
  exact Nat.le_trans (h entered ht) hlength

theorem Covered.put (h : s.Covered) (hcursor : s.cursor ≤ s.length) (bytes : Bytes) :
    (s.put bytes).Covered := by
  apply h.mono
  · rfl
  · rw [length_put bytes hcursor]
    apply Nat.le_max_left

theorem Covered.perform {operation : Operation} (h : s.Covered) (hs : s.WellFormed)
    (huncut : ¬operation.Cuts s) : (s.perform operation).Covered := by
  cases operation with
  | put bytes => exact h.put hs.cursor_le bytes
  | take count =>
    dsimp only [Stream.perform]
    split
    · next htake =>
      obtain ⟨-, -, -, rfl⟩ := take_eq_ok_iff.mp htake
      exact h
    · exact h
  | reset =>
    apply covered_of_entered_eq_none
    rfl
  | truncate =>
    intro entered hentered
    have hlength : (s.perform .truncate).length = s.cursor := length_truncate hs.cursor_le
    rw [hlength]
    apply Nat.le_of_not_lt
    intro hlt
    exact huncut ⟨entered, hentered, hlt⟩
  | shrink floor => exact h
  | openSection device =>
    have hkind := hs.put device.kind.toBytes
    have hnumber := hkind.put (Bytes.littleEndian 2 device.number.toNat)
    exact ((h.put hs.cursor_le _).put hkind.cursor_le _).put hnumber.cursor_le _
  | closeSection origin =>
    dsimp only [Stream.perform]
    split
    · next hclose =>
      obtain ⟨hlength, ht⟩ := length_of_closeSection hs.cursor_le hclose
      apply h.mono
      · rw [ht]
      · exact Nat.le_of_eq hlength.symm
    · exact h
  | enter device => exact (hs.enter device).2
  | leave =>
    apply covered_of_entered_eq_none
    apply entered_leave

theorem not_covered_of_cuts {operation : Operation} (hs : s.WellFormed) (hcuts : operation.Cuts s) :
    ¬(s.perform operation).Covered := by
  cases operation with
  | truncate =>
    obtain ⟨entered, hentered, hlt⟩ := hcuts
    intro hcovered
    have hstop := hcovered entered hentered
    have hlength : (s.perform .truncate).length = s.cursor := length_truncate hs.cursor_le
    omega
  | _ => contradiction

theorem Covered.run_iff (h : s.Covered) (hs : s.WellFormed) :
    (∀ done, done <+: operations → (s.run done).Covered)
      ↔
    ∀ done next, done ++ [next] <+: operations → ¬next.Cuts (s.run done) := by
  induction operations generalizing s with
  | nil =>
    constructor
    · intro _ done next hnext
      simp at hnext
    · intro _ done hdone
      rw [List.prefix_nil.mp hdone]
      exact h
  | cons operation rest ih =>
    constructor
    · intro hcovered done next hnext
      cases done with
      | nil =>
        obtain ⟨rfl, -⟩ := List.cons_prefix_cons.mp hnext
        -- The moment after a cut is a moment of the run, too.
        intro hcuts
        exact not_covered_of_cuts hs hcuts (hcovered [next] hnext)
      | cons first done =>
        obtain ⟨rfl, hrest⟩ := List.cons_prefix_cons.mp hnext
        have hfirst : (s.perform first).Covered := hcovered [first] (by simp)
        apply (ih hfirst (hs.perform first)).mp
        · intro done hdone
          exact hcovered (first :: done) (List.cons_prefix_cons.mpr ⟨rfl, hdone⟩)
        · exact hrest
    · intro huncut done hdone
      cases done with
      | nil => exact h
      | cons first done =>
        obtain ⟨rfl, hrest⟩ := List.cons_prefix_cons.mp hdone
        have hfirst := h.perform hs (huncut [] first (by simp))
        apply (ih hfirst (hs.perform first)).mpr
        · intro done next hnext
          exact huncut (first :: done) next (List.cons_prefix_cons.mpr ⟨rfl, hnext⟩)
        · exact hrest

/-! What is promised is there exactly when the section is covered. -/

theorem WellFormed.covered_iff_remaining (h : s.WellFormed) :
    s.Covered ↔ s.cursor + s.remaining ≤ s.length := by
  have hcursor := h.cursor_le
  unfold Covered remaining readEnd
  cases s.entered with
  | none =>
    simp only [reduceCtorEq, false_implies, implies_true, true_iff]
    omega
  | some entered =>
    simp only [Option.some.injEq, forall_eq']
    omega

theorem WellFormed.covered_iff_take (h : s.WellFormed) :
    s.Covered ↔ ∀ count requested left, s.take count ≠ .error (.cutOff requested left) := by
  rw [h.covered_iff_remaining]
  unfold Stream.take
  constructor
  · intro hremaining count requested left
    split
    · split
      · simp
      · simp
    · rw [if_neg (by omega)]
      simp
  · intro hread
    specialize hread s.remaining s.remaining (s.length - s.cursor)
    simp only [Nat.lt_irrefl, if_false, ne_eq, ite_eq_left_iff, reduceCtorEq, imp_false,
      Decidable.not_not] at hread
    omega

end Stream

namespace Program

variable {σ α : Type}

def operations : Program σ α → σ → Stream → List Stream.Operation
  | done _, _, _ => []
  | fail _, _, _ => []
  | take count next, state, s =>
    .take count ::
      match s.take count with
      | .ok (bytes, t) => (next (.ok bytes)).operations state t
      | .error error => (next (.error error)).operations state s
  | put bytes next, state, s => .put bytes :: next.operations state (s.put bytes)
  | reset next, state, s => .reset :: next.operations state s.reset
  | truncate next, state, s => .truncate :: next.operations state s.truncate
  | shrink floor next, state, s => .shrink floor :: next.operations state (s.shrink floor)
  | look next, state, s => (next s).operations state s
  | assign state next, _, s => next.operations state s

theorem run_operations (p : Program σ α) (state : σ) (s : Stream) :
    s.run (p.operations state s) = (p.run state s).2.2 := by
  induction p generalizing state s with
  | done value => rfl
  | fail error => rfl
  | take count next ih =>
    unfold operations run
    rw [Stream.run_cons]
    dsimp only [Stream.perform]
    cases s.take count with
    | ok read => apply ih
    | error error => apply ih
  | put bytes next ih => apply ih
  | reset next ih => apply ih
  | truncate next ih => apply ih
  | shrink floor next ih => apply ih
  | look next ih => apply ih
  | assign assigned next ih => apply ih

end Program

theorem Stream.WellFormed.run_program {σ α : Type} {p : Program σ α} {state state' : σ}
    {result : Except BlobError α} {s t : Stream} (h : s.WellFormed)
    (hrun : p.run state s = (result, state', t)) : t.WellFormed := by
  have ht := p.run_operations state s
  rw [hrun] at ht
  dsimp only at ht
  rw [← ht]
  apply h.run

end MachineFork
