import MachineFork.Blob.Program
import MachineFork.Blob.Section
import MachineFork.Proofs.Blob.Streams

/-!
This module contains what programs that only read take from a stream. All that they can tell apart
is the device whose section has been entered and the bytes left in it, wherever on a stream that
section lies.
-/

namespace MachineFork

namespace Stream

variable {s t : Stream} {device : DeviceId} {rest bytes : Bytes} {count n : Nat}

structure Holds (s : Stream) (device : DeviceId) (rest : Bytes) : Prop where
  entered : ∃ start, s.entered = some ⟨device, start, s.cursor + rest.length⟩
  bytes : rest <+: s.bytes.drop s.cursor
  cursor_le_length : s.cursor ≤ s.length

namespace Holds

theorem payload (device : DeviceId) (rest : Bytes) :
    Holds { bytes := rest, entered := some ⟨device, 0, rest.length⟩ } device rest where
  entered := ⟨0, by simp⟩
  bytes := List.prefix_refl _
  cursor_le_length := Nat.zero_le _

theorem remaining_eq (h : s.Holds device rest) : s.remaining = rest.length := by
  obtain ⟨start, hentered⟩ := h.entered
  simp only [remaining, readEnd, hentered]
  omega

theorem length_le (h : s.Holds device rest) : s.cursor + rest.length ≤ s.length := by
  have hle := h.bytes.length_le
  have hcursor := h.cursor_le_length
  rw [List.length_drop] at hle
  simp only [length] at *
  omega

theorem take_of_lt (h : s.Holds device rest) (hlt : rest.length < count) :
    s.take count = .error (.overrun device count rest.length) := by
  obtain ⟨start, hentered⟩ := h.entered
  unfold take
  rw [h.remaining_eq, if_pos hlt, hentered]

theorem take_of_le (h : s.Holds device rest) (hle : count ≤ rest.length) :
    s.take count = .ok (rest.take count, { s with cursor := s.cursor + count }) := by
  have hlength := h.length_le
  rw [take_eq_ok_iff]
  refine ⟨?_, by omega, ?_, rfl⟩
  · rw [h.remaining_eq]
    exact hle
  · obtain ⟨more, hmore⟩ := h.bytes
    rw [← hmore, List.take_append_of_le_length hle]

theorem advance (h : s.Holds device rest) (hle : count ≤ rest.length) :
    { s with cursor := s.cursor + count }.Holds device (rest.drop count) where
  entered := by
    obtain ⟨start, hentered⟩ := h.entered
    refine ⟨start, ?_⟩
    rw [hentered, List.length_drop]
    congr 2
    dsimp only
    omega
  bytes := by
    obtain ⟨more, hmore⟩ := h.bytes
    rw [← List.drop_drop, ← hmore, List.drop_append_of_le_length hle]
    apply List.prefix_append
  cursor_le_length := by
    have hlength := h.length_le
    simp only [length] at *
    omega

end Holds

theorem holds_of_frame (h : Section.frame device rest <+: s.bytes.drop s.cursor) :
    Holds
      { s with
        cursor := s.cursor + 10
        entered := some ⟨device, s.cursor + 10, s.cursor + 10 + rest.length⟩ } device rest where
  entered := ⟨_, rfl⟩
  bytes := by
    obtain ⟨more, hmore⟩ := h
    rw [← List.drop_drop, ← hmore, Section.frame, List.append_assoc]
    rw [List.drop_left' (Section.length_header _ _)]
    apply List.prefix_append
  cursor_le_length := by
    have hle := h.length_le
    rw [Section.length_frame, List.length_drop] at hle
    simp only [length] at *
    omega

end Stream

namespace Program

variable {σ α : Type}

def GetsOnly : Program σ α → Prop
  | done _ | fail _ => True
  | take _ next => ∀ bytes, (next bytes).GetsOnly
  | assign _ next => next.GetsOnly
  | put _ _ | reset _ | truncate _ | shrink _ _ | look _ => False

theorem GetsOnly.run_of_holds {p : Program σ α} (h : p.GetsOnly) (device : DeviceId)
    (rest : Bytes) (state : σ) :
    ∃ result state' n, ∀ s : Stream, s.Holds device rest →
      p.run state s = (result, state', { s with cursor := s.cursor + n }) := by
  induction p generalizing state rest with
  | done value => exact ⟨_, _, 0, fun s _ => rfl⟩
  | fail error => exact ⟨_, _, 0, fun s _ => rfl⟩
  | take count next ih =>
    -- Whether a read fails, and with which error, depends on what is left of the section only.
    by_cases hle : count ≤ rest.length
    · obtain ⟨result, state', n, hrun⟩ := ih _ (h _) (rest.drop count) state
      refine ⟨result, state', count + n, fun s hs => ?_⟩
      rw [run, hs.take_of_le hle]
      dsimp only
      rw [hrun _ (hs.advance hle), Nat.add_assoc]
    · obtain ⟨result, state', n, hrun⟩ := ih _ (h _) rest state
      refine ⟨result, state', n, fun s hs => ?_⟩
      rw [run, hs.take_of_lt (Nat.not_le.mp hle)]
      exact hrun s hs
  | assign assigned next ih => exact ih h rest assigned
  | put | reset | truncate | shrink | look => exact absurd h id

theorem GetsOnly.reset_run {p : Program σ α} (h : p.GetsOnly) (state : σ) (s : Stream) :
    (p.run state s).2.2.reset = s.reset := by
  induction p generalizing state s with
  | done value => rfl
  | fail error => rfl
  | take count next ih =>
    rw [run]
    split
    · next bytes t htake =>
      rw [ih _ (h _)]
      exact Stream.reset_take htake
    · exact ih _ (h _) _ _
  | assign assigned next ih => exact ih h assigned s
  | put | reset | truncate | shrink | look => exact absurd h id

end Program

end MachineFork
