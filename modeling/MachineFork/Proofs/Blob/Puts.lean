import MachineFork.Blob.Program
import MachineFork.Blob.Section
import MachineFork.Proofs.Blob.Streams

/-!
This module contains what programs that only write lay down on a stream. The bytes and the outcome do
not depend on the stream, so they are the same on an empty one. How the capacity grows does depend on
the stream and is left aside.
-/

namespace MachineFork

namespace Bytes

theorem overwrite_overwrite {bytes : Bytes} {start : Nat} (a b : Bytes)
    (h : start ≤ bytes.length) :
    overwrite (overwrite bytes start a) (start + a.length) b = overwrite bytes start (a ++ b) := by
  have htake : (overwrite bytes start a).take (start + a.length) = bytes.take start ++ a :=
    List.take_left' (by simp [h])
  have hdrop : (overwrite bytes start a).drop (start + a.length + b.length)
      = bytes.drop (start + a.length + b.length) := by
    rw [← List.drop_drop, drop_overwrite a h, List.drop_drop]
  rw [overwrite, htake, hdrop]
  simp only [overwrite, List.append_assoc, List.length_append, Nat.add_assoc]

theorem overwrite_within {bytes : Bytes} {start : Nat} (a b c d : Bytes)
    (h : start ≤ bytes.length) (hlength : d.length = b.length) :
    overwrite (overwrite bytes start (a ++ b ++ c)) (start + a.length) d
      =
    overwrite bytes start (a ++ d ++ c) := by
  have hsplit : overwrite bytes start (a ++ b ++ c)
      = bytes.take start ++ a ++ (b ++ (c ++ bytes.drop (start + (a ++ b ++ c).length))) := by
    simp only [overwrite, List.append_assoc]
  have htake : (overwrite bytes start (a ++ b ++ c)).take (start + a.length)
      = bytes.take start ++ a := by
    rw [hsplit]
    exact List.take_left' (by simp [h])
  have hdrop : (overwrite bytes start (a ++ b ++ c)).drop (start + a.length + d.length)
      = c ++ bytes.drop (start + (a ++ b ++ c).length) := by
    rw [hsplit, ← List.append_assoc, hlength]
    exact List.drop_left' (by simp [h, Nat.add_assoc])
  rw [overwrite, htake, hdrop]
  simp only [overwrite, List.append_assoc, List.length_append, hlength]

theorem overwrite_start_eq_self_iff {bytes new : Bytes} :
    overwrite bytes 0 new = bytes ↔ new <+: bytes := by
  simp only [overwrite, List.take_zero, List.nil_append, Nat.zero_add]
  constructor
  · intro h
    exact ⟨_, h⟩
  · intro h
    obtain ⟨rest, hrest⟩ := h
    rw [← hrest, List.drop_left]

theorem take_overwrite_append {bytes : Bytes} {start : Nat} (a b : Bytes)
    (h : start ≤ bytes.length) :
    (overwrite bytes start (a ++ b)).take (start + a.length) = bytes.take start ++ a := by
  unfold overwrite
  rw [← List.append_assoc]
  rw [List.append_assoc (bytes.take start ++ a)]
  apply List.take_left'
  simp [h]

theorem take_overwrite_of_le {bytes : Bytes} {start stop : Nat} (new : Bytes)
    (h : start ≤ bytes.length) (hstop : start + new.length ≤ stop) :
    (overwrite bytes start new).take stop
      =
    bytes.take start ++ new ++ (bytes.take stop).drop (start + new.length) := by
  have hlength : (bytes.take start ++ new).length = start + new.length := by
    simp [h]
  unfold overwrite
  rw [List.take_append]
  rw [List.take_of_length_le (by omega)]
  rw [hlength]
  rw [List.drop_take]

end Bytes

namespace Stream

variable {s t u : Stream} {a b : Bytes}

structure Lays (s : Stream) (new : Bytes) (t : Stream) : Prop where
  bytes : t.bytes = s.bytes.overwrite s.cursor new
  cursor : t.cursor = s.cursor + new.length
  entered : t.entered = s.entered

namespace Lays

theorem refl : s.Lays [] s where
  bytes := by simp [Bytes.overwrite]
  cursor := rfl
  entered := rfl

theorem put (new : Bytes) : s.Lays new (s.put new) where
  bytes := rfl
  cursor := rfl
  entered := rfl

theorem cursor_le_length (h : s.Lays a t) (hcursor : s.cursor ≤ s.length) :
    t.cursor ≤ t.length := by
  rw [length, h.bytes, Bytes.length_overwrite a hcursor, h.cursor]
  apply Nat.le_max_right

theorem trans (hst : s.Lays a t) (htu : t.Lays b u) (hcursor : s.cursor ≤ s.length) :
    s.Lays (a ++ b) u where
  bytes := by rw [htu.bytes, hst.bytes, hst.cursor, Bytes.overwrite_overwrite a b hcursor]
  cursor := by rw [htu.cursor, hst.cursor, List.length_append, Nat.add_assoc]
  entered := htu.entered.trans hst.entered

end Lays

theorem openSection_lays (id : DeviceId) (hcursor : s.cursor ≤ s.length) :
    s.Lays (Section.header id 0) (s.openSection id).2 :=
  ((Lays.put _).trans (.put _) hcursor).trans (.put _) hcursor

theorem openSection_start (id : DeviceId) : (s.openSection id).1 = s.cursor + 10 := by
  simp [openSection, put]

theorem take_openSection (id : DeviceId) (hcursor : s.cursor ≤ s.length) :
    (s.openSection id).2.bytes.take (s.cursor + 6)
      =
    s.bytes.take s.cursor ++ (id.kind.toBytes ++ Bytes.littleEndian 2 id.number.toNat) := by
  rw [(openSection_lays id hcursor).bytes]
  exact Bytes.take_overwrite_append (id.kind.toBytes ++ Bytes.littleEndian 2 id.number.toNat)
    (Bytes.littleEndian 4 0) hcursor

theorem closeSection_of_lays {id : DeviceId} {payload : Bytes} (hcursor : s.cursor ≤ s.length)
    (h : s.Lays (Section.header id 0 ++ payload) t) :
    (UInt32.size ≤ payload.length ∧
        t.closeSection (s.cursor + 10)
          =
        .error (.invalidField "device section exceeds 4 GiB")) ∨
      payload.length < UInt32.size ∧
        ∃ u, t.closeSection (s.cursor + 10) = .ok u ∧ s.Lays (Section.frame id payload) u := by
  have hlength : t.cursor - (s.cursor + 10) = payload.length := by
    rw [h.cursor, List.length_append, Section.length_header]
    omega
  unfold closeSection
  rw [hlength, if_neg (by rw [h.cursor, List.length_append, Section.length_header]; omega)]
  by_cases hlarge : UInt32.size ≤ payload.length
  · exact .inl ⟨hlarge, if_pos hlarge⟩
  · refine .inr ⟨Nat.not_le.mp hlarge, _, if_neg hlarge, ?_, ?_, h.entered⟩
    · -- Kind and number take six bytes, and the four behind them are the zeroes to be replaced.
      have hbefore : (id.kind.toBytes ++ Bytes.littleEndian 2 id.number.toNat).length = 6 := by
        simp
      have hpatch := Bytes.overwrite_within (id.kind.toBytes ++ Bytes.littleEndian 2 id.number.toNat)
        (Bytes.littleEndian 4 0) payload (Bytes.littleEndian 4 payload.length) hcursor (by simp)
      rw [hbefore] at hpatch
      dsimp only
      rw [h.bytes]
      exact hpatch
    · dsimp only
      rw [h.cursor]
      simp

end Stream

namespace Program

variable {σ α : Type}

def PutsOnly : Program σ α → Prop
  | done _ | fail _ => True
  | put _ next | assign _ next => next.PutsOnly
  | take _ _ | reset _ | truncate _ | shrink _ _ | look _ => False

theorem PutsOnly.bind {β : Type} {p : Program σ α} {f : α → Program σ β} (h : p.PutsOnly)
    (hnext : ∀ a, (f a).PutsOnly) : (p >>= f).PutsOnly := by
  show (p.bind f).PutsOnly
  induction p with
  | done value => exact hnext value
  | fail error => trivial
  | put bytes next ih => exact ih h
  | assign assigned next ih => exact ih h
  | take | reset | truncate | shrink | look => exact absurd h id

theorem PutsOnly.lays {p : Program σ α} (h : p.PutsOnly) (state : σ) :
    ∃ result state' new, ∀ s : Stream, s.cursor ≤ s.length →
      ∃ t, p.run state s = (result, state', t) ∧ s.Lays new t := by
  induction p generalizing state with
  | done value => exact ⟨_, _, [], fun s _ => ⟨s, rfl, .refl⟩⟩
  | fail error => exact ⟨_, _, [], fun s _ => ⟨s, rfl, .refl⟩⟩
  | put bytes next ih =>
    obtain ⟨result, state', new, hnew⟩ := ih h state
    refine ⟨result, state', bytes ++ new, fun s hcursor => ?_⟩
    have hput := Stream.Lays.put (s := s) bytes
    obtain ⟨t, hrun, hlays⟩ := hnew (s.put bytes) (hput.cursor_le_length hcursor)
    exact ⟨t, hrun, hput.trans hlays hcursor⟩
  | assign assigned next ih => exact ih h assigned
  | take | reset | truncate | shrink | look => exact absurd h id

theorem PutsOnly.run_eq {p : Program σ α} (h : p.PutsOnly) (state : σ) {s : Stream}
    (hcursor : s.cursor ≤ s.length) :
    ∃ t, p.run state s = ((p.run state .empty).1, (p.run state .empty).2.1, t) ∧
      s.Lays (p.run state .empty).2.2.bytes t := by
  obtain ⟨result, state', new, hnew⟩ := h.lays state
  obtain ⟨u, hempty, hlays⟩ := hnew .empty (Nat.le_refl _)
  obtain ⟨t, hrun, hlays'⟩ := hnew s hcursor
  have hbytes : u.bytes = new := by
    rw [hlays.bytes]
    exact Bytes.overwrite_end [] new
  refine ⟨t, ?_, ?_⟩
  · rw [hempty, hrun]
  · rw [hempty, hbytes]
    exact hlays'

end Program

end MachineFork
