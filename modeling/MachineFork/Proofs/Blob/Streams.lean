import MachineFork.Blob.Stream

/-!
This module contains what the operations of a stream come to while its cursor stays within it.
-/

namespace MachineFork

namespace Stream

variable {s t : Stream} {count : Nat} {bytes : Bytes}

theorem take_eq_ok_iff :
    s.take count = .ok (bytes, t)
      ↔
    count ≤ s.remaining ∧ s.cursor + count ≤ s.length ∧
      bytes = (s.bytes.drop s.cursor).take count ∧
      t = { s with cursor := s.cursor + count } := by
  unfold take
  constructor
  · intro h
    split at h
    · split at h <;> simp at h
    · split at h
      · simp at h
      · simp only [Except.ok.injEq, Prod.mk.injEq] at h
        refine ⟨by omega, by omega, h.1.symm, h.2.symm⟩
  · intro h
    obtain ⟨hremaining, hlength, hbytes, ht⟩ := h
    rw [if_neg (by omega)]
    rw [if_neg (by omega)]
    rw [hbytes, ht]

theorem length_of_take (h : s.take count = .ok (bytes, t)) : bytes.length = count := by
  obtain ⟨-, hlength, hbytes, -⟩ := take_eq_ok_iff.mp h
  rw [hbytes]
  simp only [length] at hlength
  rw [List.length_take, List.length_drop]
  omega

theorem reset_take (h : s.take count = .ok (bytes, t)) : t.reset = s.reset := by
  obtain ⟨-, -, -, rfl⟩ := take_eq_ok_iff.mp h
  rfl

theorem take_of_drop {rest : Bytes} (hentered : s.entered = none)
    (h : s.bytes.drop s.cursor = bytes ++ rest) (hcursor : s.cursor ≤ s.length) :
    s.take bytes.length = .ok (bytes, { s with cursor := s.cursor + bytes.length }) := by
  have hlength : s.length - s.cursor = bytes.length + rest.length := by
    rw [← List.length_append, ← h, List.length_drop]
    rfl
  rw [take_eq_ok_iff]
  refine ⟨?_, ?_, ?_, rfl⟩
  · simp only [remaining, readEnd, hentered]
    omega
  · omega
  · rw [h, List.take_left]

theorem length_put (bytes : Bytes) (h : s.cursor ≤ s.length) :
    (s.put bytes).length = max s.length (s.cursor + bytes.length) :=
  Bytes.length_overwrite bytes h

theorem drop_put {start : Nat} (h : s.cursor ≤ s.length)
    (hstart : s.cursor + bytes.length ≤ start) :
    (s.put bytes).bytes.drop start = s.bytes.drop start := by
  obtain ⟨n, hn⟩ := Nat.exists_eq_add_of_le hstart
  rw [hn, ← List.drop_drop, ← List.drop_drop (l := s.bytes)]
  exact congrArg _ (Bytes.drop_overwrite bytes h)

theorem take_put {stop : Nat} (h : s.cursor ≤ s.length) (hstop : stop ≤ s.cursor) :
    (s.put bytes).bytes.take stop = s.bytes.take stop := by
  have hbefore : (s.put bytes).bytes.take s.cursor = s.bytes.take s.cursor :=
    Bytes.take_overwrite bytes h
  rw [← Nat.min_eq_left hstop]
  rw [← List.take_take, ← List.take_take]
  rw [hbefore]

theorem take_truncate {stop : Nat} (hstop : stop ≤ s.cursor) :
    s.truncate.bytes.take stop = s.bytes.take stop := by
  unfold truncate
  rw [List.take_take]
  rw [Nat.min_eq_left hstop]

theorem length_truncate (h : s.cursor ≤ s.length) : s.truncate.length = s.cursor := by
  simp only [length] at h
  simp [truncate, length, h]

end Stream

end MachineFork
