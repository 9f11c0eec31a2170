import MachineFork.Blob.Program
import MachineFork.Proofs.Blob.Sections

/-!
This module contains the trace that a program leaves on a stream: which bytes it reads and writes,
and when it moves the cursor back or cuts the stream off. A read that is refused leaves no trace. A
program that never moves the cursor back touches nothing but the bytes between where it starts and
where it ends, and the bytes behind these it leaves as they are or cuts off altogether.
-/

namespace MachineFork

inductive Event where
  | read (start count : Nat)
  | write (start count : Nat)
  | reset
  | truncate
  | shrink (floor : Nat)
  deriving DecidableEq, Repr

def Event.Within (start stop : Nat) : Event → Prop
  | read first count | write first count => count = 0 ∨ start ≤ first ∧ first + count ≤ stop
  | reset | truncate | shrink _ => True

theorem Event.Within.mono {start start' stop stop' : Nat} {event : Event}
    (h : event.Within start stop) (hstart : start' ≤ start) (hstop : stop ≤ stop') :
    event.Within start' stop' := by
  cases event with
  | read first count | write first count =>
    simp only [Within] at h ⊢
    omega
  | reset | truncate | shrink floor => trivial

instance (start stop : Nat) : (event : Event) → Decidable (event.Within start stop)
  | .read _ _ | .write _ _ => inferInstanceAs (Decidable (_ ∨ _))
  | .reset | .truncate | .shrink _ => inferInstanceAs (Decidable True)

namespace Program

variable {σ α : Type}

def events : Program σ α → σ → Stream → List Event
  | done _, _, _ => []
  | fail _, _, _ => []
  | take count next, state, s =>
    match s.take count with
    | .ok (bytes, t) => .read s.cursor count :: (next (.ok bytes)).events state t
    | .error error => (next (.error error)).events state s
  | put bytes next, state, s => .write s.cursor bytes.length :: next.events state (s.put bytes)
  | reset next, state, s => .reset :: next.events state s.reset
  | truncate next, state, s => .truncate :: next.events state s.truncate
  | shrink floor next, state, s => .shrink floor :: next.events state (s.shrink floor)
  | look next, state, s => (next s).events state s
  | assign state next, _, s => next.events state s

end Program

namespace Stream

variable {s t : Stream} {events : List Event} {start stop : Nat}

inductive Leads : Stream → List Event → Stream → Prop
  | nil {s : Stream} : Leads s [] s
  | read {s u t : Stream} {count : Nat} {bytes : Bytes} {events : List Event}
    (take : s.take count = .ok (bytes, u)) (rest : Leads u events t) :
    Leads s (.read s.cursor count :: events) t
  | write {s t : Stream} {bytes : Bytes} {events : List Event}
    (rest : Leads (s.put bytes) events t) :
    Leads s (.write s.cursor bytes.length :: events) t
  | reset {s t : Stream} {events : List Event} (rest : Leads s.reset events t) :
    Leads s (.reset :: events) t
  | truncate {s t : Stream} {events : List Event} (rest : Leads s.truncate events t) :
    Leads s (.truncate :: events) t
  | shrink {s t : Stream} {floor : Nat} {events : List Event}
    (rest : Leads (s.shrink floor) events t) :
    Leads s (.shrink floor :: events) t

theorem leads_run {σ α : Type} (p : Program σ α) (state : σ) (s : Stream) :
    s.Leads (p.events state s) (p.run state s).2.2 := by
  induction p generalizing state s with
  | done value => exact .nil
  | fail error => exact .nil
  | take count next ih =>
    unfold Program.events Program.run
    cases h : s.take count with
    | ok read => exact .read h (ih _ _ _)
    | error error => apply ih
  | put bytes next ih => exact .write (ih _ _)
  | reset next ih => exact .reset (ih _ _)
  | truncate next ih => exact .truncate (ih _ _)
  | shrink floor next ih => exact .shrink (ih _ _)
  | look next ih => apply ih
  | assign state next ih => apply ih

theorem leads_of_run {σ α : Type} {p : Program σ α} {state state' : σ}
    {result : Except BlobError α} (h : p.run state s = (result, state', t)) :
    s.Leads (p.events state s) t := by
  have := leads_run p state s
  rwa [h] at this

structure Advances (s : Stream) (events : List Event) (t : Stream) : Prop where
  entered : t.entered = s.entered
  cursor_le : s.cursor ≤ t.cursor
  cursor_le_length : t.cursor ≤ t.length
  within : ∀ event ∈ events, event.Within s.cursor t.cursor
  behind : t.bytes.drop t.cursor = s.bytes.drop t.cursor ∨ t.length = t.cursor

theorem Leads.advances (h : s.Leads events t) (hcursor : s.cursor ≤ s.length)
    (hreset : .reset ∉ events) : s.Advances events t := by
  induction h with
  | nil => exact ⟨rfl, Nat.le_refl _, hcursor, by simp, .inl rfl⟩
  | read take rest ih =>
    obtain ⟨-, hlength, -, rfl⟩ := take_eq_ok_iff.mp take
    have ih := ih hlength fun h => hreset (.tail _ h)
    have hle := ih.cursor_le
    dsimp only at hle
    refine ⟨ih.entered, by omega, ih.cursor_le_length, ?_, ih.behind⟩
    intro event hevent
    cases hevent with
    | head => exact .inr ⟨Nat.le_refl _, hle⟩
    | tail _ hevent => exact (ih.within event hevent).mono (by simp) (Nat.le_refl _)
  | @write s t bytes events rest ih =>
    have hput : s.cursor + bytes.length ≤ (s.put bytes).length := by
      rw [length_put bytes hcursor]
      apply Nat.le_max_right
    have ih := ih hput fun h => hreset (.tail _ h)
    have hle : s.cursor + bytes.length ≤ t.cursor := ih.cursor_le
    refine ⟨ih.entered, by omega, ih.cursor_le_length, ?_, ?_⟩
    · intro event hevent
      cases hevent with
      | head => exact .inr ⟨Nat.le_refl _, hle⟩
      | tail _ hevent => exact (ih.within event hevent).mono (Nat.le_add_right _ _) (Nat.le_refl _)
    · rcases ih.behind with hbehind | hbehind
      · exact .inl (hbehind.trans (drop_put hcursor hle))
      · exact .inr hbehind
  | reset rest ih => simp at hreset
  | @truncate s t events rest ih =>
    have htruncate := length_truncate hcursor
    have ih := ih (Nat.le_of_eq htruncate.symm) fun h => hreset (.tail _ h)
    have hle : s.cursor ≤ t.cursor := ih.cursor_le
    refine ⟨ih.entered, hle, ih.cursor_le_length, ?_, ?_⟩
    · intro event hevent
      cases hevent with
      | head => trivial
      | tail _ hevent => exact ih.within event hevent
    · -- Whatever is written after the cut ends at the cursor, so nothing is left behind it.
      right
      rcases ih.behind with hbehind | hbehind
      · have hnil : t.bytes.drop t.cursor = [] := by
          rw [hbehind, List.drop_eq_nil_iff]
          exact Nat.le_trans (Nat.le_of_eq htruncate) hle
        exact Nat.le_antisymm (List.drop_eq_nil_iff.mp hnil) ih.cursor_le_length
      · exact hbehind
  | shrink rest ih =>
    have ih := ih hcursor fun h => hreset (.tail _ h)
    refine ⟨ih.entered, ih.cursor_le, ih.cursor_le_length, ?_, ih.behind⟩
    intro event hevent
    cases hevent with
    | head => trivial
    | tail _ hevent => exact ih.within event hevent

theorem Leads.take_eq {count : Nat} (h : s.Leads events t) (hcursor : s.cursor ≤ s.length)
    (hreset : .reset ∉ events) (hcount : count ≤ s.cursor) :
    t.bytes.take count = s.bytes.take count := by
  induction h with
  | nil => rfl
  | read take rest ih =>
    obtain ⟨-, hlength, -, rfl⟩ := take_eq_ok_iff.mp take
    apply ih
    · exact hlength
    · exact fun h => hreset (.tail _ h)
    · exact Nat.le_trans hcount (Nat.le_add_right _ _)
  | write rest ih =>
    rw [ih]
    · exact take_put hcursor hcount
    · rw [length_put _ hcursor]
      apply Nat.le_max_right
    · exact fun h => hreset (.tail _ h)
    · exact Nat.le_trans hcount (Nat.le_add_right _ _)
  | reset rest => simp at hreset
  | truncate rest ih =>
    rw [ih]
    · exact take_truncate hcount
    · exact Nat.le_of_eq (length_truncate hcursor).symm
    · exact fun h => hreset (.tail _ h)
    · exact hcount
  | shrink rest ih =>
    apply ih
    · exact hcursor
    · exact fun h => hreset (.tail _ h)
    · exact hcount

/-! A reset takes the cursor out of any part of the stream that does not begin at its start. -/

theorem Leads.cursor_eq_zero (h : s.Leads events t) (hcursor : s.cursor = 0) (hstart : 0 < start)
    (hwithin : ∀ event ∈ events, event.Within start stop) : t.cursor = 0 := by
  induction h with
  | nil => exact hcursor
  | read take rest ih =>
    -- Only an empty read can be within the part while the cursor is in front of it.
    obtain ⟨-, -, -, rfl⟩ := take_eq_ok_iff.mp take
    have hread := hwithin _ (.head _)
    apply ih
    · simp only [Event.Within] at hread
      dsimp only
      omega
    · exact fun event h => hwithin event (.tail _ h)
  | write rest ih =>
    have hwrite := hwithin _ (.head _)
    apply ih
    · simp only [Event.Within] at hwrite
      simp only [put]
      omega
    · exact fun event h => hwithin event (.tail _ h)
  | reset rest ih => exact ih rfl fun event h => hwithin event (.tail _ h)
  | truncate rest ih => exact ih hcursor fun event h => hwithin event (.tail _ h)
  | shrink rest ih => exact ih hcursor fun event h => hwithin event (.tail _ h)

theorem Leads.cursor_eq_zero_of_reset (h : s.Leads events t) (hreset : .reset ∈ events)
    (hstart : 0 < start) (hwithin : ∀ event ∈ events, event.Within start stop) : t.cursor = 0 := by
  induction h with
  | nil => simp at hreset
  | read take rest ih =>
    exact ih (by simpa using hreset) fun event h => hwithin event (.tail _ h)
  | write rest ih => exact ih (by simpa using hreset) fun event h => hwithin event (.tail _ h)
  | reset rest => exact rest.cursor_eq_zero rfl hstart fun event h => hwithin event (.tail _ h)
  | truncate rest ih => exact ih (by simpa using hreset) fun event h => hwithin event (.tail _ h)
  | shrink rest ih => exact ih (by simpa using hreset) fun event h => hwithin event (.tail _ h)

end Stream

end MachineFork
