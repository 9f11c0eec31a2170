import MachineFork.Blob.Program
import MachineFork.Proofs.Blob.Streams

/-!
This module contains what a read that fails leaves behind. If the bytes that it takes first are not
there, everything is left as it was, and most reads do not fail otherwise. Two of them look at what
they have taken before they are done, and if they fail then, they leave the cursor behind it.

A read that is cut off never returns, so there is nothing that could follow it.
-/

namespace MachineFork

namespace Program

variable {σ α β : Type} {p : Program σ α} {count : Nat} {f : Bytes → α} {taken : Bytes}
variable {state state' : σ} {s t : Stream} {error : BlobError}

theorem run_bind_of_ok {next : α → Program σ β} {a : α}
    (h : p.run state s = (.ok a, state', t)) :
    (p >>= next).run state s = (next a).run state' t := by
  rw [run_bind, h]

theorem run_bind_of_error {next : α → Program σ β}
    (h : p.run state s = (.error error, state', t)) :
    (p >>= next).run state s = (.error error, state', t) := by
  rw [run_bind, h]

def Converts (p : Program σ α) (count : Nat) (f : Bytes → α) : Prop :=
  ∀ state s, p.run state s =
    match s.take count with
    | .ok (taken, t) => (.ok (f taken), state, t)
    | .error error => (.error error, state, s)

theorem Converts.run_of_ok (hp : p.Converts count f) (h : s.take count = .ok (taken, t)) :
    p.run state s = (.ok (f taken), state, t) := by
  rw [hp state s, h]

theorem Converts.run_of_error (hp : p.Converts count f) (h : s.take count = .error error) :
    p.run state s = (.error error, state, s) := by
  rw [hp state s, h]

theorem converts_get (count : Nat) : (get (σ := σ) count).Converts count id := by
  intro state s
  rw [get, run]
  cases s.take count with
  | error error => rfl
  | ok taken => rfl

theorem Converts.map (h : p.Converts count f) (g : α → β) :
    (do return g (← p) : Program σ β).Converts count (g ∘ f) := by
  intro state s
  rw [run_bind, h state s]
  cases s.take count with
  | error error => rfl
  | ok taken => rfl

theorem converts_getNat (width : Nat) :
    (getNat (σ := σ) width).Converts width Bytes.ofLittleEndian :=
  (converts_get width).map Bytes.ofLittleEndian

theorem converts_getU8 :
    (getU8 (σ := σ)).Converts 1 fun taken => .ofNat (Bytes.ofLittleEndian taken) :=
  (converts_getNat 1).map UInt8.ofNat

theorem converts_getU16 :
    (getU16 (σ := σ)).Converts 2 fun taken => .ofNat (Bytes.ofLittleEndian taken) :=
  (converts_getNat 2).map UInt16.ofNat

theorem converts_getU32 :
    (getU32 (σ := σ)).Converts 4 fun taken => .ofNat (Bytes.ofLittleEndian taken) :=
  (converts_getNat 4).map UInt32.ofNat

theorem converts_getU64 :
    (getU64 (σ := σ)).Converts 8 fun taken => .ofNat (Bytes.ofLittleEndian taken) :=
  (converts_getNat 8).map UInt64.ofNat

/-! Reads that look at what they have taken first. -/

theorem run_getBool_of_lt (h : s.take 1 = .ok (taken, t))
    (hlarge : 1 < Bytes.ofLittleEndian taken) :
    getBool.run state s = (.error (.invalidField "bool"), state, t) := by
  have hlt := Bytes.ofLittleEndian_lt taken
  rw [Stream.length_of_take h] at hlt
  have hbyte : (UInt8.ofNat (Bytes.ofLittleEndian taken)).toNat = Bytes.ofLittleEndian taken := by
    rw [UInt8.toNat_ofNat']
    exact Nat.mod_eq_of_lt hlt
  rw [← hbyte] at hlarge
  apply (run_bind_of_ok (converts_getU8.run_of_ok h)).trans
  split
  · next hzero => simp [hzero] at hlarge
  · next hone => simp [hone] at hlarge
  · rfl

theorem run_getBool_of_le (h : s.take 1 = .ok (taken, t))
    (hsmall : Bytes.ofLittleEndian taken ≤ 1) :
    ∃ value, getBool.run state s = (.ok value, state, t) := by
  have hbyte : getU8.run state s = _ := converts_getU8.run_of_ok h
  cases Nat.le_one_iff_eq_zero_or_eq_one.mp hsmall with
  | inl hzero =>
    refine ⟨false, (run_bind_of_ok hbyte).trans ?_⟩
    rw [hzero]
    rfl
  | inr hone =>
    refine ⟨true, (run_bind_of_ok hbyte).trans ?_⟩
    rw [hone]
    rfl

theorem run_getPrefixed (limit : Nat) (h : s.take 4 = .ok (taken, t)) :
    (getPrefixed limit).run state s
      =
    if limit < Bytes.ofLittleEndian taken then
      (.error (.invalidField "length prefix too large"), state, t)
    else
      (get (Bytes.ofLittleEndian taken)).run state t := by
  have hlt := Bytes.ofLittleEndian_lt taken
  rw [Stream.length_of_take h] at hlt
  have hlength :
      (UInt32.ofNat (Bytes.ofLittleEndian taken)).toNat = Bytes.ofLittleEndian taken := by
    rw [UInt32.toNat_ofNat']
    exact Nat.mod_eq_of_lt hlt
  apply (run_bind_of_ok (converts_getU32.run_of_ok h)).trans
  rw [hlength]
  split
  · rfl
  · rfl

end Program

namespace Stream

theorem takeInto_of_ok {s t : Stream} {buffer taken : Bytes}
    (h : s.take buffer.length = .ok (taken, t)) : s.takeInto buffer = (.ok (), taken, t) := by
  rw [takeInto, h]

theorem takeInto_of_error {s : Stream} {buffer : Bytes} {error : BlobError}
    (h : s.take buffer.length = .error error) :
    s.takeInto buffer = (.error error, buffer, s) := by
  rw [takeInto, h]

inductive Get where
  | u8
  | u16
  | u32
  | u64
  | bool
  | bytes (count : Nat)
  | into (buffer : Bytes)
  | prefixed (limit : Nat)
  deriving DecidableEq, Repr

namespace Get

def lead : Get → Nat
  | u8 => 1
  | u16 => 2
  | u32 => 4
  | u64 => 8
  | bool => 1
  | bytes count => count
  | into buffer => buffer.length
  | prefixed _ => 4

def buffer : Get → Bytes
  | into buffer => buffer
  | _ => []

def perform (s : Stream) : Get → Except BlobError Unit × Bytes × Stream
  | u8 => outcome .getU8
  | u16 => outcome .getU16
  | u32 => outcome .getU32
  | u64 => outcome .getU64
  | bool => outcome .getBool
  | bytes count => outcome (.get count)
  | into buffer => s.takeInto buffer
  | prefixed limit => outcome (.getPrefixed limit)
where
  outcome {α : Type} (p : Program Unit α) : Except BlobError Unit × Bytes × Stream :=
    let (result, _, t) := p.run () s
    (result.map fun _ => (), [], t)

def Rejects (t : Stream) (error : BlobError) (taken : Bytes) : Get → Prop
  | bool => 1 < Bytes.ofLittleEndian taken ∧ error = .invalidField "bool"
  | prefixed limit =>
    limit < Bytes.ofLittleEndian taken ∧ error = .invalidField "length prefix too large" ∨
      Bytes.ofLittleEndian taken ≤ limit ∧ t.take (Bytes.ofLittleEndian taken) = .error error
  | _ => False

variable {s t : Stream} {get : Get} {taken : Bytes} {error : BlobError} {α : Type}

/-! How reads fail. -/

theorem outcome_of_error {p : Program Unit α} (h : p.run () s = (.error error, (), t)) :
    perform.outcome s p = (.error error, [], t) := by
  unfold perform.outcome
  rw [h]
  rfl

theorem outcome_of_ok {p : Program Unit α} {a : α} (h : p.run () s = (.ok a, (), t)) :
    perform.outcome s p = (.ok (), [], t) := by
  unfold perform.outcome
  rw [h]
  rfl

theorem perform_of_take_error (h : s.take get.lead = .error error) :
    get.perform s = (.error error, get.buffer, s) := by
  cases get with
  | u8 => exact outcome_of_error (Program.converts_getU8.run_of_error h)
  | u16 => exact outcome_of_error (Program.converts_getU16.run_of_error h)
  | u32 => exact outcome_of_error (Program.converts_getU32.run_of_error h)
  | u64 => exact outcome_of_error (Program.converts_getU64.run_of_error h)
  | bytes count => exact outcome_of_error ((Program.converts_get count).run_of_error h)
  | bool =>
    apply outcome_of_error
    exact Program.run_bind_of_error (Program.converts_getU8.run_of_error h)
  | prefixed limit =>
    apply outcome_of_error
    exact Program.run_bind_of_error (Program.converts_getU32.run_of_error h)
  | into buffer => exact takeInto_of_error h

theorem perform_of_rejects (h : s.take get.lead = .ok (taken, t))
    (hrejects : get.Rejects t error taken) : get.perform s = (.error error, get.buffer, t) := by
  cases get with
  | bool =>
    obtain ⟨hlarge, rfl⟩ := hrejects
    exact outcome_of_error (Program.run_getBool_of_lt h hlarge)
  | prefixed limit =>
    apply outcome_of_error
    rw [Program.run_getPrefixed limit h]
    cases hrejects with
    | inl hlarge =>
      obtain ⟨hlarge, rfl⟩ := hlarge
      rw [if_pos hlarge]
    | inr hshort =>
      rw [if_neg (Nat.not_lt.mpr hshort.1)]
      exact (Program.converts_get _).run_of_error hshort.2
  | _ => contradiction

theorem ok_or_rejects_of_take (h : s.take get.lead = .ok (taken, t)) :
    (get.perform s).1 = .ok () ∨ ∃ error, get.Rejects t error taken := by
  have hwhole {α : Type} {p : Program Unit α} {f : Bytes → α} (hp : p.Converts get.lead f) :
      (perform.outcome s p).1 = .ok () := by
    rw [outcome_of_ok (hp.run_of_ok h)]
  cases get with
  | u8 => exact .inl (hwhole Program.converts_getU8)
  | u16 => exact .inl (hwhole Program.converts_getU16)
  | u32 => exact .inl (hwhole Program.converts_getU32)
  | u64 => exact .inl (hwhole Program.converts_getU64)
  | bytes count => exact .inl (hwhole (Program.converts_get count))
  | into buffer =>
    left
    rw [perform, takeInto_of_ok h]
  | bool =>
    cases Nat.lt_or_ge 1 (Bytes.ofLittleEndian taken) with
    | inl hlarge => exact .inr ⟨_, hlarge, rfl⟩
    | inr hsmall =>
      left
      obtain ⟨value, hrun⟩ := Program.run_getBool_of_le h hsmall
      rw [perform, outcome_of_ok hrun]
  | prefixed limit =>
    cases Nat.lt_or_ge limit (Bytes.ofLittleEndian taken) with
    | inl hlarge => exact .inr ⟨_, .inl ⟨hlarge, rfl⟩⟩
    | inr hsmall =>
      have hrun : (Program.getPrefixed limit).run () s = _ := Program.run_getPrefixed limit h
      rw [if_neg (Nat.not_lt.mpr hsmall)] at hrun
      cases hbody : t.take (Bytes.ofLittleEndian taken) with
      | error error => exact .inr ⟨error, .inr ⟨hsmall, hbody⟩⟩
      | ok body =>
        left
        rw [(Program.converts_get _).run_of_ok hbody] at hrun
        rw [perform, outcome_of_ok hrun]

theorem rejects_of_take (h : s.take get.lead = .ok (taken, t))
    (hfailed : (get.perform s).1 = .error error) : get.Rejects t error taken := by
  cases ok_or_rejects_of_take h with
  | inl hok =>
    rw [hok] at hfailed
    contradiction
  | inr hrejects =>
    obtain ⟨cause, hrejects⟩ := hrejects
    rw [perform_of_rejects h hrejects] at hfailed
    cases hfailed
    exact hrejects

theorem remaining_lt_of_take_error {count : Nat} (h : s.take count = .error error)
    (hreturns : ∀ requested left, error ≠ .cutOff requested left) : s.remaining < count := by
  apply Nat.lt_of_not_le
  intro hle
  unfold Stream.take at h
  rw [if_neg (Nat.not_lt.mpr hle)] at h
  split at h
  · cases h
    exact hreturns _ _ rfl
  · contradiction

theorem lead_pos_of_rejects (h : get.Rejects t error taken) : 0 < get.lead := by
  cases get with
  | bool => apply Nat.zero_lt_one
  | prefixed limit => apply Nat.zero_lt_succ
  | _ => contradiction

/--
A read that has failed leaves the stream and its buffer as they were exactly when there were fewer
bytes than it takes first. Otherwise it leaves the cursor behind these bytes, and everything else as
it was. It fails in that case because of what it has taken, which only a boolean and a string behind
its length can do.
-/
theorem failed_keeps_iff (hfailed : (get.perform s).1 = .error error)
    (hreturns : ∀ requested left, error ≠ .cutOff requested left) :
    ((get.perform s).2 = (get.buffer, s) ↔ s.remaining < get.lead) ∧
      (get.lead ≤ s.remaining →
        ∃ taken t, s.take get.lead = .ok (taken, t) ∧ get.Rejects t error taken ∧
          (get.perform s).2 = (get.buffer, t) ∧ t = { s with cursor := s.cursor + get.lead }) := by
  cases htake : s.take get.lead with
  | error cause =>
    rw [perform_of_take_error htake] at hfailed ⊢
    cases hfailed
    have hremaining := remaining_lt_of_take_error htake hreturns
    constructor
    · exact ⟨fun _ => hremaining, fun _ => rfl⟩
    · exact fun hle => absurd hremaining (Nat.not_lt.mpr hle)
  | ok read =>
    obtain ⟨taken, t⟩ := read
    obtain ⟨hremaining, -, -, ht⟩ := take_eq_ok_iff.mp htake
    have hrejects := rejects_of_take htake hfailed
    have hlead := lead_pos_of_rejects hrejects
    rw [perform_of_rejects htake hrejects]
    constructor
    · have hmoved : t.cursor ≠ s.cursor := by
        rw [ht]
        exact Nat.ne_of_gt (Nat.lt_add_of_pos_right hlead)
      constructor
      · intro hkept
        cases hkept
        contradiction
      · exact fun hlt => absurd hremaining (Nat.not_le.mpr hlt)
    · exact fun _ => ⟨taken, t, rfl, hrejects, rfl, ht⟩

theorem failed_keeps_iff_bool :
    (bool.perform (.ofBytes [2])).1 = .error (.invalidField "bool") ∧
      (bool.perform (.ofBytes [2])).2 = ([], { Stream.ofBytes [2] with cursor := 1 }) ∧
      (bool.perform (.ofBytes [2])).2 ≠ ([], .ofBytes [2]) := by
  have hfailed : (bool.perform (.ofBytes [2])).1 = .error (.invalidField "bool") := rfl
  obtain ⟨hkeeps, hmoves⟩ := failed_keeps_iff hfailed (by simp)
  obtain ⟨taken, t, -, -, hafter, ht⟩ := hmoves (by decide)
  refine ⟨hfailed, ?_, ?_⟩
  · rw [hafter, ht]
    rfl
  · exact fun hkept => absurd (hkeeps.mp hkept) (by decide)

end Get

end Stream

end MachineFork
