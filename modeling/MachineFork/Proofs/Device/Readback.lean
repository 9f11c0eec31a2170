import Mathlib.Data.List.Forall2
import MachineFork.Proofs.Device.Typed

/-!
This module contains that fields are read back as they were written. Writing may lay fields over what
was there, reach past its end, or both; what stands before and behind them stays.
-/

namespace MachineFork

namespace Program

variable {σ α β : Type} {a b : Bytes} {value : α}

def Recovers (p : Program σ α) (bytes : Bytes) (value : α) : Prop :=
  ∀ (state : σ) (s : Stream) (rest : Bytes), s.entered = none → s.cursor ≤ s.length →
    s.bytes.drop s.cursor = bytes ++ rest →
      p.run state s = (.ok value, state, { s with cursor := s.cursor + bytes.length })

theorem Recovers.pure (value : α) : (pure value : Program σ α).Recovers [] value := by
  intro state s rest _ _ _
  rfl

theorem Recovers.bind {p : Program σ α} {f : α → Program σ β} {result : β}
    (hp : p.Recovers a value) (hf : (f value).Recovers b result) :
    (p >>= f).Recovers (a ++ b) result := by
  intro state s rest hentered hcursor hfront
  rw [List.append_assoc] at hfront
  have hlength : s.cursor + a.length ≤ s.length := by
    have := congrArg List.length hfront
    rw [List.length_drop, List.length_append] at this
    simp only [Stream.length] at *
    omega
  have hbehind : s.bytes.drop (s.cursor + a.length) = b ++ rest := by
    rw [← List.drop_drop, hfront, List.drop_left]
  rw [run_bind, hp state s _ hentered hcursor hfront]
  dsimp only
  rw [hf state { s with cursor := s.cursor + a.length } rest hentered hlength hbehind]
  rw [List.length_append, Nat.add_assoc]

theorem Recovers.map {p : Program σ α} (hp : p.Recovers a value) (f : α → β) :
    (do return f (← p) : Program σ β).Recovers a (f value) := by
  have := hp.bind (f := fun a => Pure.pure (f a)) (.pure (f value))
  rwa [List.append_nil] at this

theorem recovers_get (bytes : Bytes) : (get (σ := σ) bytes.length).Recovers bytes bytes := by
  intro state s rest hentered hcursor hfront
  rw [get, run, Stream.take_of_drop hentered hfront hcursor]
  rfl

theorem recovers_getNat {width n : Nat} (h : n < UInt8.size.pow width) :
    (getNat (σ := σ) width).Recovers (Bytes.littleEndian width n) n := by
  have hget := recovers_get (σ := σ) (Bytes.littleEndian width n)
  rw [Bytes.length_littleEndian] at hget
  have := hget.map Bytes.ofLittleEndian
  rwa [Bytes.ofLittleEndian_littleEndian h] at this

theorem recovers_getU8 (value : UInt8) :
    (getU8 (σ := σ)).Recovers (Bytes.littleEndian 1 value.toNat) value := by
  have hget : (getNat (σ := σ) 1).Recovers (Bytes.littleEndian 1 value.toNat) value.toNat :=
    recovers_getNat value.toNat_lt
  have := hget.map UInt8.ofNat
  rwa [UInt8.ofNat_toNat] at this

theorem recovers_getU16 (value : UInt16) :
    (getU16 (σ := σ)).Recovers (Bytes.littleEndian 2 value.toNat) value := by
  have hget : (getNat (σ := σ) 2).Recovers (Bytes.littleEndian 2 value.toNat) value.toNat :=
    recovers_getNat value.toNat_lt
  have := hget.map UInt16.ofNat
  rwa [UInt16.ofNat_toNat] at this

theorem recovers_getU32 (value : UInt32) :
    (getU32 (σ := σ)).Recovers (Bytes.littleEndian 4 value.toNat) value := by
  have hget : (getNat (σ := σ) 4).Recovers (Bytes.littleEndian 4 value.toNat) value.toNat :=
    recovers_getNat value.toNat_lt
  have := hget.map UInt32.ofNat
  rwa [UInt32.ofNat_toNat] at this

theorem recovers_getU64 (value : UInt64) :
    (getU64 (σ := σ)).Recovers (Bytes.littleEndian 8 value.toNat) value := by
  have hget : (getNat (σ := σ) 8).Recovers (Bytes.littleEndian 8 value.toNat) value.toNat :=
    recovers_getNat value.toNat_lt
  have := hget.map UInt64.ofNat
  rwa [UInt64.ofNat_toNat] at this

theorem recovers_getBool (value : Bool) :
    (getBool (σ := σ)).Recovers (Bytes.littleEndian 1 value.toNat) value := by
  cases value with
  | false => exact (recovers_getU8 0).bind (.pure false)
  | true => exact (recovers_getU8 1).bind (.pure true)

theorem recovers_getPrefixed {bytes : Bytes} {limit : Nat} (hfits : bytes.length < UInt32.size)
    (hlimit : bytes.length ≤ limit) :
    (getPrefixed (σ := σ) limit).Recovers (Bytes.littleEndian 4 bytes.length ++ bytes) bytes := by
  have htoNat : (UInt32.ofNat bytes.length).toNat = bytes.length := by
    rw [UInt32.toNat_ofNat']
    exact Nat.mod_eq_of_lt hfits
  have hlength := recovers_getU32 (σ := σ) (.ofNat bytes.length)
  rw [htoNat] at hlength
  apply hlength.bind
  rw [htoNat, if_neg (Nat.not_lt.mpr hlimit)]
  exact recovers_get bytes

end Program

namespace Field

variable {σ : Type} {field value : Field} {fields values : List Field}

/--
Whether `value` is what may be read as a field of the same type as `field`: a raw buffer of the same
length, or a prefixed one that is within the limit.
-/
inductive Awaits : Field → Field → Prop where
  | u8 (old new : UInt8) : Awaits (u8 old) (u8 new)
  | u16 (old new : UInt16) : Awaits (u16 old) (u16 new)
  | u32 (old new : UInt32) : Awaits (u32 old) (u32 new)
  | u64 (old new : UInt64) : Awaits (u64 old) (u64 new)
  | bool (old new : Bool) : Awaits (bool old) (bool new)
  | raw {old new : Bytes} (hlength : new.length = old.length) : Awaits (raw old) (raw new)
  | prefixed (old : Bytes) {new : Bytes} {limit : Nat} (hlimit : new.length ≤ limit) :
    Awaits (prefixed old limit) (prefixed new limit)

theorem recovers_get (h : field.Awaits value) (hfits : value.Fits) :
    (field.get (σ := σ)).Recovers value.encode value := by
  cases h with
  | u8 old new => exact (Program.recovers_getU8 new).map _
  | u16 old new => exact (Program.recovers_getU16 new).map _
  | u32 old new => exact (Program.recovers_getU32 new).map _
  | u64 old new => exact (Program.recovers_getU64 new).map _
  | bool old new => exact (Program.recovers_getBool new).map _
  | @raw old new hlength =>
    have hget := Program.recovers_get (σ := σ) new
    rw [hlength] at hget
    exact hget.map _
  | prefixed old hlimit => exact (Program.recovers_getPrefixed hfits hlimit).map _

def getAll : List Field → Program σ (List Field)
  | [] => return []
  | field :: fields => do
    let value ← field.get
    let values ← getAll fields
    return value :: values

theorem recovers_getAll (h : List.Forall₂ Awaits fields values)
    (hfits : ∀ value ∈ values, value.Fits) :
    (getAll (σ := σ) fields).Recovers (values.flatMap encode) values := by
  induction h with
  | nil => exact .pure []
  | cons hfirst _ ih =>
    rw [List.forall_mem_cons] at hfits
    exact (recovers_get hfirst hfits.1).bind ((ih hfits.2).map _)

def readBack (count : Nat) (fields : List Field) : Program σ (Bytes × List Field) :=
  .reset do
    let before ← .get count
    let values ← getAll fields
    return (before, values)

/--
Fields that are written anywhere on a stream leave all other bytes as they were, and from a stream
with the resulting bytes the same fields are read.
-/
theorem readBack_of_putAll {s : Stream} (hcursor : s.cursor ≤ s.length)
    (hfits : ∀ value ∈ values, value.Fits) :
    ∃ t, (Script.putAll values).run () s = (.ok (), (), t) ∧
      t.cursor = s.cursor + (values.flatMap encode).length ∧
      t.bytes.take s.cursor = s.bytes.take s.cursor ∧
      t.bytes.drop t.cursor = s.bytes.drop t.cursor ∧
      ∀ (σ : Type) (state : σ) (u : Stream) (fields : List Field), u.bytes = t.bytes →
        List.Forall₂ Awaits fields values →
          (readBack s.cursor fields).run state u
            =
          (.ok (s.bytes.take s.cursor, values), state,
            { u with cursor := t.cursor, entered := none }) := by
  obtain ⟨t, hput, hlays⟩ := Script.run_putAll hfits hcursor
  refine ⟨t, hput, hlays.cursor, ?_, ?_, ?_⟩
  · rw [hlays.bytes]
    exact Bytes.take_overwrite _ hcursor
  · rw [hlays.bytes, hlays.cursor]
    exact Bytes.drop_overwrite _ hcursor
  · intro σ state u fields hbytes hawaits
    have hbefore : (s.bytes.take s.cursor).length = s.cursor := List.length_take_of_le hcursor
    have hskip := Program.recovers_get (σ := σ) (s.bytes.take s.cursor)
    rw [hbefore] at hskip
    have hread := hskip.bind (f := fun before => do return (before, ← getAll fields))
      ((recovers_getAll hawaits hfits).map (s.bytes.take s.cursor, ·))
    have hfront : u.bytes.drop 0 = (s.bytes.take s.cursor ++ values.flatMap encode)
        ++ s.bytes.drop (s.cursor + (values.flatMap encode).length) := by
      rw [List.drop_zero, hbytes, hlays.bytes]
      rfl
    have hrun := hread state u.reset _ rfl (Nat.zero_le _) hfront
    have hstop : u.reset.cursor + t.cursor = t.cursor := Nat.zero_add _
    rw [List.length_append, hbefore, ← hlays.cursor, hstop] at hrun
    rw [readBack, Program.run]
    exact hrun

theorem readBack_of_putAll_straddling :
    6 ≤ (List.replicate 9 (1 : UInt8)).length ∧
      (∀ value ∈ [u16 513, bool true, prefixed [7, 8, 9] 4, raw [5, 5]], value.Fits) ∧
      ∃ t, (Script.putAll [u16 513, bool true, prefixed [7, 8, 9] 4, raw [5, 5]]).run ()
          { bytes := List.replicate 9 1, cursor := 6 } = (.ok (), (), t) ∧
        t.cursor = 18 ∧
        (readBack 6 [u16 0, bool false, prefixed [] 4, raw [0, 0]]).run () (.ofBytes t.bytes)
          =
        (.ok (List.replicate 6 1, [u16 513, bool true, prefixed [7, 8, 9] 4, raw [5, 5]]), (),
          { Stream.ofBytes t.bytes with cursor := 18 }) := by
  have hfits : ∀ value ∈ [u16 513, bool true, prefixed [7, 8, 9] 4, raw [5, 5]], value.Fits := by
    simp [Fits, UInt32.size]
  obtain ⟨t, hput, hcursor, -, -, hread⟩ := readBack_of_putAll
    (s := { bytes := List.replicate 9 1, cursor := 6 }) (by decide) hfits
  refine ⟨by decide, hfits, t, hput, hcursor, ?_⟩
  have hawaits : List.Forall₂ Awaits [u16 0, bool false, prefixed [] 4, raw [0, 0]]
      [u16 513, bool true, prefixed [7, 8, 9] 4, raw [5, 5]] :=
    .cons (.u16 _ _) (.cons (.bool _ _) (.cons (.prefixed _ (by decide)) (.cons (.raw rfl) .nil)))
  have hback := hread Unit () (.ofBytes t.bytes) _ rfl hawaits
  rw [hcursor] at hback
  exact hback

end Field

end MachineFork
