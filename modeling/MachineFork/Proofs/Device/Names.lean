import MachineFork.Device.Id
import MachineFork.Text.Decimal

/-!
This module contains that the text of an identity names one device only. The backslash that begins
an escape may also stand for itself, so the bytes of a kind can spell out the escape of another byte.
That takes all four of them, and then there is nothing left that the other three bytes of the other
kind could be shown as.
-/

namespace MachineFork

theorem append_cons_inj {α : Type} {before before' after after' : List α} {mark : α}
    (hafter : mark ∉ after) (hafter' : mark ∉ after') :
    before ++ mark :: after = before' ++ mark :: after' ↔ before = before' ∧ after = after' := by
  constructor
  · intro h
    rcases List.append_eq_append_iff.mp h with ⟨more, hbefore, hrest⟩ | ⟨more, hbefore, hrest⟩
    all_goals
      cases more with
      | nil =>
        rw [List.nil_append, List.cons.injEq] at hrest
        simp [hbefore, hrest.2]
      | cons first more =>
        -- Otherwise one of the marks would stand behind the other one.
        rw [List.cons_append, List.cons.injEq] at hrest
        simp [hrest.2] at hafter hafter'
  · rintro ⟨rfl, rfl⟩
    rfl

namespace DeviceId

variable {byte byte' : UInt8} {bytes bytes' : Bytes} {c : Char} {text : List Char}

/-! One byte. -/

theorem toNat_ofNat (byte : UInt8) : (Char.ofNat byte.toNat).toNat = byte.toNat := by
  have hvalid : byte.toNat.isValidChar := .inl (Nat.lt_trans byte.toNat_lt (by decide))
  rw [Char.ofNat, dif_pos hvalid]
  rfl

theorem digitChar_inj {m n : Nat} (hm : m < 16) (hn : n < 16) (h : m.digitChar = n.digitChar) :
    m = n := by
  have hdigits : ∀ i j : Fin 16, i.val.digitChar = j.val.digitChar → i = j := by decide
  exact congrArg Fin.val (hdigits ⟨m, hm⟩ ⟨n, hn⟩ h)

theorem showByte_inj : showByte byte = showByte byte' ↔ byte = byte' := by
  constructor
  · intro h
    have hlt := byte.toNat_lt
    have hlt' := byte'.toNat_lt
    apply UInt8.toNat_inj.mp
    unfold showByte at h
    split at h
    · split at h
      · have hchar := congrArg Char.toNat (List.cons.inj h).1
        rwa [toNat_ofNat, toNat_ofNat] at hchar
      · simp at h
    · split at h
      · simp at h
      · simp only [List.cons.injEq, true_and, and_true] at h
        have hhigh := digitChar_inj (by omega) (by omega) h.1
        have hlow := digitChar_inj (by omega) (by omega) h.2
        omega
  · exact congrArg showByte

theorem showByte_ne_nil (byte : UInt8) : showByte byte ≠ [] := by
  unfold showByte
  split <;> simp

/-! The bytes of a kind. -/

theorem flatMap_showByte_eq_nil : bytes.flatMap showByte = [] ↔ bytes = [] := by
  cases bytes with
  | nil => simp
  | cons byte rest => simp [showByte_ne_nil]

theorem exists_of_flatMap_showByte_eq_cons (hc : c ≠ '\\')
    (h : bytes.flatMap showByte = c :: text) :
    ∃ byte rest, bytes = byte :: rest ∧ rest.flatMap showByte = text := by
  cases bytes with
  | nil => simp at h
  | cons byte rest =>
    refine ⟨byte, rest, rfl, ?_⟩
    rw [List.flatMap_cons, showByte] at h
    split at h
    · exact (List.cons.inj h).2
    · exact absurd (List.cons.inj h).1.symm hc

theorem three_lt_of_spelled {high low : Nat} (hlength : bytes.length = bytes'.length)
    (h : bytes.flatMap showByte = 'x' :: high.digitChar :: low.digitChar :: bytes'.flatMap showByte) :
    3 < bytes.length := by
  have hdigit (n : Nat) : n.digitChar ≠ '\\' := Nat.digitChar_ne '\\' (by decide)
  obtain ⟨_, bytes₁, rfl, h₁⟩ := exists_of_flatMap_showByte_eq_cons (by decide) h
  obtain ⟨_, bytes₂, rfl, h₂⟩ := exists_of_flatMap_showByte_eq_cons (hdigit high) h₁
  obtain ⟨_, bytes₃, rfl, h₃⟩ := exists_of_flatMap_showByte_eq_cons (hdigit low) h₂
  have hpos : bytes₃ ≠ [] := by
    rintro rfl
    rw [List.flatMap_nil, eq_comm, flatMap_showByte_eq_nil] at h₃
    simp [h₃] at hlength
  have := List.length_pos_iff.mpr hpos
  simp only [List.length_cons]
  omega

theorem isGraphic_of_showByte_append (hlength : bytes.length = bytes'.length)
    (hfour : bytes.length < 4) (hgraphic : isGraphic byte)
    (h : showByte byte ++ bytes.flatMap showByte = showByte byte' ++ bytes'.flatMap showByte) :
    isGraphic byte' := by
  rw [showByte, showByte, if_pos hgraphic] at h
  split at h
  · assumption
  · have hthree := three_lt_of_spelled hlength (List.cons.inj h).2
    omega

theorem flatMap_showByte_inj (hlength : bytes.length = bytes'.length) (hfour : bytes.length ≤ 4)
    (h : bytes.flatMap showByte = bytes'.flatMap showByte) : bytes = bytes' := by
  induction bytes generalizing bytes' with
  | nil => exact (List.length_eq_zero_iff.mp hlength.symm).symm
  | cons byte rest ih =>
    cases bytes' with
    | nil => contradiction
    | cons byte' rest' =>
      rw [List.length_cons, List.length_cons, Nat.add_right_cancel_iff] at hlength
      rw [List.length_cons] at hfour
      rw [List.flatMap_cons, List.flatMap_cons] at h
      have hgraphic : isGraphic byte ↔ isGraphic byte' := by
        constructor
        · intro hgraphic
          exact isGraphic_of_showByte_append hlength (by omega) hgraphic h
        · intro hgraphic
          exact isGraphic_of_showByte_append hlength.symm (by omega) hgraphic h.symm
      have hwidth : (showByte byte).length = (showByte byte').length := by
        simp only [showByte, hgraphic]
        split <;> rfl
      obtain ⟨hbyte, hrest⟩ := List.append_inj h hwidth
      rw [showByte_inj.mp hbyte, ih hlength (by omega) hrest]

-- Five bytes would be too many: what is spelled out and what is escaped could change places.
example :
    [0, 0x5c, 0x78, 0x30, 0x30].flatMap showByte = [0x5c, 0x78, 0x30, 0x30, 0].flatMap showByte := by
  decide

/-! Whole identities. -/

theorem mark_not_mem_toDigits (n : Nat) : '#' ∉ Nat.toDigits 10 n := by
  intro hmem
  have := Nat.isDigit_of_mem_toDigits (by omega) (by omega) hmem
  contradiction

theorem toDigits_inj {m n : Nat} (h : Nat.toDigits 10 m = Nat.toDigits 10 n) : m = n := by
  have hread := congrArg Text.Decimal.digits? h
  rwa [Text.Decimal.digits?_toDigits, Text.Decimal.digits?_toDigits, Option.some.injEq] at hread

theorem toBytes_inj {kind kind' : Kind} (h : kind.toBytes = kind'.toBytes) : kind = kind' := by
  rw [← Kind.ofBytes_toBytes kind, h, Kind.ofBytes_toBytes]

/--
The text of an identity says which identity it is, even though a backslash is shown as itself and a
kind may contain the mark that stands before the number.
-/
theorem toString_eq_iff (a b : DeviceId) : toString a = toString b ↔ a = b := by
  constructor
  · intro h
    have hchars : a.toChars = b.toChars := String.ofList_inj.mp h
    obtain ⟨hkind, hnumber⟩ := (append_cons_inj (mark_not_mem_toDigits a.number.toNat)
      (mark_not_mem_toDigits b.number.toNat)).mp hchars
    have hbytes : a.kind.toBytes = b.kind.toBytes :=
      flatMap_showByte_inj rfl (Nat.le_refl 4) hkind
    obtain ⟨kind, number⟩ := a
    obtain ⟨kind', number'⟩ := b
    obtain rfl : kind = kind' := toBytes_inj hbytes
    obtain rfl : number = number' := UInt16.toNat_inj.mp (toDigits_inj hnumber)
    rfl
  · exact congrArg toString

end DeviceId

end MachineFork
