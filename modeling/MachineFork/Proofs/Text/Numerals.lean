import Mathlib.Data.List.Induction
import MachineFork.Text.Blank
import MachineFork.Text.Decimal

/-!
This module contains what a text with a number in it looks like: white space, perhaps a plus sign,
digits and again white space. Exactly such texts are read, as the number that the digits denote.
-/

namespace MachineFork.Text

variable {text before after : List Char} {limit n : Nat}

/-! White space. -/

theorem exists_trim (text : List Char) :
    ∃ before after, text = before ++ trim text ++ after ∧
      (∀ c ∈ before, isBlank c) ∧ ∀ c ∈ after, isBlank c := by
  have hblank {c : Char} {l : List Char} (h : c ∈ l.takeWhile isBlank) : isBlank c :=
    List.all_eq_true.mp List.all_takeWhile c h
  generalize hrest : text.dropWhile isBlank = rest
  refine ⟨text.takeWhile isBlank, (rest.reverse.takeWhile isBlank).reverse, ?_, ?_, ?_⟩
  · have hsplit : rest = trim text ++ (rest.reverse.takeWhile isBlank).reverse := by
      rw [trim, hrest, ← List.reverse_append, List.takeWhile_append_dropWhile, List.reverse_reverse]
    rw [List.append_assoc, ← hsplit, ← hrest, List.takeWhile_append_dropWhile]
  · exact fun c h => hblank h
  · exact fun c h => hblank (List.mem_reverse.mp h)

theorem dropWhile_isBlank_append (hbefore : ∀ c ∈ before, isBlank c)
    (htext : ∀ c ∈ text, isBlank c = false) : (before ++ text).dropWhile isBlank = text := by
  rw [List.dropWhile_append_of_pos hbefore]
  cases text with
  | nil => rfl
  | cons c rest => rw [List.dropWhile_cons_of_neg (by simp [htext])]

theorem trim_append (hbefore : ∀ c ∈ before, isBlank c) (hafter : ∀ c ∈ after, isBlank c)
    (htext : ∀ c ∈ text, isBlank c = false) : trim (before ++ text ++ after) = text := by
  have hbehind : (after.reverse ++ text.reverse).dropWhile isBlank = text.reverse :=
    dropWhile_isBlank_append (by simpa using hafter) (by simpa using htext)
  unfold trim
  rw [List.append_assoc, List.dropWhile_append_of_pos hbefore]
  cases text with
  | nil =>
    have hnothing : (after ++ []).dropWhile isBlank = [] :=
      dropWhile_isBlank_append hafter (by simp)
    rw [List.nil_append, ← List.append_nil after, hnothing]
    rfl
  | cons c rest =>
    rw [List.cons_append, List.dropWhile_cons_of_neg (by simp [htext]), ← List.cons_append,
      List.reverse_append, hbehind, List.reverse_reverse]

/-! Digits. -/

namespace Decimal

inductive Digits : List Char → Nat → Prop
  | single (digit : Fin 10) : Digits [digit.val.digitChar] digit
  | snoc {text : List Char} {n : Nat} (front : Digits text n) (digit : Fin 10) :
    Digits (text ++ [digit.val.digitChar]) (10 * n + digit)

inductive Unsigned : List Char → Nat → Prop
  | bare {text : List Char} {n : Nat} (digits : Digits text n) : Unsigned text n
  | plus {text : List Char} {n : Nat} (digits : Digits text n) : Unsigned ('+' :: text) n

theorem exists_digitChar {c : Char} (h : c.isDigit) :
    ∃ digit : Fin 10, digit.val.digitChar = c := by
  obtain ⟨hlow, hhigh⟩ := Char.isDigit_iff_toNat.mp h
  have hlt : c.toNat - '0'.toNat < 10 := by
    have : '9'.toNat = '0'.toNat + 9 := rfl
    omega
  refine ⟨⟨c.toNat - '0'.toNat, hlt⟩, Char.toNat_inj.mp ?_⟩
  rw [Nat.toNat_digitChar_of_lt_ten hlt]
  exact Nat.add_sub_of_le hlow

theorem ofDigitChars_snoc (text : List Char) (digit : Fin 10) :
    Nat.ofDigitChars 10 (text ++ [digit.val.digitChar]) 0
      =
    10 * Nat.ofDigitChars 10 text 0 + digit := by
  rw [Nat.ofDigitChars_append, Nat.ofDigitChars_cons_digitChar_of_lt_ten digit.isLt,
    Nat.ofDigitChars_nil]

theorem Digits.all_isDigit (h : Digits text n) : ∀ c ∈ text, c.isDigit := by
  induction h with
  | single digit => simp [Nat.isDigit_digitChar]
  | snoc front digit ih =>
    intro c hmem
    rcases List.mem_append.mp hmem with hmem | hmem
    · exact ih c hmem
    · rw [List.mem_singleton.mp hmem]
      simp [Nat.isDigit_digitChar]

theorem Digits.ofDigitChars_eq (h : Digits text n) : Nat.ofDigitChars 10 text 0 = n := by
  induction h with
  | single digit => simpa using ofDigitChars_snoc [] digit
  | snoc front digit ih => rw [ofDigitChars_snoc, ih]

theorem Digits.ne_nil (h : Digits text n) : text ≠ [] := by
  cases h <;> simp

theorem digits_ofDigitChars (hne : text ≠ []) (hall : ∀ c ∈ text, c.isDigit) :
    Digits text (Nat.ofDigitChars 10 text 0) := by
  induction text using List.reverseRecOn with
  | nil => contradiction
  | append_singleton front c ih =>
    obtain ⟨digit, rfl⟩ := exists_digitChar (hall c (by simp))
    rw [ofDigitChars_snoc]
    by_cases hfront : front = []
    · subst hfront
      simpa using Digits.single digit
    · exact .snoc (ih hfront fun c hmem => hall c (List.mem_append_left _ hmem)) digit

theorem digits?_eq_some_iff : digits? text = some n ↔ Digits text n := by
  unfold digits?
  constructor
  · intro h
    split at h
    · next hdigits =>
      simp only [Bool.and_eq_true, Bool.not_eq_true', List.isEmpty_eq_false_iff,
        List.all_eq_true] at hdigits
      rw [← Option.some.inj h]
      exact digits_ofDigitChars hdigits.1 hdigits.2
    · contradiction
  · intro h
    rw [if_pos, h.ofDigitChars_eq]
    simpa [h.ne_nil] using h.all_isDigit

theorem Digits.head_ne_plus (h : Digits text n) : ∀ rest, text ≠ '+' :: rest := by
  rintro rest rfl
  have := h.all_isDigit '+' (by simp)
  contradiction

theorem unsigned?_eq_some_iff : unsigned? limit text = some n ↔ Unsigned text n ∧ n < limit := by
  unfold unsigned?
  simp only [Option.filter_eq_some_iff, decide_eq_true_eq, digits?_eq_some_iff]
  apply and_congr_left'
  split
  · next rest =>
    constructor
    · exact .plus
    · intro h
      cases h with
      | bare digits => exact absurd rfl (digits.head_ne_plus rest)
      | plus digits => exact digits
  · next hplus =>
    constructor
    · exact .bare
    · intro h
      cases h with
      | bare digits => exact digits
      | plus digits => exact absurd rfl (hplus _)

theorem Unsigned.not_isBlank (h : Unsigned text n) : ∀ c ∈ text, isBlank c = false := by
  have hdigits {text : List Char} {n : Nat} (digits : Digits text n) :
      ∀ c ∈ text, isBlank c = false := by
    intro c hmem
    have hdigit : ∀ digit : Fin 10, isBlank digit.val.digitChar = false := by decide
    obtain ⟨digit, rfl⟩ := exists_digitChar (digits.all_isDigit c hmem)
    exact hdigit digit
  cases h with
  | bare digits => exact hdigits digits
  | plus digits => exact List.forall_mem_cons.mpr ⟨by decide, hdigits digits⟩

end Decimal

def Holds (text : List Char) (n : Nat) : Prop :=
  ∃ before numeral after, text = before ++ numeral ++ after ∧
    (∀ c ∈ before, isBlank c) ∧ (∀ c ∈ after, isBlank c) ∧ Decimal.Unsigned numeral n

theorem unsigned?_trim_eq_some_iff :
    Decimal.unsigned? limit (trim text) = some n ↔ Holds text n ∧ n < limit := by
  rw [Decimal.unsigned?_eq_some_iff]
  apply and_congr_left'
  constructor
  · intro h
    obtain ⟨before, after, htext, hbefore, hafter⟩ := exists_trim text
    exact ⟨before, trim text, after, htext, hbefore, hafter, h⟩
  · rintro ⟨before, numeral, after, rfl, hbefore, hafter, h⟩
    rwa [trim_append hbefore hafter h.not_isBlank]

end MachineFork.Text
