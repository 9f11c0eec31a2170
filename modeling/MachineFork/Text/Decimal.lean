/-!
This module contains the reading of decimal numerals. A numeral is one or more ASCII digits, with
any number of leading zeroes; which signs may stand before it depends on the number's kind.
-/

namespace MachineFork.Text

namespace Decimal

def digits? (text : List Char) : Option Nat :=
  if !text.isEmpty && text.all Char.isDigit then
    some (Nat.ofDigitChars 10 text 0)
  else
    none

def unsigned? (limit : Nat) (text : List Char) : Option Nat :=
  let numeral := match text with
    | '+' :: rest => rest
    | text => text
  (digits? numeral).filter (· < limit)

/--
Read a number below `limit` as one of a range of signed numbers, where zero may have a minus sign.
-/
def signed? (limit : Nat) (text : List Char) : Option Nat :=
  match text with
  | '-' :: numeral => (digits? numeral).filter (· = 0)
  | text => unsigned? limit text

end Decimal

theorem Decimal.digits?_toDigits (n : Nat) : Decimal.digits? (Nat.toDigits 10 n) = some n := by
  have hall : (Nat.toDigits 10 n).all Char.isDigit = true :=
    List.all_eq_true.mpr fun c hc => Nat.isDigit_of_mem_toDigits (by omega) (by omega) hc
  have hne : (Nat.toDigits 10 n).isEmpty = false := by simp
  simp [Decimal.digits?, hall, hne, Nat.ofDigitChars_toDigits]

end MachineFork.Text
