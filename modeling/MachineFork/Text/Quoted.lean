import MachineFork.Text.NonPrinting
import MachineFork.Text.Combining

/-!
This module contains the quoted form of a text: in double quotes, with an escape for every
character that would be invisible, would join its neighbour or would end the quotation.
-/

namespace MachineFork.Text

def codePointEscape (c : Char) : List Char :=
  ['\\', 'u', '\x7b'] ++ Nat.toDigits 16 c.toNat ++ ['\x7d']

def quoteChar (c : Char) : List Char :=
  match c with
  | '\x00' => ['\\', '0']
  | '\t' => ['\\', 't']
  | '\n' => ['\\', 'n']
  | '\r' => ['\\', 'r']
  | '"' => ['\\', '"']
  | '\\' => ['\\', '\\']
  | c => if isCombining c || isNonPrinting c then codePointEscape c else [c]

def quote (text : List Char) : List Char :=
  ['"'] ++ text.flatMap quoteChar ++ ['"']

end MachineFork.Text
