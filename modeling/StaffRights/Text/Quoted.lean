import StaffRights.Text.Graphic

/-!
# Quoted text

Text in double quotes, as messages show it: graphic characters stand for themselves, but for the
quote and the backslash; the rest is escaped, most of it by code point in hexadecimal.
-/

namespace StaffRights.Text.Quoted

/-- The letter after the backslash in a short escape. -/
def letter? : Char → Option Char
  | '\x00' => some '0'
  | '\t' => some 't'
  | '\r' => some 'r'
  | '\n' => some 'n'
  | '"' => some '"'
  | '\\' => some '\\'
  | _ => none

/-- How one character is written between quotes. -/
def ofChar (c : Char) : List Char :=
  match letter? c with
  | some l => ['\\', l]
  | none =>
    if isGraphic c then [c]
    else "\\u\x7b".toList ++ Nat.toDigits 16 c.toNat ++ ['}']

/-- The text in quotes. -/
def encode (cs : List Char) : List Char := '"' :: cs.flatMap ofChar ++ ['"']

end StaffRights.Text.Quoted
