import StaffRights.Json.Basic
import StaffRights.Json.Decimal
import StaffRights.Text.Pieces

/-!
# Writing JSON

A document is written in one line without space, or over several lines with two spaces for each
level of nesting. An empty list or object is written without space in either layout.
-/

namespace StaffRights.Json.Printer

/-- The letter after the backslash in a short escape. -/
def letter? : Char → Option Char
  | '"' => some '"'
  | '\\' => some '\\'
  | '\x08' => some 'b'
  | '\x0c' => some 'f'
  | '\n' => some 'n'
  | '\r' => some 'r'
  | '\t' => some 't'
  | _ => none

/-- How one character of a string is written. -/
def ofChar (c : Char) : List Char :=
  match letter? c with
  | some l => ['\\', l]
  | none => if c.toNat < 0x20 then '\\' :: 'u' :: Text.hexDigits 4 c.toNat else [c]

/-- A string in quotes. -/
def string (s : String) : List Char := '"' :: s.toList.flatMap ofChar ++ ['"']

/-- How the parts of lists and objects are set. -/
structure Layout where
  /-- What stands before a part at the given level of nesting, and before a closing bracket. -/
  lineStart : Nat → List Char
  /-- What stands between a key and its value. -/
  colon : List Char

namespace Layout

/-- Everything in one line, without space. -/
def compact : Layout := ⟨fun _ => [], [':']⟩

/-- A line for each part, indented by two spaces for each level. -/
def pretty : Layout := ⟨fun level => '\n' :: List.replicate (2 * level) ' ', [':', ' ']⟩

/-- Puts parts between brackets, separated by commas; `level` is that of the list itself. -/
def enclose (layout : Layout) (level : Nat) (opening closing : Char) (parts : List (List Char)) :
    List Char :=
  if parts.isEmpty then [opening, closing]
  else
    opening :: [','].intercalate (parts.map (layout.lineStart (level + 1) ++ ·)) ++
      layout.lineStart level ++ [closing]

end Layout

mutual

/-- Writes a value at a level of nesting; where nothing can be read, nothing is written. -/
def value (layout : Layout) (level : Nat) : Json → List Char
  | .null => "null".toList
  | .bool b => if b then "true".toList else "false".toList
  | .int n => (toString n).toList
  | .float bits => (Decimal.text bits).toList
  | .str s => string s
  | .arr items => layout.enclose level '[' ']' (values layout (level + 1) items)
  | .obj ms => layout.enclose level '{' '}' (members layout (level + 1) ms)
  | .hole _ _ => []
  | .ragged ms _ _ => layout.enclose level '{' '}' (members layout (level + 1) ms)

/-- Writes the items of a list. -/
def values (layout : Layout) (level : Nat) : List Json → List (List Char)
  | [] => []
  | v :: vs => value layout level v :: values layout level vs

/-- Writes the members of an object. -/
def members (layout : Layout) (level : Nat) : List (String × Json) → List (List Char)
  | [] => []
  | (k, v) :: ms => (string k ++ layout.colon ++ value layout level v) :: members layout level ms

end

end Printer

/-- The document in one line. -/
def compact (v : Json) : String := String.ofList (Printer.value .compact 0 v)

/-- The document over several lines. -/
def pretty (v : Json) : String := String.ofList (Printer.value .pretty 0 v)

end StaffRights.Json
