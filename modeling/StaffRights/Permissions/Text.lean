import StaffRights.Permissions.Basic
import StaffRights.Text.Pieces

/-!
# The text form of permissions

A set is written as the names of its flags, in the order of their bits, joined by bars; a bit
without a name follows in hexadecimal. Reading takes names and hexadecimal numbers in any order
and keeps unnamed bits.
-/

namespace StaffRights.Permissions

/-- The bits that no flag names. -/
def unnamed (p : Permissions) : Permissions := ⟨p.bits &&& ~~~full.bits⟩

/-- A number in hexadecimal, without leading zeros. -/
def hexText (n : Nat) : String := "0x" ++ String.ofList (Nat.toDigits 16 n)

/-- The names of the flags a set holds, then its unnamed bits. -/
def words (p : Permissions) : List String :=
  (Flag.all.filter p.holds).map Flag.name ++
    if p.unnamed = ∅ then [] else [hexText p.unnamed.stored]

/-- The text form; the empty set is the empty text. -/
def text (p : Permissions) : String := " | ".intercalate p.words

/-- The text form under the heading that diagnostics use; there the empty set is a zero. -/
def diagnostic (p : Permissions) : String :=
  "StaffPermissions(" ++ (if p = ∅ then hexText 0 else p.text) ++ ")"

/-- Why a text is no set of permissions. -/
inductive TextError where
  | emptyWord
  | badNumber
  | unknownName
  deriving DecidableEq, Repr

/-- The wording of a refusal. -/
def TextError.message : TextError → String
  | .emptyWord => "encountered empty flag"
  | .badNumber => "invalid hex flag"
  | .unknownName => "unrecognized named flag"

/-- Reads one word of the text form. -/
def ofWord (word : List Char) : Except TextError Permissions :=
  match word with
  | [] => .error .emptyWord
  | '0' :: 'x' :: digits =>
    match Text.unsigned? 16 Text.hexDigit? 256 digits with
    | some n => .ok ⟨BitVec.ofNat 8 n⟩
    | none => .error .badNumber
  | _ =>
    match Flag.ofName? (String.ofList word) with
    | some f => .ok (single f)
    | none => .error .unknownName

/-- Reads the text form; blank characters around words are dropped. -/
def ofText (s : String) : Except TextError Permissions :=
  if (Text.trim s.toList).isEmpty then .ok ∅
  else (((Text.pieces '|' s.toList).map Text.trim).mapM ofWord).map union

end StaffRights.Permissions
