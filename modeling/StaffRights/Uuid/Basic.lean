import StaffRights.Text.Pieces

/-!
# Identifiers of 128 bits

A `Uuid` is a value of 128 bits. It is written as thirty-two lowercase hexadecimal digits in
groups of 8, 4, 4, 4 and 12, joined by hyphens.

Reference: `SPEC_FULL.md` 10.1 (identities).
-/

namespace StaffRights

/-- A universally unique identifier. -/
structure Uuid where
  bits : BitVec 128
  deriving DecidableEq, Repr

namespace Uuid

/-- The identifier whose 128-bit value is `n`. -/
def ofNat (n : Nat) : Uuid := ⟨BitVec.ofNat 128 n⟩

/-- The 128-bit value of an identifier. -/
def toNat (u : Uuid) : Nat := u.bits.toNat

/-- The sizes of the groups in the hyphenated form. -/
def groupSizes : List Nat := [8, 4, 4, 4, 12]

/-- Cuts a list into parts of the given sizes; what is left over is dropped. -/
def cut {α : Type} : List Nat → List α → List (List α)
  | [], _ => []
  | n :: sizes, xs => xs.take n :: cut sizes (xs.drop n)

/-- The hyphenated form, in lowercase. -/
def text (u : Uuid) : String :=
  String.ofList (['-'].intercalate (cut groupSizes (Text.hexDigits 32 u.toNat)))

instance : ToString Uuid := ⟨text⟩

end Uuid

end StaffRights
