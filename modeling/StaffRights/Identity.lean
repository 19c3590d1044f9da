import Std.Data.ExtTreeMap
import StaffRights.Uuid.Basic

/-!
# Identities

Users, entities and memberships are named by identifiers of three separate types, so that one is
never taken for another. Identities are ordered by their 128-bit value.

Reference: `SPEC_FULL.md` 10.1 (`UserId`, `EntityId`, `MembershipId`).
-/

namespace StaffRights

/-- What an identity names. -/
inductive Subject where
  | user
  | entity
  | membership
  deriving DecidableEq, Repr

/-- The identity of a user, an entity or a membership. -/
structure Id (subject : Subject) where
  uuid : Uuid
  deriving DecidableEq, Repr

abbrev UserId := Id .user
abbrev EntityId := Id .entity
abbrev MembershipId := Id .membership

namespace Id

variable {subject : Subject}

/-- The identity with the given 128-bit value. -/
def ofNat (n : Nat) : Id subject := ⟨.ofNat n⟩

/-- The hyphenated form of the identifier. -/
def text (id : Id subject) : String := id.uuid.text

instance : ToString (Id subject) := ⟨text⟩

instance : Ord (Id subject) := ⟨compareOn fun id => id.uuid.bits⟩

instance : Std.TransOrd (Id subject) :=
  inferInstanceAs (Std.TransCmp (compareOn fun id : Id subject => id.uuid.bits))

instance : Std.LawfulEqOrd (Id subject) where
  eq_of_compare {a b} h := by
    obtain ⟨⟨a⟩⟩ := a
    obtain ⟨⟨b⟩⟩ := b
    have : a = b := Std.LawfulEqOrd.eq_of_compare (α := BitVec 128) h
    rw [this]

end Id

end StaffRights
