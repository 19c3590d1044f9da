import StaffRights.Entity
import StaffRights.Permissions.Basic

/-!
# Users and memberships

A membership gives one user a set of permissions on one entity. Teachers have a home institution, to
which they belong; students belong to none. The time at which a membership was granted is left out:
it is written down, and nothing reads it.

Reference: `SPEC_FULL.md` 3 (data model) and 10.3 (`StaffMembership`).
-/

namespace StaffRights

/-- What permissions depend on in a user. -/
structure User where
  id : UserId
  institution : Option EntityId := none
  isTeacher : Bool := false
  deriving DecidableEq, Repr

namespace User

/-- A teacher at the given institution. -/
def teacher (id : UserId) (institution : EntityId) : User := ⟨id, some institution, true⟩

/-- A student. -/
def student (id : UserId) : User := ⟨id, none, false⟩

/-- Is the user a teacher of this institution? -/
def belongsTo (u : User) (institution : EntityId) : Bool :=
  u.isTeacher && u.institution == some institution

end User

/-- Permissions of one user on one entity, and who granted them. -/
structure Membership where
  id : MembershipId
  user : UserId
  entity : Entity
  permissions : Permissions
  grantedBy : Option UserId := none
  deriving DecidableEq, Repr

end StaffRights
