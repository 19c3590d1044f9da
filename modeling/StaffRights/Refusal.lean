import StaffRights.Entity
import StaffRights.Permissions.Basic

/-!
# Refusals

Every way in which a request can be turned down. A target out of the actor's reach is refused like
one that does not exist.

Reference: `SPEC_FULL.md` 7 and 10.10 (`StaffError`).
-/

namespace StaffRights

/-- Why a request was turned down. -/
inductive Refusal where
  /-- The target does not exist, or the actor may not see it. -/
  | notFound
  /-- The actor lacks some of the permissions to be granted. -/
  | escalation (missing : Permissions)
  | conflictingMembership
  /-- An institution keeps its last membership. -/
  | lastMembership
  /-- Credentials were awarded below the entity to be deleted. -/
  | awarded (kind : Kind)
  | outsideInstitution
  | wrongParent (child parent : Kind)
  | parentRequired (kind : Kind)
  | alreadyExists
  deriving DecidableEq, Repr

namespace Refusal

/-- The wording of a refusal. -/
def message : Refusal → String
  | .notFound => "Not found"
  | .escalation _ => "May not assign permissions that you don't have yourself"
  | .conflictingMembership =>
    "Cannot save staff membership, there is a conflicting staff membership."
  | .lastMembership => "Cannot remove the last staff membership of this institution."
  | .awarded kind => kind.title ++ " may only be deleted if there are no awarded Assertions."
  | .outsideInstitution => "User is not a member of this institution."
  | .wrongParent child parent => child.title ++ " cannot be placed below " ++ parent.title ++ "."
  | .parentRequired kind => kind.title ++ " requires a parent."
  | .alreadyExists => "Entity already exists."

/-- Is the submitted data at fault, rather than the actor's reach or the state of the target? -/
def isValidation : Refusal → Bool
  | .notFound => false
  | .awarded _ => false
  | _ => true

/-- The status code of the reply. -/
def status : Refusal → Nat
  | .notFound => 404
  | .awarded _ => 409
  | _ => 400

end Refusal

end StaffRights
