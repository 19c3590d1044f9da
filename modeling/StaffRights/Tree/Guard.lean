import StaffRights.Refusal
import StaffRights.Tree.Branch
import StaffRights.Tree.Rights

/-!
# Guards

Checks that stand before a request is carried out. Lacking authority over a target is reported as if
the target did not exist, so that nobody learns of entities out of reach.

Reference: `SPEC_FULL.md` 4.2 and 10.6 (`require_permissions`, `can_assign`).
-/

namespace StaffRights.Tree

variable (t : Tree)

/-- The target, if the actor may do all that is required on it. -/
def require (actor : User) (target : EntityId) (required : Permissions) : Except Refusal Entity :=
  match t.entity target with
  | none => .error .notFound
  | some e => if (t.rights target actor).has required then .ok e else .error .notFound

/-- May the actor grant `requested` on the target? The actor must administrate its users and hold
everything that is granted; unnamed bits are not asked for. -/
def mayGrant (actor : User) (target : EntityId) (requested : Permissions) :
    Except Refusal Unit := do
  let _ ← t.require actor target (.single .administrateUsers)
  let missing := requested ∩ (t.rights target actor).complement
  if missing = ∅ then .ok () else .error (.escalation missing)

/-- May the recipient hold a membership on the target? Only teachers of its institution may. -/
def mayReceive (recipient : User) (target : EntityId) : Except Refusal Unit :=
  match t.institution? target with
  | none => .error .notFound
  | some institution =>
    if recipient.belongsTo institution.id then .ok () else .error .outsideInstitution

end StaffRights.Tree
