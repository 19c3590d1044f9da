import StaffRights.Tree.Basic

/-!
# Rights

What a user may do on an entity: the permissions granted on the entity itself and on everything
above it. Teachers may moreover read their home institution, and with it everything below. A
permission held on an entity is therefore held on everything below it.

Reference: `SPEC_FULL.md` 4.1 and 10.4 (`staff_member`, `local_staff_members`,
`effective_permissions`, `has_permissions`).
-/

namespace StaffRights.Tree

variable (t : Tree)

/-- The membership of a user on the entity itself, the first if there are several. -/
def memberOn (id : EntityId) (user : UserId) : Option Membership :=
  (t.staff id).find? (·.user == user)

/-- The permissions granted on the entity itself. -/
def localRights (id : EntityId) (user : UserId) : Permissions :=
  match t.memberOn id user with
  | some m => m.permissions
  | none => ∅

/-- Does a membership on the entity itself hold all that is required? -/
def holdsLocally (id : EntityId) (user : UserId) (required : Permissions) : Bool :=
  (t.memberOn id user).any (·.permissions.has required)

/-- The memberships on the entity itself that hold all that is required. -/
def staffHolding (id : EntityId) (required : Permissions) : List Membership :=
  (t.staff id).filter (·.permissions.has required)

/-- What a user may do at the end of a chain without any membership: read the home institution. -/
def homeRights (id : EntityId) (user : User) : Permissions :=
  match t.entity id with
  | some e =>
    if e.kind = .institution ∧ user.belongsTo e.id then .single .read else ∅
  | none => ∅

/-- The rights on an entity whose chain of parents takes at most `n` nested steps. -/
def rightsWithin : Nat → EntityId → User → Option Permissions
  | 0, _, _ => none
  | n + 1, id, user =>
    match t.parent id with
    | some p => (rightsWithin n p.id user).map (t.localRights id user.id ∪ ·)
    | none => some (t.localRights id user.id ∪ t.homeRights id user)

/-- All that a user may do on an entity. -/
def rights (id : EntityId) (user : User) : Permissions :=
  (t.rightsWithin t.bound id user).getD ∅

/-- Does the entity exist, and may the user do all that is required on it? -/
def permits (id : EntityId) (user : User) (required : Permissions) : Bool :=
  (t.entity id).isSome && (t.rights id user).has required

end StaffRights.Tree
