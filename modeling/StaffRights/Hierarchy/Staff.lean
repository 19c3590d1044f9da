import StaffRights.Hierarchy.Attempt
import StaffRights.Tree.Branch

/-!
# Changes to memberships

A user holds at most one membership in the branch of any entity, so a grant conflicts with another
membership of the user on the entity, above it or below it. The last membership on an institution
stays.

Reference: `SPEC_FULL.md` 4.4 and 10.7 (`insert_membership`, `update_membership`,
`remove_membership`).
-/

namespace StaffRights

namespace Hierarchy

/-- Has the user a membership in the branch of the entity, apart from the one being edited? -/
def conflicts (h : Hierarchy) (id : EntityId) (user : UserId) (editing : Option MembershipId) :
    Bool :=
  (h.tree.staffInBranch id user).any fun m => some m.id ≠ editing

/-- The events of a change to the staff of an entity. -/
def staffChanged (m : Membership) (h : Hierarchy) : Attempt Membership :=
  .done m [⟨m.entity⟩] (.user m.user) h

end Hierarchy

/-! ## Changes over given operations -/

namespace Primitives

open Hierarchy (staffChanged)

variable {M : Type → Type} [Monad M] (P : Primitives M)

/-- Stores a new membership. -/
def insertMembership (h : Hierarchy) (m : Membership) : M (Attempt Membership) :=
  if h.tree.entity m.entity.id ≠ some m.entity then return .refuse .notFound h
  else if (h.membership? m.id).isSome then return .refuse .conflictingMembership h
  else if h.conflicts m.entity.id m.user none then return .refuse .conflictingMembership h
  else return staffChanged m (← P.putMembership h m)

/-- Replaces the permissions of a membership. -/
def updateMembership (h : Hierarchy) (id : MembershipId) (permissions : Permissions) :
    M (Attempt Membership) :=
  match h.membership? id with
  | none => return .refuse .notFound h
  | some m =>
    if h.conflicts m.entity.id m.user (some id) then return .refuse .conflictingMembership h
    else do
      let m := { m with permissions := permissions }
      return staffChanged m (← P.putMembership h m)

/-- Removes a membership, unless it is the last one on its institution. -/
def removeMembership (h : Hierarchy) (id : MembershipId) : M (Attempt Membership) :=
  match h.membership? id with
  | none => return .refuse .notFound h
  | some m =>
    if m.entity.kind = .institution ∧ (h.tree.staff m.entity.id).length ≤ 1 then
      return .refuse .lastMembership h
    else do
      match ← P.dropMembership h id with
      | (none, after) => return .refuse .notFound after
      | (some dropped, after) => return .done dropped [⟨m.entity⟩] (.user dropped.user) after

end Primitives

/-! ## Changes to a hierarchy -/

namespace Hierarchy

variable (h : Hierarchy)

@[inherit_doc Primitives.insertMembership]
def insertMembership (m : Membership) : Attempt Membership :=
  Id.run (Primitives.plain.insertMembership h m)

@[inherit_doc Primitives.updateMembership]
def updateMembership (id : MembershipId) (permissions : Permissions) : Attempt Membership :=
  Id.run (Primitives.plain.updateMembership h id permissions)

@[inherit_doc Primitives.removeMembership]
def removeMembership (id : MembershipId) : Attempt Membership :=
  Id.run (Primitives.plain.removeMembership h id)

/-! ## What each change comes to -/

/-- What passes all checks is put on the staff. -/
theorem insertMembership_eq (m : Membership) :
    h.insertMembership m =
      if h.tree.entity m.entity.id ≠ some m.entity then .refuse .notFound h
      else if (h.membership? m.id).isSome then .refuse .conflictingMembership h
      else if h.conflicts m.entity.id m.user none then .refuse .conflictingMembership h
      else staffChanged m (h.putMembership m) := rfl

/-- The membership is put again, with the permissions. -/
theorem updateMembership_eq (id : MembershipId) (permissions : Permissions) :
    h.updateMembership id permissions =
      match h.membership? id with
      | none => .refuse .notFound h
      | some m =>
        if h.conflicts m.entity.id m.user (some id) then .refuse .conflictingMembership h
        else
          let m := { m with permissions := permissions }
          staffChanged m (h.putMembership m) := rfl

/-- What is there and may go is dropped. -/
theorem removeMembership_eq (id : MembershipId) :
    h.removeMembership id =
      match h.membership? id with
      | none => .refuse .notFound h
      | some m =>
        if m.entity.kind = .institution ∧ (h.tree.staff m.entity.id).length ≤ 1 then
          .refuse .lastMembership h
        else
          match h.dropMembership id with
          | (none, after) => .refuse .notFound after
          | (some dropped, after) => .done dropped [⟨m.entity⟩] (.user dropped.user) after := rfl

end Hierarchy

end StaffRights
