import StaffRights.Tree.Basic

/-!
# Branches

The branch of an entity consists of the entity, the chain of entities above it and everything below
it. Siblings, whether of the entity or of those above it, are not part of the branch.

Reference: `SPEC_FULL.md` 4.3 and 10.5 (`branch_of`, `staff_memberships_in_branch`,
`administrable_scope`).
-/

namespace StaffRights

/-- The directions in which a branch is followed from its entity. -/
structure Reach where
  ancestors : Bool
  descendants : Bool
  deriving DecidableEq, Repr

namespace Reach

/-- Both directions. -/
def full : Reach := ⟨true, true⟩

/-- The entity and the chain above it. -/
def upward : Reach := ⟨true, false⟩

/-- The entity and everything below it. -/
def downward : Reach := ⟨false, true⟩

/-- The entity alone. -/
def here : Reach := ⟨false, false⟩

end Reach

namespace Tree

/-- Follows a branch through at most `n` nested steps: the entity, then those above it, then those
below it in depth-first order. -/
def walkWithin (t : Tree) : Nat → Entity → Reach → Option (List Entity)
  | 0, _, _ => none
  | n + 1, e, reach => do
    let above ← match reach.ancestors, t.parent e.id with
      | true, some p => t.walkWithin n p .upward
      | _, _ => some []
    let below ← if reach.descendants then
        (t.children e.id).mapM fun c => t.walkWithin n c .downward
      else some []
    return e :: (above ++ below.flatten)

/-- The branch of an entity, the entity first; an unknown id has none. -/
def branch (t : Tree) (id : EntityId) (reach : Reach) : List Entity :=
  match t.entity id with
  | some e => (t.walkWithin t.bound e reach).getD []
  | none => []

/-- The institution at the root of an entity's branch. -/
def institution? (t : Tree) (id : EntityId) : Option Entity :=
  (t.branch id .upward).getLast?.filter (·.kind == .institution)

/-- The memberships of a user anywhere in the branch of an entity. -/
def staffInBranch (t : Tree) (id : EntityId) (user : UserId) : List Membership :=
  ((t.branch id .full).flatMap fun e => t.staff e.id).filter (·.user == user)

/-- The entities whose staff a user may administrate, each once: everything below the entities on
which a membership of the user says so. -/
def administrable (t : Tree) (user : UserId) : List Entity :=
  (((t.heldBy user).filter (·.permissions.has (.single .administrateUsers))).flatMap
    fun m => t.branch m.entity.id .downward).eraseDups

end Tree

end StaffRights
