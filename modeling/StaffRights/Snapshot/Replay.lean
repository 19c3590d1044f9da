import StaffRights.Hierarchy.Entities
import StaffRights.Hierarchy.Staff
import StaffRights.Snapshot.Basic

/-!
# Replaying snapshots

A snapshot is turned into a hierarchy by the changes that would have made it: entities are inserted
level by level, so that they may be listed in any order, and memberships after them. A snapshot that
breaks a rule of these changes is refused.

Reference: `SPEC_FULL.md` 10.13 (`HierarchySnapshot`, loading).
-/

namespace StaffRights

/-- The record of a snapshot that was turned down, and why. -/
inductive ReplayError where
  | entity (id : EntityId) (cause : Refusal)
  | membership (id : MembershipId) (cause : Refusal)
  deriving DecidableEq, Repr

namespace ReplayError

/-- The wording of a refusal. -/
def message : ReplayError → String
  | .entity id cause => "Invalid entity " ++ id.text ++ ": " ++ cause.message
  | .membership id cause => "Invalid membership " ++ id.text ++ ": " ++ cause.message

/-- Why the record was turned down. -/
def cause : ReplayError → Refusal
  | .entity _ cause => cause
  | .membership _ cause => cause

end ReplayError

namespace Attempt

variable {α : Type}

/-- The hierarchy that a change which was carried out leaves behind. -/
def committed (a : Attempt α) : Except Refusal Hierarchy := a.answer.map fun _ => a.after

end Attempt

namespace Snapshot

/-- Inserts an entity of a snapshot. -/
def replayEntity (h : Hierarchy) (r : EntityRecord) : Except ReplayError Hierarchy :=
  Except.mapError (.entity r.id) do
    let h ← (h.insertEntity r.entity r.parent).committed
    (h.setAwarded r.id r.awarded).committed

/-- Inserts a membership of a snapshot. -/
def replayMembership (h : Hierarchy) (r : MembershipRecord) : Except ReplayError Hierarchy :=
  Except.mapError (.membership r.id) <|
    match h.tree.entity r.entity with
    | none => .error .notFound
    | some e =>
      (h.insertMembership ⟨r.id, r.user, e, r.permissions.permissions, r.grantedBy⟩).committed

/-- Is the first entity on the same level as the second or on a higher one? -/
def notBelow (a b : EntityRecord) : Bool := a.kind.depth ≤ b.kind.depth

/-- The hierarchy of a snapshot. -/
def toHierarchy (s : Snapshot) : Except ReplayError Hierarchy := do
  let h ← (s.entities.mergeSort notBelow).foldlM replayEntity ∅
  s.memberships.foldlM replayMembership h

end Snapshot

end StaffRights
