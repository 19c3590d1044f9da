import StaffRights.Hierarchy.Basic
import StaffRights.Invalidation
import StaffRights.Refusal

/-!
# Attempts

A change to a hierarchy is attempted: it answers with an outcome or a refusal, and beside either
stands the hierarchy as the attempt left it. Changes are written over whatever operations on links
and staff they are given (`Primitives`), one step of a monad each, and hierarchies are changed with
their own (`plain`).

Reference: `SPEC_FULL.md` 10.7, as far as all changes have it in common.
-/

namespace StaffRights

/-- The answer to an attempted change, and the hierarchy it left behind. -/
structure Attempt (α : Type) where
  answer : Except Refusal (Outcome α)
  after : Hierarchy

namespace Attempt

variable {α β : Type}

/-- Turned down; the hierarchy is as given. -/
def refuse (r : Refusal) (h : Hierarchy) : Attempt α := ⟨.error r, h⟩

/-- Carried out. -/
def done (value : α) (events : List Invalidation) (stale : Stale) (h : Hierarchy) : Attempt α :=
  ⟨.ok ⟨value, events, stale⟩, h⟩

/-- Goes on with the result of a check on `h`, or is turned down with the check's refusal. -/
def guarded (h : Hierarchy) (check : Except Refusal β) (next : β → Attempt α) : Attempt α :=
  match check with
  | .error r => refuse r h
  | .ok b => next b

end Attempt

/-- Operations on links and staff, as steps of a monad. -/
structure Primitives (M : Type → Type) where
  attach : Hierarchy → Entity → Option Entity → M Hierarchy
  detach : Hierarchy → EntityId → M (Option Node × Hierarchy)
  relink : Hierarchy → EntityId → Entity → M Hierarchy
  putMembership : Hierarchy → Membership → M Hierarchy
  dropMembership : Hierarchy → MembershipId → M (Option Membership × Hierarchy)

namespace Primitives

/-- The operations of a hierarchy, in any monad. -/
def plain {M : Type → Type} [Monad M] : Primitives M where
  attach h e parent := pure (h.attach e parent)
  detach h id := pure (h.detach id)
  relink h id parent := pure (h.relink id parent)
  putMembership h m := pure (h.putMembership m)
  dropMembership h mid := pure (h.dropMembership mid)

end Primitives

end StaffRights
