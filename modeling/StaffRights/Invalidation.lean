import StaffRights.Staff

/-!
# Invalidations

A change to an entity makes what was derived from it elsewhere out of date. An `Invalidation` names
the entity to publish again; `Stale` says which resolved rights are no longer to be relied on.

Reference: `SPEC_FULL.md` 4.4 and 10.9 (`CacheEvent`).
-/

namespace StaffRights

/-- What was derived from the entity is out of date. -/
structure Invalidation where
  entity : Entity
  deriving DecidableEq, Repr

/-- Whose resolved rights a change may alter. -/
inductive Stale where
  | user (id : UserId)
  | everyone
  | nobody
  deriving DecidableEq, Repr

/-- What a change that was carried out reports. -/
structure Outcome (α : Type) where
  value : α
  events : List Invalidation
  stale : Stale
  deriving DecidableEq, Repr

end StaffRights
