import StaffRights.Staff

/-!
# Trees of entities

A `Tree` answers questions about entities, the links between them and their staff. Whoever owns the
entities provides one; nothing is assumed about how the answers fit together. Only `ids` is bound to
the rest: an id outside it has no links, so a chain of links without repetition is no longer than
`ids` and one more.

Reference: `SPEC_FULL.md` 10.3 (`EntityTree`).
-/

namespace StaffRights

/-- Read access to entities and their staff. An unknown id has no entity, no links and no staff. -/
structure Tree where
  /-- Ids beyond these have no links. -/
  ids : List EntityId
  entity : EntityId → Option Entity
  /-- The entity above; none for an institution. -/
  parent : EntityId → Option Entity
  /-- The entities directly below, in order. -/
  children : EntityId → List Entity
  /-- The memberships on the entity itself, in order. -/
  staff : EntityId → List Membership
  /-- The memberships of a user, on any entity. -/
  heldBy : UserId → List Membership
  /-- Were credentials awarded for the entity? -/
  awarded : EntityId → Bool
  parent_eq_none : ∀ id, id ∉ ids → parent id = none
  children_eq_nil : ∀ id, id ∉ ids → children id = []

namespace Tree

/-- A number of nested steps that no chain of distinct linked entities exceeds. -/
def bound (t : Tree) : Nat := t.ids.length + 1

end Tree

end StaffRights
