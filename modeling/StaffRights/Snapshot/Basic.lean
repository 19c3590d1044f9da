import StaffRights.Hierarchy.Basic
import StaffRights.Permissions.Record

/-!
# Snapshots

A snapshot lists users, entities and memberships. A hierarchy lists its nodes and memberships in no
particular order. Capturing it puts entities in order of their level and then of their id, so that
parents stand before their children, and memberships in order of their id.

Reference: `SPEC_FULL.md` 10.13 (`HierarchySnapshot`).
-/

namespace StaffRights

/-- An entity of a snapshot. -/
structure EntityRecord where
  id : EntityId
  kind : Kind
  parent : Option EntityId := none
  awarded : UInt32 := 0
  deriving DecidableEq, Repr

/-- A membership of a snapshot. -/
structure MembershipRecord where
  id : MembershipId
  user : UserId
  entity : EntityId
  permissions : PermissionRecord := {}
  grantedBy : Option UserId := none
  deriving DecidableEq, Repr

/-- The contents of a hierarchy, and users it refers to. -/
structure Snapshot where
  users : List User := []
  entities : List EntityRecord := []
  memberships : List MembershipRecord := []
  deriving DecidableEq, Repr

namespace EntityRecord

/-- The entity that is recorded. -/
def entity (r : EntityRecord) : Entity := ⟨r.kind, r.id⟩

/-- The record of a node. -/
def ofNode (n : Node) : EntityRecord :=
  ⟨n.entity.id, n.entity.kind, n.parent.map (·.id), n.awarded⟩

/-- Does the first record stand on a higher level, or on the same one with an id not above? -/
def le (a b : EntityRecord) : Bool :=
  ((compare a.kind.depth b.kind.depth).then (compare a.id b.id)).isLE

end EntityRecord

namespace MembershipRecord

/-- The record of a membership. -/
def ofMembership (m : Membership) : MembershipRecord :=
  ⟨m.id, m.user, m.entity.id, m.permissions.record, m.grantedBy⟩

/-- Is the id of the first record not above that of the second? -/
def le (a b : MembershipRecord) : Bool := (compare a.id b.id).isLE

end MembershipRecord

namespace Snapshot

/-- The snapshot of a hierarchy that is listed in the given way. -/
def ofListing {h : Hierarchy} (l : h.Listing) (users : List User) : Snapshot where
  users := users
  entities := (l.nodes.map .ofNode).mergeSort EntityRecord.le
  memberships := (l.memberships.map .ofMembership).mergeSort MembershipRecord.le

/-- The snapshot of a hierarchy. -/
def capture (h : Hierarchy) (users : List User) : Snapshot := ofListing h.listing users

/-- The first user with the given id. -/
def findUser (s : Snapshot) (id : UserId) : Option User := s.users.find? (·.id == id)

end Snapshot

end StaffRights
