import Std.Data.ExtTreeMap
import StaffRights.Tree.Basic

/-!
# Hierarchies

A `Hierarchy` stores the entities of any number of institutions, each with its links, its staff and
the number of credentials awarded for it, and an index from memberships to entities. It is plain
data: that links, staff and index agree is what the changes of the other modules preserve, and not
part of the type. The operations here do their part wherever it applies and leave the rest alone.

Reference: `SPEC_FULL.md` 3 (data model) and 10.7 (`Hierarchy`).
-/

namespace StaffRights

/-- One entity with its links, its own staff and its awards. -/
structure Node where
  entity : Entity
  parent : Option Entity
  children : List Entity := []
  staff : List Membership := []
  awarded : UInt32 := 0
  deriving DecidableEq, Repr

/-- Entities by id, and the entity of each membership. -/
structure Hierarchy where
  nodes : Std.ExtTreeMap EntityId Node
  index : Std.ExtTreeMap MembershipId EntityId
  deriving DecidableEq

namespace Hierarchy

instance : EmptyCollection Hierarchy := ⟨⟨∅, ∅⟩⟩

instance : Inhabited Hierarchy := ⟨∅⟩

/-- The node of an entity. -/
def node? (h : Hierarchy) (id : EntityId) : Option Node := h.nodes[id]?

/-- The membership with the given id, looked up through the index. -/
def membership? (h : Hierarchy) (id : MembershipId) : Option Membership := do
  let entity ← h.index[id]?
  let node ← h.nodes[entity]?
  node.staff.find? (·.id == id)

/-- All nodes. They come as they are stored, and nothing may rely on their order. -/
def toList (h : Hierarchy) : List Node := h.nodes.toList.map (·.2)

/-- All memberships, in an order that nothing may rely on either. -/
def memberships (h : Hierarchy) : List Membership := h.toList.flatMap (·.staff)

/-- The nodes and the memberships of a hierarchy, each of them one after another in any order. -/
structure Listing (h : Hierarchy) where
  nodes : List Node
  memberships : List Membership
  nodes_perm : nodes.Perm h.toList
  memberships_perm : memberships.Perm h.memberships

/-- The listing in the order of storage. -/
def listing (h : Hierarchy) : h.Listing := ⟨h.toList, h.memberships, .refl _, .refl _⟩

/-- The number of entities. -/
def size (h : Hierarchy) : Nat := h.nodes.size

/-- The number of memberships. -/
def membershipCount (h : Hierarchy) : Nat := h.index.size

/-- The hierarchy as a tree of entities. -/
def tree (h : Hierarchy) : Tree where
  ids := h.nodes.keys
  entity id := h.nodes[id]?.map (·.entity)
  parent id := h.nodes[id]?.bind (·.parent)
  children id := (h.nodes[id]?.map (·.children)).getD []
  staff id := (h.nodes[id]?.map (·.staff)).getD []
  heldBy user := h.memberships.filter (·.user == user)
  awarded id := h.nodes[id]?.any (·.awarded ≠ 0)
  parent_eq_none id hid := by
    rw [Std.ExtTreeMap.mem_keys] at hid
    simp [hid]
  children_eq_nil id hid := by
    rw [Std.ExtTreeMap.mem_keys] at hid
    simp [hid]

/-! ## Links -/

/-- Changes the node of an entity, if there is one. -/
def modify (h : Hierarchy) (id : EntityId) (f : Node → Node) : Hierarchy :=
  { h with nodes := h.nodes.modify id f }

/-- Lists `child` last among the children of an entity. -/
def addChild (h : Hierarchy) (id : EntityId) (child : Entity) : Hierarchy :=
  h.modify id fun n => { n with children := n.children ++ [child] }

/-- Strikes the entity `child` from the children of another. -/
def removeChild (h : Hierarchy) (id child : EntityId) : Hierarchy :=
  h.modify id fun n => { n with children := n.children.filter (·.id ≠ child) }

/-- Stores a new entity, linked below its parent. -/
def attach (h : Hierarchy) (e : Entity) (parent : Option Entity) : Hierarchy :=
  let h := match parent with
    | some p => h.addChild p.id e
    | none => h
  { h with nodes := h.nodes.insert e.id { entity := e, parent := parent } }

/-- Drops an entity and its link from its parent; the dropped node is returned. -/
def detach (h : Hierarchy) (id : EntityId) : Option Node × Hierarchy :=
  match h.nodes[id]? with
  | none => (none, h)
  | some n =>
    let h := { h with nodes := h.nodes.erase id }
    match n.parent with
    | some p => (some n, h.removeChild p.id id)
    | none => (some n, h)

/-- Links an entity below another parent, after the children already there. -/
def relink (h : Hierarchy) (id : EntityId) (parent : Entity) : Hierarchy :=
  match h.nodes[id]? with
  | none => h
  | some n =>
    let h := h.modify id fun n => { n with parent := some parent }
    let h := match n.parent with
      | some old => h.removeChild old.id id
      | none => h
    h.addChild parent.id n.entity

/-! ## Staff -/

/-- Puts a membership where one with its id stands, or else at the end. -/
def putStaff (m : Membership) : List Membership → List Membership
  | [] => [m]
  | x :: xs => if x.id = m.id then m :: xs else x :: putStaff m xs

/-- Stores a membership on its entity, in place of the one with the same id if there is one. -/
def putMembership (h : Hierarchy) (m : Membership) : Hierarchy :=
  match h.nodes[m.entity.id]? with
  | none => h
  | some _ =>
    let h := h.modify m.entity.id fun n => { n with staff := putStaff m n.staff }
    { h with index := h.index.insert m.id m.entity.id }

/-- Drops a membership from the index and from its entity; the dropped one is returned. -/
def dropMembership (h : Hierarchy) (id : MembershipId) : Option Membership × Hierarchy :=
  match h.index[id]? with
  | none => (none, h)
  | some entity =>
    let unindexed := { h with index := h.index.erase id }
    match h.nodes[entity]?.bind (·.staff.find? (·.id == id)) with
    | none => (none, unindexed)
    | some m =>
      (some m, unindexed.modify entity fun n => { n with staff := n.staff.eraseP (·.id == id) })

end Hierarchy

end StaffRights
