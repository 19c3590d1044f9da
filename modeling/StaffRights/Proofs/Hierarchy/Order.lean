import Mathlib.Data.List.Nodup
import StaffRights.Proofs.Hierarchy.Consistent

/-!
# The order of children and staff

A hierarchy is determined by the nodes that it finds and by its index. Where only the order in which
children and staff are listed is of no account, two hierarchies are compared by `Reordered`.
-/

namespace StaffRights

/-- The same node, but for the order of its children and of its staff. -/
structure Node.Reordered (n n' : Node) : Prop where
  entity : n'.entity = n.entity
  parent : n'.parent = n.parent
  awarded : n'.awarded = n.awarded
  children : n'.children.Perm n.children
  staff : n'.staff.Perm n.staff

theorem Node.Reordered.refl (n : Node) : n.Reordered n := ⟨rfl, rfl, rfl, .refl _, .refl _⟩

theorem Node.Reordered.symm {n n' : Node} (hn : n.Reordered n') : n'.Reordered n where
  entity := hn.entity.symm
  parent := hn.parent.symm
  awarded := hn.awarded.symm
  children := hn.children.symm
  staff := hn.staff.symm

namespace Hierarchy

variable {h h' : Hierarchy}

/-- The same hierarchy, but for the order of children and staff. -/
structure Reordered (h h' : Hierarchy) : Prop where
  node : ∀ id, Option.Rel Node.Reordered (h.node? id) (h'.node? id)
  index : h'.index = h.index

namespace Reordered

theorem refl (h : Hierarchy) : h.Reordered h where
  node id := by
    cases h.node? id with
    | none => exact .none
    | some n => exact .some (.refl n)
  index := rfl

variable (hr : h.Reordered h')

include hr

/-- Under an id both hierarchies have a node or neither has. -/
theorem node_cases (id : EntityId) : h.node? id = none ∧ h'.node? id = none ∨
    ∃ n n', h.node? id = some n ∧ h'.node? id = some n' ∧ n.Reordered n' := by
  have hnode := hr.node id
  generalize h.node? id = o, h'.node? id = o' at hnode
  cases hnode with
  | none => exact .inl ⟨rfl, rfl⟩
  | some hn => exact .inr ⟨_, _, rfl, rfl, hn⟩

theorem symm : h'.Reordered h where
  node id := by
    rcases hr.node_cases id with ⟨hn, hn'⟩ | ⟨n, n', hn, hn', hsame⟩
    · rw [hn, hn']
      exact .none
    · rw [hn, hn']
      exact .some hsame.symm
  index := hr.index.symm

theorem tree_entity (id : EntityId) : h'.tree.entity id = h.tree.entity id := by
  rw [Hierarchy.tree_entity, Hierarchy.tree_entity]
  rcases hr.node_cases id with ⟨hn, hn'⟩ | ⟨n, n', hn, hn', hsame⟩
  · rw [hn, hn']
  · rw [hn, hn', Option.map_some, Option.map_some, hsame.entity]

theorem tree_parent (id : EntityId) : h'.tree.parent id = h.tree.parent id := by
  rw [Hierarchy.tree_parent, Hierarchy.tree_parent]
  rcases hr.node_cases id with ⟨hn, hn'⟩ | ⟨n, n', hn, hn', hsame⟩
  · rw [hn, hn']
  · rw [hn, hn', Option.bind_some, Option.bind_some, hsame.parent]

/-- Both have the same staff, in some order. -/
theorem tree_staff_perm (id : EntityId) : (h'.tree.staff id).Perm (h.tree.staff id) := by
  rw [Hierarchy.tree_staff, Hierarchy.tree_staff]
  rcases hr.node_cases id with ⟨hn, hn'⟩ | ⟨n, n', hn, hn', hsame⟩
  · rw [hn, hn']
  · rw [hn, hn']
    exact hsame.staff

end Reordered

/-- A hierarchy is determined by its nodes and by its index. -/
theorem ext_of_node? (hnode : ∀ id, h.node? id = h'.node? id)
    (hindex : ∀ mid : MembershipId, h.index[mid]? = h'.index[mid]?) : h = h' := by
  obtain ⟨nodes, index⟩ := h
  obtain ⟨nodes', index'⟩ := h'
  obtain rfl : nodes = nodes' := Std.ExtTreeMap.ext_getElem? hnode
  obtain rfl : index = index' := Std.ExtTreeMap.ext_getElem? hindex
  rfl

/-- The nodes of a consistent hierarchy say what its index must be. -/
theorem Consistent.eq_of_node? (hc : h.Consistent) (hc' : h'.Consistent)
    (hnode : ∀ id, h.node? id = h'.node? id) : h = h' := by
  refine ext_of_node? hnode fun mid => Option.ext fun id => ?_
  have hstaff : h'.tree.staff id = h.tree.staff id := by rw [tree_staff, tree_staff, hnode]
  rw [hc.index_iff, hc'.index_iff, hstaff]

/-! ## The lists of nodes and memberships -/

/-- A node is found under the id of its entity. -/
theorem Consistent.id_of_node? (hc : h.Consistent) {id : EntityId} {n : Node}
    (hn : h.node? id = some n) : n.entity.id = id :=
  hc.linked.entity_id (h.entity_of_node? hn)

/-- No two nodes of a consistent hierarchy are of the same entity. -/
theorem Consistent.nodup_toList (hc : h.Consistent) : (h.toList.map (·.entity.id)).Nodup := by
  have hkeys : h.toList.map (·.entity.id) = h.nodes.toList.map (·.1) := by
    rw [toList, List.map_map]
    refine List.map_congr_left fun kn hkn => ?_
    have hn : h.node? kn.1 = some kn.2 := Std.ExtTreeMap.mem_toList_iff_getElem?_eq_some.1 hkn
    exact hc.id_of_node? hn
  rw [hkeys, Std.ExtTreeMap.map_fst_toList_eq_keys]
  exact Std.ExtTreeMap.nodup_keys

end Hierarchy

end StaffRights
