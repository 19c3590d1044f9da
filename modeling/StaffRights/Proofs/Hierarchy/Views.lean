import Mathlib.Tactic.SplitIfs
import StaffRights.Hierarchy.Lemmas
import StaffRights.Proofs.Tree.Linked

/-!
# The tree after each operation

What the operations on a hierarchy do to the tree that it is: to its entities, their parents and
children, and their staff. Operations on staff and awards leave the links as they are; operations on
links leave the staff as it is, but for the staff of an entity that is gone.
-/

namespace StaffRights.Hierarchy

variable (h : Hierarchy) {h' : Hierarchy} {id j : EntityId}

/-! ## Links -/

/-- The new entity is known, and what was known before. -/
theorem tree_entity_attach (e : Entity) (p : Option Entity) :
    (h.attach e p).tree.entity j = if e.id = j then some e else h.tree.entity j := by
  simp only [tree_entity, node?_attach]
  cases h.node? j <;> split_ifs <;> simp_all

/-- The new entity has its parent, and the others have theirs. -/
theorem tree_parent_attach (e : Entity) (p : Option Entity) :
    (h.attach e p).tree.parent j = if e.id = j then p else h.tree.parent j := by
  simp only [tree_parent, node?_attach]
  cases h.node? j <;> split_ifs <;> simp_all

/-- One link is new. -/
theorem parentOf_attach (e : Entity) (p : Option Entity) {x : EntityId} :
    (h.attach e p).tree.ParentOf j x ↔
      if e.id = x then p.map (·.id) = some j else h.tree.ParentOf j x := by
  simp only [Tree.ParentOf, tree_parent_attach]
  split <;> simp

/-- The new entity has no children and is listed last by its parent. -/
theorem tree_children_attach (e : Entity) {p : Option Entity}
    (hp : ∀ q, p = some q → h.tree.entity q.id = some q) :
    (h.attach e p).tree.children j =
      if e.id = j then []
      else if p.map (·.id) = some j then h.tree.children j ++ [e]
      else h.tree.children j := by
  simp only [tree_children, node?_attach]
  split_ifs with _ hpj
  · rfl
  · obtain ⟨q, rfl, rfl⟩ := Option.map_eq_some_iff.1 hpj
    obtain ⟨n, hn, -⟩ := h.exists_node? (hp q rfl)
    simp [hn]
  · rfl

/-- The new entity has no staff. -/
theorem tree_staff_attach (e : Entity) (p : Option Entity) :
    (h.attach e p).tree.staff j = if e.id = j then [] else h.tree.staff j := by
  simp only [tree_staff, node?_attach]
  cases h.node? j <;> split_ifs <;> simp_all

/-- The detached entity is unknown. -/
theorem tree_entity_detach :
    (h.detach id).2.tree.entity j = if id = j then none else h.tree.entity j := by
  simp only [tree_entity, node?_detach]
  cases h.node? j <;> split_ifs <;> simp_all

/-- The detached entity has no parent any more. -/
theorem tree_parent_detach :
    (h.detach id).2.tree.parent j = if id = j then none else h.tree.parent j := by
  simp only [tree_parent, node?_detach]
  cases h.node? j <;> split_ifs <;> simp_all

/-- The detached entity has no children any more and is none of its parent's. -/
theorem tree_children_detach :
    (h.detach id).2.tree.children j =
      if id = j then []
      else if (h.tree.parent id).map (·.id) = some j then
        (h.tree.children j).filter (·.id ≠ id)
      else h.tree.children j := by
  simp only [tree_children, tree_parent, node?_detach]
  cases h.node? j <;> split_ifs <;> simp_all

/-- The detached entity has no staff any more. -/
theorem tree_staff_detach :
    (h.detach id).2.tree.staff j = if id = j then [] else h.tree.staff j := by
  simp only [tree_staff, node?_detach]
  cases h.node? j <;> split_ifs <;> simp_all

section Relink

variable {e p : Entity} (he : h.tree.entity id = some e)

include he

theorem tree_entity_relink : (h.relink id p).tree.entity j = h.tree.entity j := by
  obtain ⟨n, hn, rfl⟩ := h.exists_node? he
  simp only [tree_entity, h.node?_relink hn]
  cases h.node? j <;> rfl

/-- The moved entity has the new parent, and the others have theirs. -/
theorem tree_parent_relink :
    (h.relink id p).tree.parent j = if id = j then some p else h.tree.parent j := by
  obtain ⟨n, hn, rfl⟩ := h.exists_node? he
  simp only [tree_parent, h.node?_relink hn]
  by_cases hid : id = j
  · simp [← hid, hn]
  · cases h.node? j <;> simp [hid]

/-- The moved entity has the new parent alone, and all other links are as before. -/
theorem parentOf_relink {x : EntityId} :
    (h.relink id p).tree.ParentOf j x ↔ if id = x then p.id = j else h.tree.ParentOf j x := by
  simp only [Tree.ParentOf, h.tree_parent_relink he]
  split <;> simp

/-- The old parent no longer lists the moved entity, and the new one lists it last. -/
theorem tree_children_relink (hp : h.tree.entity p.id = some p) :
    (h.relink id p).tree.children j =
      (if (h.tree.parent id).map (·.id) = some j then (h.tree.children j).filter (·.id ≠ id)
        else h.tree.children j) ++ if p.id = j then [e] else [] := by
  obtain ⟨n, hn, rfl⟩ := h.exists_node? he
  simp only [tree_children, h.parent_of_node? hn, h.node?_relink hn]
  cases hj : h.node? j with
  | none =>
    have hpj : p.id ≠ j := by
      rintro rfl
      rw [tree_entity, hj] at hp
      cases hp
    simp [hpj]
  | some m => simp

/-- A move leaves every staff as it is. -/
theorem tree_staff_relink : (h.relink id p).tree.staff j = h.tree.staff j := by
  obtain ⟨n, hn, rfl⟩ := h.exists_node? he
  simp only [tree_staff, h.node?_relink hn]
  cases h.node? j <;> rfl

end Relink

/-! ## Staff and awards -/

/-- A change to staff and awards alone leaves the links as they are. -/
theorem sameLinks_of_node? (f : EntityId → Node → Node)
    (hf : ∀ j n, (f j n).entity = n.entity ∧ (f j n).parent = n.parent ∧
      (f j n).children = n.children)
    (hnode : ∀ j, h'.node? j = (h.node? j).map (f j)) : h.tree.SameLinks h'.tree where
  entity j := by
    simp only [tree_entity, hnode]
    cases h.node? j <;> simp [hf]
  parent j := by
    simp only [tree_parent, hnode]
    cases h.node? j <;> simp [hf]
  children j := by
    simp only [tree_children, hnode]
    cases h.node? j <;> simp [hf]

/-- Memberships come without a change to links. -/
theorem sameLinks_putMembership (m : Membership) :
    h.tree.SameLinks (h.putMembership m).tree := by
  refine h.sameLinks_of_node?
    (fun j n => if m.entity.id = j then { n with staff := putStaff m n.staff } else n)
    (fun j n => by split <;> simp) fun j => ?_
  rw [node?_putMembership]
  split <;> simp

/-- Memberships go without a change to links. -/
theorem sameLinks_dropMembership (mid : MembershipId) :
    h.tree.SameLinks (h.dropMembership mid).2.tree := by
  refine h.sameLinks_of_node?
    (fun j n =>
      if h.index[mid]? = some j then { n with staff := n.staff.eraseP (·.id == mid) } else n)
    (fun j n => by split <;> simp) fun j => ?_
  rw [node?_dropMembership]
  split <;> simp

/-- Counts change without a change to links. -/
theorem sameLinks_setAwarded (id : EntityId) (count : UInt32) :
    h.tree.SameLinks (h.modify id fun n => { n with awarded := count }).tree := by
  refine h.sameLinks_of_node? (fun j n => if id = j then { n with awarded := count } else n)
    (fun j n => by split <;> simp) fun j => ?_
  rw [node?_modify]
  split <;> simp

theorem tree_staff_setAwarded (id : EntityId) (count : UInt32) :
    (h.modify id fun n => { n with awarded := count }).tree.staff j = h.tree.staff j := by
  simp only [tree_staff, node?_modify]
  cases h.node? j <;> split_ifs <;> simp

/-- A membership is put on the staff of its entity. -/
theorem tree_staff_putMembership {m : Membership}
    (hm : h.tree.entity m.entity.id = some m.entity) :
    (h.putMembership m).tree.staff j =
      if m.entity.id = j then putStaff m (h.tree.staff j) else h.tree.staff j := by
  simp only [tree_staff, node?_putMembership]
  split_ifs with hj
  · obtain ⟨n, hn, -⟩ := h.exists_node? hm
    simp [← hj, hn]
  · rfl

/-- The staff of other entities is as it was. -/
theorem tree_staff_putMembership_of_ne {m : Membership} (hj : m.entity.id ≠ j) :
    (h.putMembership m).tree.staff j = h.tree.staff j := by
  rw [tree_staff, node?_putMembership, if_neg hj, tree_staff]

/-- A membership is struck from the staff that the index names. -/
theorem tree_staff_dropMembership (mid : MembershipId) :
    (h.dropMembership mid).2.tree.staff j =
      if h.index[mid]? = some j then (h.tree.staff j).eraseP (·.id == mid)
      else h.tree.staff j := by
  simp only [tree_staff, node?_dropMembership]
  cases h.node? j <;> simp
  split <;> simp

/-! ## Awards -/

/-- Awarded is what is there with a positive count. -/
theorem tree_awarded_iff :
    h.tree.awarded id = true ↔ ∃ n, h.node? id = some n ∧ 0 < n.awarded := by
  rw [tree_awarded]
  cases h.node? id <;> simp [UInt32.pos_iff_ne_zero]

/-- A change to links and staff alone leaves the awards as they are. -/
theorem tree_awarded_of_node? {f : Node → Node} (hnode : h'.node? j = (h.node? j).map f)
    (hf : ∀ n, (f n).awarded = n.awarded) : h'.tree.awarded j = h.tree.awarded j := by
  rw [tree_awarded, tree_awarded, hnode]
  cases h.node? j <;> simp [hf]

/-- A new entity has no awards; all others keep theirs. -/
theorem tree_awarded_attach (e : Entity) (p : Option Entity) :
    (h.attach e p).tree.awarded j = if e.id = j then false else h.tree.awarded j := by
  simp only [tree_awarded, node?_attach]
  cases h.node? j <;> split_ifs <;> simp

/-- A move leaves awards as they are. -/
theorem tree_awarded_relink {e p : Entity} (he : h.tree.entity id = some e) :
    (h.relink id p).tree.awarded j = h.tree.awarded j := by
  obtain ⟨n, hn, rfl⟩ := h.exists_node? he
  exact h.tree_awarded_of_node? (h.node?_relink hn p j) fun _ => rfl

/-- Memberships come without a change to awards. -/
theorem tree_awarded_putMembership (m : Membership) :
    (h.putMembership m).tree.awarded j = h.tree.awarded j := by
  have hnode := h.node?_putMembership m j
  split_ifs at hnode
  · exact h.tree_awarded_of_node? hnode fun _ => rfl
  · simp only [tree_awarded, hnode]

/-- Memberships go without a change to awards. -/
theorem tree_awarded_dropMembership (mid : MembershipId) :
    (h.dropMembership mid).2.tree.awarded j = h.tree.awarded j := by
  have hnode := h.node?_dropMembership mid j
  split_ifs at hnode
  · exact h.tree_awarded_of_node? hnode fun _ => rfl
  · simp only [tree_awarded, hnode]

theorem tree_awarded_setAwarded (id : EntityId) (count : UInt32) :
    (h.modify id fun n => { n with awarded := count }).tree.awarded j =
      if id = j then (h.tree.entity j).isSome && count ≠ 0 else h.tree.awarded j := by
  simp only [tree_awarded, tree_entity, node?_modify]
  cases h.node? j <;> split_ifs <;> simp

end StaffRights.Hierarchy
