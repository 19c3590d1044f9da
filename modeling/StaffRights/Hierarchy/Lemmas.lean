import StaffRights.Hierarchy.Basic

/-!
# Nodes after each operation

What the operations on a hierarchy do to the node of each entity (`node?`) and to the index of
memberships. The tree of a hierarchy reads nothing but nodes.
-/

namespace StaffRights.Hierarchy

variable (h : Hierarchy)

/-! ## The empty hierarchy -/

/-- The empty hierarchy has no nodes. -/
@[simp] theorem node?_empty (id : EntityId) : (∅ : Hierarchy).node? id = none := by
  change (∅ : Std.ExtTreeMap EntityId Node)[id]? = none
  simp

@[simp] theorem index_empty : (∅ : Hierarchy).index = ∅ := rfl

/-! ## The tree -/

theorem tree_entity (id : EntityId) : h.tree.entity id = (h.node? id).map (·.entity) := rfl

theorem tree_parent (id : EntityId) : h.tree.parent id = (h.node? id).bind (·.parent) := rfl

theorem tree_children (id : EntityId) :
    h.tree.children id = ((h.node? id).map (·.children)).getD [] := rfl

theorem tree_staff (id : EntityId) :
    h.tree.staff id = ((h.node? id).map (·.staff)).getD [] := rfl

/-- Credentials count as awarded where the number that a node stores is not zero. -/
theorem tree_awarded (id : EntityId) :
    h.tree.awarded id = (h.node? id).any (·.awarded ≠ 0) := rfl

/-- What the tree knows has a node. -/
theorem exists_node? {id : EntityId} {e : Entity} (he : h.tree.entity id = some e) :
    ∃ n, h.node? id = some n ∧ n.entity = e :=
  Option.map_eq_some_iff.1 he

theorem entity_of_node? {id : EntityId} {n : Node} (hn : h.node? id = some n) :
    h.tree.entity id = some n.entity := by
  rw [tree_entity, hn, Option.map_some]

theorem parent_of_node? {id : EntityId} {n : Node} (hn : h.node? id = some n) :
    h.tree.parent id = n.parent := by
  rw [tree_parent, hn, Option.bind_some]

theorem children_of_node? {id : EntityId} {n : Node} (hn : h.node? id = some n) :
    h.tree.children id = n.children := by
  rw [tree_children, hn, Option.map_some, Option.getD_some]

theorem staff_of_node? {id : EntityId} {n : Node} (hn : h.node? id = some n) :
    h.tree.staff id = n.staff := by
  rw [tree_staff, hn, Option.map_some, Option.getD_some]

/-- A known entity is there to be changed. -/
theorem isSome_node? {id : EntityId} {e : Entity} (he : h.tree.entity id = some e) :
    (h.node? id).isSome := by
  obtain ⟨n, hn, -⟩ := h.exists_node? he
  rw [hn, Option.isSome_some]

/-- The listed nodes are those that are found under some id. -/
theorem mem_toList {n : Node} : n ∈ h.toList ↔ ∃ id, h.node? id = some n := by
  simp [toList, node?, Std.ExtTreeMap.mem_toList_iff_getElem?_eq_some]

/-! ## Links -/

@[simp] theorem index_modify (id : EntityId) (f : Node → Node) :
    (h.modify id f).index = h.index := rfl

/-- Only the node under the given id is modified, if there is one. -/
theorem node?_modify (id j : EntityId) (f : Node → Node) :
    (h.modify id f).node? j = if id = j then (h.node? j).map f else h.node? j := by
  simp only [modify, node?, Std.ExtTreeMap.getElem?_modify]
  grind

@[simp] theorem index_addChild (id : EntityId) (c : Entity) : (h.addChild id c).index = h.index :=
  rfl

/-- Only the parent gains a child. -/
theorem node?_addChild (id j : EntityId) (c : Entity) :
    (h.addChild id c).node? j =
      if id = j then (h.node? j).map fun n => { n with children := n.children ++ [c] }
      else h.node? j :=
  node?_modify h id j _

@[simp] theorem index_removeChild (id c : EntityId) : (h.removeChild id c).index = h.index := rfl

/-- Only the parent loses a child. -/
theorem node?_removeChild (id c j : EntityId) :
    (h.removeChild id c).node? j =
      if id = j then
        (h.node? j).map fun n => { n with children := n.children.filter (·.id ≠ c) }
      else h.node? j :=
  node?_modify h id j _

@[simp] theorem index_attach (e : Entity) (p : Option Entity) : (h.attach e p).index = h.index := by
  cases p <;> rfl

/-- The new node is empty; its parent gains a child; no other node changes. -/
theorem node?_attach (e : Entity) (p : Option Entity) (j : EntityId) :
    (h.attach e p).node? j =
      if e.id = j then some { entity := e, parent := p }
      else if p.map (·.id) = some j then
        (h.node? j).map fun n => { n with children := n.children ++ [e] }
      else h.node? j := by
  cases p with
  | none => simp only [attach, node?, Std.ExtTreeMap.getElem?_insert]; grind
  | some p =>
    have hp := node?_addChild h p.id j e
    simp only [node?] at hp
    simp only [attach, node?, Std.ExtTreeMap.getElem?_insert, hp, Option.map_some]
    grind

/-- What is detached is the node that was there. -/
@[simp] theorem detach_fst (id : EntityId) : (h.detach id).1 = h.node? id := by
  simp only [detach, node?]
  grind

@[simp] theorem index_detach (id : EntityId) : (h.detach id).2.index = h.index := by
  simp only [detach]
  split
  · rfl
  · split <;> rfl

/-- The node itself is gone; its parent loses a child; no other node changes. -/
theorem node?_detach (id j : EntityId) :
    (h.detach id).2.node? j =
      if id = j then none
      else if ((h.node? id).bind (·.parent)).map (·.id) = some j then
        (h.node? j).map fun n => { n with children := n.children.filter (·.id ≠ id) }
      else h.node? j := by
  cases hn : h.nodes[id]? with
  | none => simp only [detach, node?, hn]; grind
  | some n =>
    cases hp : n.parent with
    | none => simp only [detach, node?, hn, hp, Std.ExtTreeMap.getElem?_erase]; grind
    | some p =>
      have hc := node?_removeChild { h with nodes := h.nodes.erase id } p.id id j
      simp only [node?, Std.ExtTreeMap.getElem?_erase] at hc
      simp only [detach, node?, hn, hp, hc, Option.bind_some, Option.map_some]
      grind

/-- The moved node has a new parent; the old parent loses a child, and then the new one gains it. -/
theorem node?_relink {id : EntityId} {n : Node} (hn : h.node? id = some n) (p : Entity)
    (j : EntityId) :
    (h.relink id p).node? j =
      (h.node? j).map fun m =>
        { m with
          parent := if id = j then some p else m.parent
          children :=
            (if n.parent.map (·.id) = some j then m.children.filter (·.id ≠ id) else m.children) ++
              if p.id = j then [n.entity] else [] } := by
  have hnodes : h.nodes[id]? = some n := hn
  cases hp : n.parent with
  | none =>
    simp only [relink, hnodes, hp, node?_addChild, node?_modify]
    cases h.node? j <;> by_cases hid : id = j <;> by_cases hpj : p.id = j <;> simp [hid, hpj]
  | some old =>
    simp only [relink, hnodes, hp, node?_addChild, node?_removeChild, node?_modify]
    cases h.node? j <;> by_cases hid : id = j <;> by_cases hpj : p.id = j <;>
      by_cases hold : old.id = j <;> simp [hid, hpj, hold]

@[simp] theorem index_relink (id : EntityId) (p : Entity) : (h.relink id p).index = h.index := by
  simp only [relink]
  split
  · rfl
  · split <;> rfl

/-! ## Staff -/

/-- A membership is put in place of the one with its id, or at the end. -/
theorem putStaff_eq (m : Membership) (ms : List Membership) (hm : ∀ x ∈ ms, x.id ≠ m.id) :
    putStaff m ms = ms ++ [m] := by
  induction ms with
  | nil => rfl
  | cons x xs ih =>
    rw [putStaff, if_neg (hm x (List.mem_cons_self ..)),
      ih fun y hy => hm y (List.mem_cons_of_mem _ hy), List.cons_append]

/-- Where a membership is put in place of another, all others keep their places. -/
theorem putStaff_split {m x : Membership} {pre post : List Membership}
    (hpre : ∀ y ∈ pre, y.id ≠ m.id) (hx : x.id = m.id) :
    putStaff m (pre ++ x :: post) = pre ++ m :: post := by
  induction pre with
  | nil => rw [List.nil_append, putStaff, if_pos hx, List.nil_append]
  | cons y ys ih =>
    rw [List.cons_append, putStaff, if_neg (hpre y (List.mem_cons_self ..)),
      ih fun z hz => hpre z (List.mem_cons_of_mem _ hz), List.cons_append]

/-- What is put is there. -/
theorem mem_putStaff_self (m : Membership) (ms : List Membership) : m ∈ putStaff m ms := by
  induction ms with
  | nil => exact List.mem_singleton_self m
  | cons x xs ih =>
    rw [putStaff]
    split
    · exact List.mem_cons_self ..
    · exact List.mem_cons_of_mem _ ih

/-- What has another id is there just if it was before. -/
theorem mem_putStaff_of_ne {m x : Membership} {ms : List Membership} (hx : x.id ≠ m.id) :
    x ∈ putStaff m ms ↔ x ∈ ms := by
  induction ms with
  | nil =>
    rw [putStaff, List.mem_singleton]
    exact ⟨fun h => absurd (congrArg Membership.id h) hx, fun h => by cases h⟩
  | cons y ys ih =>
    rw [putStaff]
    split
    · next hy =>
      rw [List.mem_cons, List.mem_cons]
      have hxm : x ≠ m := fun h => hx (congrArg Membership.id h)
      have hxy : x ≠ y := fun h => hx (h ▸ hy)
      simp [hxm, hxy]
    · rw [List.mem_cons, List.mem_cons, ih]

/-- Where no id stands twice, memberships with the same id are the same. -/
theorem eq_of_nodup_ids {x y : Membership} {ms : List Membership} (hms : (ms.map (·.id)).Nodup)
    (hx : x ∈ ms) (hy : y ∈ ms) (hid : x.id = y.id) : x = y := by
  induction ms with
  | nil => cases hx
  | cons z zs ih =>
    rw [List.map_cons, List.nodup_cons] at hms
    rcases List.mem_cons.1 hx with hxz | hxz <;> rcases List.mem_cons.1 hy with hyz | hyz
    · rw [hxz, hyz]
    · exact absurd (List.mem_map.2 ⟨y, hyz, hid.symm.trans (congrArg _ hxz)⟩) hms.1
    · exact absurd (List.mem_map.2 ⟨x, hxz, hid.trans (congrArg _ hyz)⟩) hms.1
    · exact ih hms.2 hxz hyz

/-- In place of another, a membership leaves the ids as they are. -/
theorem map_id_putStaff (m : Membership) (ms : List Membership) (hm : m.id ∈ ms.map (·.id)) :
    (putStaff m ms).map (·.id) = ms.map (·.id) := by
  induction ms with
  | nil => cases hm
  | cons x xs ih =>
    rw [putStaff]
    split
    · next hx => simp [hx]
    · next hx =>
      rw [List.map_cons, List.map_cons, ih]
      rw [List.map_cons, List.mem_cons] at hm
      exact hm.resolve_left (Ne.symm hx)

/-- Where no id stands twice, none does after a membership is put. -/
theorem nodup_putStaff {m : Membership} {ms : List Membership} (hms : (ms.map (·.id)).Nodup) :
    ((putStaff m ms).map (·.id)).Nodup := by
  by_cases hm : m.id ∈ ms.map (·.id)
  · rw [map_id_putStaff m ms hm]
    exact hms
  · have hne : ∀ x ∈ ms, x.id ≠ m.id := fun x hx h => hm (List.mem_map.2 ⟨x, hx, h⟩)
    rw [putStaff_eq m ms hne, List.map_append, List.nodup_append]
    simpa using ⟨hms, hne⟩

/-- Where no id stands twice, the put membership has replaced the one with its id. -/
theorem mem_putStaff_iff {m x : Membership} {ms : List Membership} (hms : (ms.map (·.id)).Nodup) :
    x ∈ putStaff m ms ↔ x = m ∨ x ∈ ms ∧ x.id ≠ m.id := by
  by_cases hx : x.id = m.id
  · have heq : x ∈ putStaff m ms → x = m := fun h =>
      eq_of_nodup_ids (nodup_putStaff hms) h (mem_putStaff_self m ms) hx
    constructor
    · exact fun h => .inl (heq h)
    · rintro (rfl | ⟨-, hne⟩)
      · exact mem_putStaff_self x ms
      · exact absurd hx hne
  · rw [mem_putStaff_of_ne hx]
    have hxm : x ≠ m := fun h => hx (congrArg Membership.id h)
    simp [hxm, hx]

/-- A put membership is not met among those of another kind, if none of that kind made way for it.
-/
theorem filter_putStaff {m : Membership} {ms : List Membership} {p : Membership → Bool}
    (hm : p m = false) (hms : ∀ x ∈ ms, x.id = m.id → p x = false) :
    (putStaff m ms).filter p = ms.filter p := by
  induction ms with
  | nil => simp [putStaff, hm]
  | cons x xs ih =>
    rw [putStaff]
    split
    · next hx =>
      have hpx := hms x (List.mem_cons_self ..) hx
      simp [hm, hpx]
    · rw [List.filter_cons, List.filter_cons, ih fun y hy => hms y (List.mem_cons_of_mem _ hy)]

/-- Where no id stands twice, striking the first membership with an id strikes all of them. -/
theorem eraseP_eq_filter {mid : MembershipId} {ms : List Membership}
    (hms : (ms.map (·.id)).Nodup) : ms.eraseP (·.id == mid) = ms.filter (·.id ≠ mid) := by
  induction ms with
  | nil => rfl
  | cons x xs ih =>
    rw [List.map_cons, List.nodup_cons] at hms
    by_cases hx : x.id = mid
    · have hrest : ∀ y ∈ xs, y.id ≠ mid := fun y hy h =>
        hms.1 (List.mem_map.2 ⟨y, hy, h.trans hx.symm⟩)
      rw [List.eraseP_cons_of_pos (by simpa using hx), List.filter_cons_of_neg (by simpa using hx)]
      exact (List.filter_eq_self.2 fun y hy => by simpa using hrest y hy).symm
    · rw [List.eraseP_cons_of_neg (by simpa using hx), List.filter_cons_of_pos (by simpa using hx),
        ih hms.2]

/-- Only the node of its entity takes a membership. -/
theorem node?_putMembership (m : Membership) (j : EntityId) :
    (h.putMembership m).node? j =
      if m.entity.id = j then (h.node? j).map fun n => { n with staff := putStaff m n.staff }
      else h.node? j := by
  simp only [putMembership]
  split
  · next hn =>
    split
    · next hj => rw [← hj]; simp only [node?, hn, Option.map_none]
    · rfl
  · exact node?_modify h m.entity.id j _

/-- The index leads from the membership to its entity, if that is there. -/
theorem index_putMembership (m : Membership) (hm : (h.node? m.entity.id).isSome) :
    (h.putMembership m).index = h.index.insert m.id m.entity.id := by
  obtain ⟨n, hn⟩ := Option.isSome_iff_exists.1 hm
  rw [node?] at hn
  simp only [putMembership, hn, index_modify]

/-- What is dropped is the membership that the index leads to. -/
@[simp] theorem dropMembership_fst (id : MembershipId) :
    (h.dropMembership id).1 = h.membership? id := by
  simp only [dropMembership, membership?, Option.bind_eq_bind]
  cases h.index[id]? with
  | none => rfl
  | some e =>
    simp only [Option.bind_some]
    cases h.nodes[e]?.bind (·.staff.find? (·.id == id)) <;> rfl

/-- The membership is struck from the staff of the entity that the index names. -/
theorem node?_dropMembership (id : MembershipId) (j : EntityId) :
    (h.dropMembership id).2.node? j =
      if h.index[id]? = some j then
        (h.node? j).map fun n => { n with staff := n.staff.eraseP (·.id == id) }
      else h.node? j := by
  cases he : h.index[id]? with
  | none => simp [dropMembership, he]
  | some e =>
    cases hm : h.nodes[e]?.bind (·.staff.find? (·.id == id)) with
    | none =>
      simp only [dropMembership, he, hm, node?, Option.some.injEq]
      split
      · next hj =>
        subst hj
        cases hn : h.nodes[e]? with
        | none => rfl
        | some n =>
          rw [hn, Option.bind_some, List.find?_eq_none] at hm
          rw [Option.map_some, List.eraseP_of_forall_not hm]
      · rfl
    | some m =>
      simp only [dropMembership, he, hm, node?_modify, Option.some.injEq]
      rfl

/-- Only the entry of the membership leaves the index. -/
theorem getElem?_index_dropMembership (id k : MembershipId) :
    (h.dropMembership id).2.index[k]? = if id = k then none else h.index[k]? := by
  cases he : h.index[id]? with
  | none =>
    simp only [dropMembership, he]
    grind
  | some e =>
    cases hm : h.nodes[e]?.bind (·.staff.find? (·.id == id)) <;>
      simp only [dropMembership, he, hm, index_modify, Std.ExtTreeMap.getElem?_erase] <;>
      grind

/-- Nothing else leaves the index. -/
theorem index_dropMembership (id : MembershipId) :
    (h.dropMembership id).2.index = h.index.erase id := by
  refine Std.ExtTreeMap.ext_getElem? fun k => ?_
  rw [getElem?_index_dropMembership, Std.ExtTreeMap.getElem?_erase]
  grind

end StaffRights.Hierarchy
