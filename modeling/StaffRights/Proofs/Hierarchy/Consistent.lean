import StaffRights.Proofs.Hierarchy.Views

/-!
# Consistent hierarchies

A hierarchy stores its facts more than once: links downward beside links upward, and an index of
memberships beside the staff of each entity. It is `Consistent` when these agree. Each operation on
links and staff keeps a hierarchy consistent, given what its callers have checked.
-/

namespace StaffRights.Hierarchy

variable {h h' : Hierarchy} {id j : EntityId} {mid : MembershipId} {m m' : Membership}

/-- Links, staff and index of a hierarchy tell the same story. -/
structure Consistent (h : Hierarchy) : Prop where
  /-- Links upward and downward agree, and lead from each kind to the kind just above. -/
  linked : h.tree.Linked
  /-- A membership stands on the very entity that it names. -/
  staff_entity : ∀ {id : EntityId} {m : Membership},
    m ∈ h.tree.staff id → h.tree.entity id = some m.entity
  /-- No membership id stands twice on an entity. -/
  staff_nodup : ∀ id : EntityId, ((h.tree.staff id).map (·.id)).Nodup
  /-- The index leads to an entity exactly if its staff holds a membership with the id. -/
  index_iff : ∀ {mid : MembershipId} {id : EntityId},
    h.index[mid]? = some id ↔ ∃ m ∈ h.tree.staff id, m.id = mid

/-- The memberships are those on the staff of some entity. -/
theorem mem_memberships_iff : m ∈ h.memberships ↔ ∃ id, m ∈ h.tree.staff id := by
  simp only [memberships, List.mem_flatMap, mem_toList, tree_staff]
  constructor
  · rintro ⟨n, ⟨id, hn⟩, hm⟩
    exact ⟨id, by simpa [hn] using hm⟩
  · rintro ⟨id, hm⟩
    cases hn : h.node? id with
    | none => simp [hn] at hm
    | some n => exact ⟨n, ⟨id, hn⟩, by simpa [hn] using hm⟩

/-- A membership on a known entity is there once it is stored. -/
theorem mem_memberships_putMembership (hm : h.tree.entity m.entity.id = some m.entity) :
    m ∈ (h.putMembership m).memberships := by
  refine mem_memberships_iff.2 ⟨m.entity.id, ?_⟩
  rw [h.tree_staff_putMembership hm, if_pos rfl]
  exact mem_putStaff_self _ _

/-- With less staff everywhere there are fewer memberships. -/
theorem memberships_subset (hstaff : ∀ id, h'.tree.staff id ⊆ h.tree.staff id) :
    h'.memberships ⊆ h.memberships := by
  intro m hm
  obtain ⟨id, hm⟩ := mem_memberships_iff.1 hm
  exact mem_memberships_iff.2 ⟨id, hstaff id hm⟩

/-- What relates the memberships of each entity, and those of any two entities, relates all of them.
-/
theorem pairwise_memberships {R : Membership → Membership → Prop}
    (hlocal : ∀ id, (h.tree.staff id).Pairwise R)
    (hapart : ∀ a b, a ≠ b → ∀ x ∈ h.tree.staff a, ∀ y ∈ h.tree.staff b, R x y) :
    h.memberships.Pairwise R := by
  have hstaff : ∀ kn ∈ h.nodes.toList, h.tree.staff kn.1 = kn.2.staff := fun kn hkn =>
    h.staff_of_node? (Std.ExtTreeMap.mem_toList_iff_getElem?_eq_some.1 hkn)
  rw [memberships, toList, List.flatMap_map, List.pairwise_flatMap]
  refine ⟨fun kn hkn => hstaff kn hkn ▸ hlocal kn.1, ?_⟩
  -- what is stored under different keys are different entities
  refine Std.ExtTreeMap.distinct_keys_toList.imp_of_mem fun {a b} ha hb hab x hx y hy => ?_
  have hne : a.1 ≠ b.1 := by
    intro heq
    rw [heq] at hab
    exact hab Std.ReflOrd.compare_self
  exact hapart a.1 b.1 hne x (hstaff a ha ▸ hx) y (hstaff b hb ▸ hy)

namespace Consistent

/-- A membership is stored on its own entity. -/
theorem id_of_mem_staff (hc : h.Consistent) (hm : m ∈ h.tree.staff id) : m.entity.id = id :=
  hc.linked.entity_id (hc.staff_entity hm)

/-- A membership stands on the staff of the entity that it names. -/
theorem mem_staff_of_membership (hc : h.Consistent) (hm : m ∈ h.memberships) :
    m ∈ h.tree.staff m.entity.id := by
  obtain ⟨id, hm⟩ := mem_memberships_iff.1 hm
  rwa [hc.id_of_mem_staff hm]

/-- A membership is on a known entity. -/
theorem entity_of_membership (hc : h.Consistent) (hm : m ∈ h.memberships) :
    h.tree.entity m.entity.id = some m.entity :=
  hc.staff_entity (hc.mem_staff_of_membership hm)

/-- The index leads from a membership to its entity. -/
theorem index_of_membership (hc : h.Consistent) (hm : m ∈ h.memberships) :
    h.index[m.id]? = some m.entity.id :=
  hc.index_iff.2 ⟨m, hc.mem_staff_of_membership hm, rfl⟩

/-- Nobody is on the staff of an unknown id. -/
theorem staff_of_unknown (hc : h.Consistent) (hid : h.tree.entity id = none) :
    h.tree.staff id = [] := by
  refine List.eq_nil_iff_forall_not_mem.2 fun m hm => ?_
  rw [hc.staff_entity hm] at hid
  cases hid

/-- Memberships with the same id are the same membership on the same entity. -/
theorem eq_of_id_eq (hc : h.Consistent) (hm : m ∈ h.tree.staff id) (hm' : m' ∈ h.tree.staff j)
    (hid : m.id = m'.id) : id = j ∧ m = m' := by
  have hi : h.index[m'.id]? = some id := hc.index_iff.2 ⟨m, hm, hid⟩
  have hj : h.index[m'.id]? = some j := hc.index_iff.2 ⟨m', hm', rfl⟩
  rw [hi, Option.some.injEq] at hj
  subst hj
  exact ⟨rfl, eq_of_nodup_ids (hc.staff_nodup id) hm hm' hid⟩

/-- A membership stands between memberships of other ids on the staff of its entity. -/
theorem exists_staff_split (hc : h.Consistent) (hm : m ∈ h.memberships) :
    ∃ n pre post, h.node? m.entity.id = some n ∧ n.staff = pre ++ m :: post ∧
      ∀ x ∈ pre, x.id ≠ m.id := by
  have hstaff := hc.mem_staff_of_membership hm
  have hnodup := hc.staff_nodup m.entity.id
  obtain ⟨n, hn, -⟩ := h.exists_node? (hc.entity_of_membership hm)
  rw [h.staff_of_node? hn] at hstaff hnodup
  obtain ⟨pre, post, hsplit⟩ := List.append_of_mem hstaff
  rw [hsplit, List.map_append, List.nodup_append] at hnodup
  refine ⟨n, pre, post, hn, hsplit, fun x hx => ?_⟩
  exact hnodup.2.2 x.id (List.mem_map_of_mem hx) m.id (List.mem_map_of_mem (List.mem_cons_self ..))

/-- Looking a membership up finds exactly the stored membership with the id. -/
theorem membership?_eq_some_iff (hc : h.Consistent) :
    h.membership? mid = some m ↔ m ∈ h.memberships ∧ m.id = mid := by
  have hlook : h.membership? mid =
      (h.index[mid]?).bind fun id => (h.tree.staff id).find? (·.id == mid) := by
    simp only [membership?, Option.bind_eq_bind, tree_staff, node?]
    congr 1
    funext id
    cases h.nodes[id]? <;> rfl
  rw [hlook, mem_memberships_iff, Option.bind_eq_some_iff]
  constructor
  · rintro ⟨id, -, hm⟩
    exact ⟨⟨id, List.mem_of_find?_eq_some hm⟩, by simpa using List.find?_some hm⟩
  · rintro ⟨⟨id, hm⟩, rfl⟩
    refine ⟨id, hc.index_iff.2 ⟨m, hm, rfl⟩, ?_⟩
    -- the search stops at the first membership with the id, and there is no second one
    cases hfound : (h.tree.staff id).find? (·.id == m.id) with
    | none => simpa using List.find?_eq_none.1 hfound m hm
    | some x =>
      have hx : x.id = m.id := by simpa using List.find?_some hfound
      rw [(hc.eq_of_id_eq (List.mem_of_find?_eq_some hfound) hm hx).2]

/-- No membership is found just if none has the id. -/
theorem membership?_eq_none_iff (hc : h.Consistent) :
    h.membership? mid = none ↔ ∀ id, ∀ m ∈ h.tree.staff id, m.id ≠ mid := by
  rw [Option.eq_none_iff_forall_ne_some]
  simp only [ne_eq, hc.membership?_eq_some_iff, mem_memberships_iff]
  grind

/-- No membership id is stored twice in the whole hierarchy. -/
theorem nodup_memberships (hc : h.Consistent) : (h.memberships.map (·.id)).Nodup := by
  rw [List.Nodup, List.pairwise_map]
  refine pairwise_memberships (fun id => List.pairwise_map.1 (hc.staff_nodup id)) ?_
  intro a b hab x hx y hy hid
  exact hab (hc.eq_of_id_eq hx hy hid).1

/-! ## What operations keep -/

/-- The empty hierarchy is consistent. -/
theorem empty : (∅ : Hierarchy).Consistent where
  linked := by
    constructor <;> simp [tree_entity, tree_parent, tree_children, Tree.ParentOf]
  staff_entity := by simp [tree_staff]
  staff_nodup := by simp [tree_staff]
  index_iff := by simp [tree_staff]

/-- A change to links alone keeps a hierarchy consistent if the links agree again and no entity with
staff is lost. -/
theorem of_linked (hc : h.Consistent) (hlinked : h'.tree.Linked)
    (hstaff : ∀ j, h'.tree.staff j = h.tree.staff j) (hindex : h'.index = h.index)
    (hentity : ∀ j, h.tree.staff j ≠ [] → h'.tree.entity j = h.tree.entity j) :
    h'.Consistent where
  linked := hlinked
  staff_entity {j m} hm := by
    rw [hstaff] at hm
    rw [hentity j (List.ne_nil_of_mem hm)]
    exact hc.staff_entity hm
  staff_nodup j := by
    rw [hstaff]
    exact hc.staff_nodup j
  index_iff {mid j} := by
    rw [hindex, hstaff]
    exact hc.index_iff

/-- A change to awards alone keeps a hierarchy consistent. -/
theorem setAwarded (hc : h.Consistent) {count : UInt32} :
    (h.modify id fun n => { n with awarded := count }).Consistent := by
  have hlinks := h.sameLinks_setAwarded id count
  exact hc.of_linked (hc.linked.of_sameLinks hlinks) (fun _ => h.tree_staff_setAwarded id count)
    (h.index_modify id _) fun j _ => hlinks.entity j

section Put

variable (hc : h.Consistent) (hm : h.tree.entity m.entity.id = some m.entity)
  (hfree : ∀ j, ∀ x ∈ h.tree.staff j, x.id = m.id → j = m.entity.id)

include hc hm hfree

/-- The stored membership has replaced the one with its id. -/
theorem mem_staff_putMembership :
    m' ∈ (h.putMembership m).tree.staff j ↔
      m' = m ∧ j = m.entity.id ∨ m' ∈ h.tree.staff j ∧ m'.id ≠ m.id := by
  rw [tree_staff_putMembership h hm]
  split
  · next hj =>
    subst hj
    rw [mem_putStaff_iff (hc.staff_nodup _)]
    simp
  · next hj =>
    have hne : m' ∈ h.tree.staff j → m'.id ≠ m.id := fun hx hid => hj (hfree j m' hx hid).symm
    grind

/-- Storing a membership keeps a hierarchy consistent if its id stands on no other entity. -/
theorem putMembership : (h.putMembership m).Consistent := by
  have hlinks := h.sameLinks_putMembership m
  have hsome := h.isSome_node? hm
  refine ⟨hc.linked.of_sameLinks hlinks, ?_, ?_, ?_⟩
  · intro j x hx
    rw [hlinks.entity]
    rcases (mem_staff_putMembership hc hm hfree).1 hx with ⟨rfl, rfl⟩ | ⟨hx, -⟩
    · exact hm
    · exact hc.staff_entity hx
  · intro j
    rw [tree_staff_putMembership h hm]
    split
    · exact nodup_putStaff (hc.staff_nodup j)
    · exact hc.staff_nodup j
  · intro mid j
    -- the index is that of before but for the id stored, and so are the memberships
    rw [h.index_putMembership m hsome, Std.ExtTreeMap.getElem?_insert]
    simp only [mem_staff_putMembership hc hm hfree]
    split
    · next hmid =>
      have hmid : m.id = mid := Std.LawfulEqOrd.eq_of_compare hmid
      subst hmid
      rw [Option.some.injEq]
      constructor
      · rintro rfl
        exact ⟨m, .inl ⟨rfl, rfl⟩, rfl⟩
      · rintro ⟨x, ⟨-, rfl⟩ | ⟨-, hne⟩, hid⟩
        · rfl
        · exact absurd hid hne
    · next hmid =>
      have hmid : m.id ≠ mid := fun h => hmid (h ▸ Std.ReflOrd.compare_self)
      rw [hc.index_iff]
      constructor
      · rintro ⟨x, hx, rfl⟩
        exact ⟨x, .inr ⟨hx, hmid.symm⟩, rfl⟩
      · rintro ⟨x, ⟨rfl, -⟩ | ⟨hx, -⟩, rfl⟩
        · exact absurd rfl hmid
        · exact ⟨x, hx, rfl⟩

end Put

/-- Dropping a membership strikes it from every staff, in as far as it stands there. -/
theorem staff_dropMembership (hc : h.Consistent) (mid : MembershipId) :
    (h.dropMembership mid).2.tree.staff j = (h.tree.staff j).filter (·.id ≠ mid) := by
  rw [tree_staff_dropMembership]
  split
  · exact eraseP_eq_filter (hc.staff_nodup j)
  · next hj =>
    -- the index does not lead here, so the membership does not stand here
    refine (List.filter_eq_self.2 fun x hx => ?_).symm
    have hne : x.id ≠ mid := fun hid => hj (hc.index_iff.2 ⟨x, hx, hid⟩)
    simpa using hne

/-- Removing a membership leaves the staff of every other entity alone. -/
theorem staff_dropMembership_of_ne (hc : h.Consistent) (hm : h.membership? mid = some m)
    (hj : m.entity.id ≠ j) :
    (h.dropMembership mid).2.tree.staff j = h.tree.staff j := by
  obtain ⟨hmem, rfl⟩ := hc.membership?_eq_some_iff.1 hm
  rw [tree_staff_dropMembership, if_neg]
  rw [hc.index_of_membership hmem, Option.some.injEq]
  exact hj

/-- The memberships of other ids are left. -/
theorem mem_memberships_dropMembership (hc : h.Consistent) (mid : MembershipId) :
    m ∈ (h.dropMembership mid).2.memberships ↔ m ∈ h.memberships ∧ m.id ≠ mid := by
  simp only [mem_memberships_iff, hc.staff_dropMembership, List.mem_filter, decide_eq_true_eq,
    exists_and_right]

/-- Dropping a membership keeps a hierarchy consistent. -/
theorem dropMembership (hc : h.Consistent) (mid : MembershipId) :
    (h.dropMembership mid).2.Consistent := by
  have hlinks := h.sameLinks_dropMembership mid
  refine ⟨hc.linked.of_sameLinks hlinks, ?_, ?_, ?_⟩
  · intro j x hx
    rw [hc.staff_dropMembership] at hx
    rw [hlinks.entity]
    exact hc.staff_entity (List.mem_of_mem_filter hx)
  · intro j
    rw [hc.staff_dropMembership]
    exact (hc.staff_nodup j).sublist (List.filter_sublist.map _)
  · intro k j
    rw [getElem?_index_dropMembership, hc.staff_dropMembership]
    split
    · next hk =>
      subst hk
      simp
    · next hk =>
      rw [hc.index_iff]
      simp only [List.mem_filter, decide_eq_true_eq]
      constructor
      · rintro ⟨x, hx, rfl⟩
        exact ⟨x, ⟨hx, Ne.symm hk⟩, rfl⟩
      · rintro ⟨x, ⟨hx, -⟩, hid⟩
        exact ⟨x, hx, hid⟩

end Consistent

end StaffRights.Hierarchy
