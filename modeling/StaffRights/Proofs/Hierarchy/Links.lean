import Mathlib.Data.List.Nodup
import StaffRights.Proofs.Hierarchy.Consistent

/-!
# Links after each operation

Attaching a new entity below a parent of the right kind, moving an entity below another such parent
and dropping an entity without children and staff each keep a hierarchy consistent.
-/

namespace StaffRights.Hierarchy.Consistent

variable {h : Hierarchy} {id j : EntityId} {e p c : Entity}

/-- Striking an entity from its parent strikes it wherever it is a child. -/
theorem children_filter (hc : h.Consistent) (id : EntityId) :
    (if (h.tree.parent id).map (·.id) = some j then (h.tree.children j).filter (·.id ≠ id)
      else h.tree.children j) = (h.tree.children j).filter (·.id ≠ id) := by
  split
  · rfl
  · next hj =>
    refine (List.filter_eq_self.2 fun c hmem => ?_).symm
    obtain ⟨-, q, hq, hqj⟩ := hc.linked.mem_children_iff.1 hmem
    have hne : c.id ≠ id := by
      rintro rfl
      exact hj (by rw [hq, Option.map_some, hqj])
    simpa using hne

/-! ## Attaching -/

section Attach

variable {q : Option Entity} (hc : h.Consistent) (hnew : h.tree.entity e.id = none)
  (hroot : q = none ↔ e.kind = .institution)
  (hparent : ∀ p, q = some p → h.tree.entity p.id = some p ∧ e.kind.above = some p.kind)

include hnew

/-- A known id is not that of a new entity. -/
theorem ne_of_new {x : Entity} (hx : h.tree.entity j = some x) : e.id ≠ j := by
  rintro rfl
  rw [hnew] at hx
  cases hx

include hc hparent

/-- The new entity is a child of its parent, and there are no other new children. -/
theorem mem_children_attach :
    c ∈ (h.attach e q).tree.children j ↔
      c ∈ h.tree.children j ∨ c = e ∧ q.map (·.id) = some j := by
  rw [h.tree_children_attach e fun p hp => (hparent p hp).1]
  split_ifs with hj hq
  · -- the new entity has no children, and it is not its own parent
    subst hj
    constructor
    · exact fun hmem => (List.not_mem_nil hmem).elim
    · rintro (hmem | ⟨-, hq⟩)
      · obtain ⟨-, p, hp, hpe⟩ := hc.linked.mem_children_iff.1 hmem
        exact absurd hpe.symm (ne_of_new hnew (hc.linked.entity_parent hp))
      · obtain ⟨p, rfl, hpe⟩ := Option.map_eq_some_iff.1 hq
        exact absurd hpe.symm (ne_of_new hnew (hparent p rfl).1)
  · simp [hq]
  · simp [hq]

include hroot

/-- A new entity in a place for its kind leaves the links of a tree in order: it has no children
yet, and was nobody's child. -/
theorem linked_attach : (h.attach e q).tree.Linked where
  entity_id {j x} hx := by
    rw [tree_entity_attach] at hx
    split at hx
    · next hj =>
      rw [Option.some.injEq] at hx
      rw [← hx, hj]
    · exact hc.linked.entity_id hx
  parent_eq_none_iff {j x} hx := by
    rw [tree_entity_attach] at hx
    rw [tree_parent_attach]
    split at hx
    · next hj =>
      rw [Option.some.injEq] at hx
      rw [if_pos hj, ← hx]
      exact hroot
    · next hj =>
      rw [if_neg hj]
      exact hc.linked.parent_eq_none_iff hx
  -- the parent was there before the new entity, so it has another id
  parent_entity {j p} hp := by
    rw [tree_parent_attach] at hp
    simp only [tree_entity_attach]
    split at hp
    · next hj =>
      obtain ⟨hpe, hkind⟩ := hparent p hp
      exact ⟨e, if_pos hj, by rw [if_neg (ne_of_new hnew hpe), hpe], hkind⟩
    · next hj =>
      obtain ⟨x, hx, hpe, hkind⟩ := hc.linked.parent_entity hp
      exact ⟨x, by rw [if_neg hj, hx], by rw [if_neg (ne_of_new hnew hpe), hpe], hkind⟩
  mem_children_iff {j c} := by
    rw [mem_children_attach hc hnew hparent, parentOf_attach, tree_entity_attach,
      hc.linked.mem_children_iff]
    split
    · next hce =>
      -- nothing was the parent of an entity that was not there
      rw [← hce, hnew, Option.some.injEq]
      constructor
      · rintro (⟨hx, -⟩ | ⟨rfl, hq⟩)
        · cases hx
        · exact ⟨rfl, hq⟩
      · rintro ⟨rfl, hq⟩
        exact .inr ⟨rfl, hq⟩
    · next hce =>
      constructor
      · rintro (hx | ⟨rfl, -⟩)
        · exact hx
        · exact absurd rfl hce
      · exact .inl
  children_nodup j := by
    rw [h.tree_children_attach e fun p hp => (hparent p hp).1]
    split_ifs
    · exact List.nodup_nil
    -- the new entity is listed last by its parent, and was a child of nothing before
    · rw [List.nodup_append]
      refine ⟨hc.linked.children_nodup j, List.nodup_singleton e, fun x hx y hy => ?_⟩
      rw [List.mem_singleton] at hy
      rintro rfl
      exact ne_of_new hnew (hc.linked.entity_child hx) (congrArg Entity.id hy).symm
    · exact hc.linked.children_nodup j

/-- Attaching a new entity below an entity of the kind just above keeps a hierarchy consistent. -/
theorem attach : (h.attach e q).Consistent := by
  refine hc.of_linked (linked_attach hc hnew hroot hparent) (fun j => ?_) (h.index_attach e q) ?_
  · rw [tree_staff_attach]
    split
    · next hj => rw [← hj, hc.staff_of_unknown hnew]
    · rfl
  · intro j hj
    rw [tree_entity_attach, if_neg]
    rintro rfl
    exact hj (hc.staff_of_unknown hnew)

end Attach

/-! ## Moving -/

section Relink

variable (hc : h.Consistent) (he : h.tree.entity id = some e) (hp : h.tree.entity p.id = some p)
  (hkind : e.kind.above = some p.kind)

include hc he hp

/-- The moved entity is struck wherever it is a child, and then listed last by the new parent. -/
theorem children_relink :
    (h.relink id p).tree.children j =
      (h.tree.children j).filter (·.id ≠ id) ++ if p.id = j then [e] else [] := by
  rw [h.tree_children_relink he hp, hc.children_filter]

/-- The moved entity is a child of the new parent only, and the other children are the same. -/
theorem mem_children_relink :
    c ∈ (h.relink id p).tree.children j ↔
      c ∈ h.tree.children j ∧ c.id ≠ id ∨ c = e ∧ p.id = j := by
  rw [children_relink hc he hp, List.mem_append, List.mem_filter, decide_eq_true_eq]
  split <;> simp [*]

include hkind

/-- A move below an entity of the kind just above leaves the links of a tree in order: no other
entity has another parent than before. -/
theorem linked_relink : (h.relink id p).tree.Linked where
  entity_id hx := hc.linked.entity_id (by rwa [h.tree_entity_relink he] at hx)
  -- the moved entity has a parent now, and a kind that asks for one
  parent_eq_none_iff {j x} hx := by
    rw [h.tree_entity_relink he] at hx
    rw [h.tree_parent_relink he]
    split
    · next hj =>
      rw [← hj, he, Option.some.injEq] at hx
      have hnot := Kind.ne_institution_of_above hkind
      simp [← hx, hnot]
    · exact hc.linked.parent_eq_none_iff hx
  parent_entity {j q} hq := by
    simp only [h.tree_entity_relink he]
    rw [h.tree_parent_relink he] at hq
    split at hq
    · next hj =>
      rw [Option.some.injEq] at hq
      subst hj hq
      exact ⟨e, he, hp, hkind⟩
    · exact hc.linked.parent_entity hq
  mem_children_iff {j c} := by
    rw [mem_children_relink hc he hp, h.parentOf_relink he, h.tree_entity_relink he,
      hc.linked.mem_children_iff]
    split
    · next hid =>
      rw [← hid, he, Option.some.injEq]
      simp [eq_comm]
    · next hid =>
      constructor
      · rintro (⟨hx, -⟩ | ⟨rfl, -⟩)
        · exact hx
        · exact absurd (hc.linked.entity_id he).symm hid
      · exact fun hx => .inl ⟨hx, Ne.symm hid⟩
  children_nodup j := by
    rw [children_relink hc he hp]
    have hfilter := (hc.linked.children_nodup j).filter fun c => decide (c.id ≠ id)
    split
    · rw [List.nodup_append]
      refine ⟨hfilter, List.nodup_singleton e, fun x hx y hy => ?_⟩
      rw [List.mem_singleton] at hy
      rintro rfl
      -- the moved entity was struck from the children before it was listed again
      have hne := List.of_mem_filter hx
      rw [hy, hc.linked.entity_id he] at hne
      simp at hne
    · rw [List.append_nil]
      exact hfilter

/-- Moving an entity below an entity of the kind just above keeps a hierarchy consistent. -/
theorem relink : (h.relink id p).Consistent :=
  hc.of_linked (linked_relink hc he hp hkind) (fun _ => h.tree_staff_relink he)
    (h.index_relink id p) fun _ _ => h.tree_entity_relink he

end Relink

/-! ## Dropping -/

section Detach

variable (hc : h.Consistent) (hchildren : h.tree.children id = [])

include hc hchildren

/-- An entity without children is nobody's parent. -/
theorem parent_ne_of_leaf {x : EntityId} (hp : h.tree.parent x = some p) : id ≠ p.id := by
  rintro rfl
  obtain ⟨c, hx, -⟩ := hc.linked.parent_entity hp
  have hcx := hc.linked.entity_id hx
  subst hcx
  have hmem : c ∈ h.tree.children p.id := hc.linked.mem_children_iff.2 ⟨hx, p, hp, rfl⟩
  rw [hchildren] at hmem
  exact List.not_mem_nil hmem

/-- The detached entity is struck wherever it is a child. -/
theorem children_detach :
    (h.detach id).2.tree.children j = (h.tree.children j).filter (·.id ≠ id) := by
  rw [tree_children_detach, hc.children_filter]
  split
  · next hj => rw [← hj, hchildren, List.filter_nil]
  · rfl

/-- Without a leaf the links of a tree are in order, as nothing has the leaf for a parent. -/
theorem linked_detach : (h.detach id).2.tree.Linked where
  entity_id {j x} hx := by
    rw [tree_entity_detach] at hx
    split at hx
    · cases hx
    · exact hc.linked.entity_id hx
  parent_eq_none_iff {j x} hx := by
    rw [tree_entity_detach] at hx
    rw [tree_parent_detach]
    split at hx
    · cases hx
    · next hj =>
      rw [if_neg hj]
      exact hc.linked.parent_eq_none_iff hx
  parent_entity {j q} hq := by
    simp only [tree_entity_detach]
    rw [tree_parent_detach] at hq
    split at hq
    · cases hq
    · next hj =>
      obtain ⟨x, hx, hqe, hkind⟩ := hc.linked.parent_entity hq
      -- what is gone was nobody's parent, so every parent is left
      exact ⟨x, by rw [if_neg hj, hx], by rw [if_neg (parent_ne_of_leaf hc hchildren hq), hqe],
        hkind⟩
  mem_children_iff {j c} := by
    rw [children_detach hc hchildren, List.mem_filter, hc.linked.mem_children_iff,
      tree_entity_detach]
    simp only [Tree.ParentOf, tree_parent_detach]
    split
    · next hid => simp [← hid]
    · next hid => simp [Ne.symm hid]
  children_nodup j := by
    rw [children_detach hc hchildren]
    exact (hc.linked.children_nodup j).filter _

/-- Dropping an entity without children and staff keeps a hierarchy consistent. -/
theorem detach (hstaff : h.tree.staff id = []) : (h.detach id).2.Consistent := by
  refine hc.of_linked (linked_detach hc hchildren) (fun j => ?_) (h.index_detach id) ?_
  · rw [tree_staff_detach]
    split
    · next hj => rw [← hj, hstaff]
    · rfl
  · intro j hj
    rw [tree_entity_detach, if_neg]
    rintro rfl
    exact hj hstaff

end Detach

end StaffRights.Hierarchy.Consistent
