import StaffRights.Proofs.Hierarchy.Changes

/-!
# What is to be published again

What is published of an entity shows its children and its staff. A change that is carried out names
each entity of which one of these is another than before, names nothing twice, and names nothing but
the entity of the membership that it changed, or the parents between which it changed the links.

Reference: `SPEC_FULL.md` 4.4 and 10.7 (what each change emits).
-/

namespace StaffRights

/-- The change from `h` to `h'` is about the entity: it has the membership that is changed, or it is
the old or the new parent of the entity that is. -/
def Change.Concerns (h h' : Hierarchy) (x : Entity) : Change → Prop
  | .insertEntity ⟨_, id⟩ _ | .saveEntity id | .moveEntity id _ | .deleteEntity id
  | .setAwarded id _ => h.tree.parent id = some x ∨ h'.tree.parent id = some x
  | .insertMembership m => m.entity = x
  | .updateMembership mid _ | .removeMembership mid =>
    ∃ m, h.membership? mid = some m ∧ m.entity = x

/-- The events tell exactly what the change from `h` to `h'` altered in what is published. -/
structure Change.Reports (c : Change) (h h' : Hierarchy) (events : List Invalidation) : Prop where
  /-- Whoever has other children or another staff than before is named once. -/
  complete : ∀ id e, h.tree.entity id ≠ none → h'.tree.entity id = some e →
    h'.tree.children id ≠ h.tree.children id ∨ h'.tree.staff id ≠ h.tree.staff id →
      events.count ⟨e⟩ = 1
  /-- Nothing is named twice. -/
  nodup : events.Nodup
  /-- Whatever is named is there. -/
  present : ∀ i ∈ events, h'.tree.entity i.entity.id = some i.entity
  /-- Nothing else is named. -/
  concerned : ∀ i ∈ events, c.Concerns h h' i.entity
  /-- However much is deleted, at most one entity is named. -/
  deletion : ∀ id, c = .deleteEntity id → events.length ≤ 1

namespace Hierarchy

variable {h h' : Hierarchy} {id j : EntityId} {e p : Entity} {q : Option Entity} {i : Invalidation}

/-- The parent is announced, and nothing else is. -/
theorem mem_invalidateParent_iff : i ∈ invalidateParent q ↔ q = some i.entity := by
  obtain ⟨x⟩ := i
  cases q with
  | none => simp [invalidateParent]
  | some p => simp [invalidateParent, eq_comm]

/-- The parent is announced once. -/
theorem nodup_invalidateParent : (invalidateParent q).Nodup := by
  cases q <;> simp [invalidateParent]

/-- At most one parent is announced. -/
theorem length_invalidateParent_le : (invalidateParent q).length ≤ 1 := by
  cases q <;> simp [invalidateParent]

/-- The old parent and another one are named once each. -/
theorem nodup_invalidateParent_append (hne : q ≠ some p) :
    (invalidateParent q ++ [Invalidation.mk p]).Nodup := by
  rw [List.nodup_append]
  refine ⟨nodup_invalidateParent, List.nodup_singleton _, fun x hx y hy => ?_⟩
  rw [List.mem_singleton] at hy
  rintro rfl
  rw [hy, mem_invalidateParent_iff] at hx
  exact hne hx

namespace Consistent

variable (hc : h.Consistent)

include hc

/-! ## What is not named -/

/-- Nobody but the parent loses a child when an entity is deleted with everything below it. -/
theorem children_dropSubtree (he : h.tree.entity e.id = some e) (hj : ¬ h.tree.AtOrAbove e.id j)
    (hparent : ¬ h.tree.ParentOf j e.id) :
    (h.dropSubtree e).1.tree.children j = h.tree.children j := by
  refine (hc.dropSubtree he).2.children_of_kept hj fun c hmem hgone => hparent ?_
  rw [(hc.linked.atOrAbove_child_iff hmem hj).1 hgone]
  exact (hc.linked.mem_children_iff.1 hmem).2

/-- An entity that a change does not name has its children and its staff as before. -/
theorem same_of_unnamed {c : Change} {o : Outcome c.Value} (hd : h.Done c o h')
    (hj : h.tree.entity j ≠ none) (hj' : h'.tree.entity j ≠ none)
    (hunnamed : ∀ i ∈ o.events, i.entity.id ≠ j) :
    h'.tree.children j = h.tree.children j ∧ h'.tree.staff j = h.tree.staff j := by
  -- each change alters the children of parents that it names, or the staff of the entity it names
  cases hd with
  | @insertEntity e above q hq =>
    obtain ⟨hnew, -, hparent⟩ := hc.placeFor_spec hq
    have hej : e.id ≠ j := by
      rintro rfl
      exact hj hnew
    have hqj : q.map (·.id) ≠ some j := by
      intro hq
      obtain ⟨p, rfl, hpj⟩ := Option.map_eq_some_iff.1 hq
      exact hunnamed ⟨p⟩ (mem_invalidateParent_iff.2 rfl) hpj
    rw [h.tree_children_attach e fun p hp => (hparent p hp).1, tree_staff_attach, if_neg hej,
      if_neg hqj, if_neg hej]
    exact ⟨rfl, rfl⟩
  | saveEntity | stay => exact ⟨rfl, rfl⟩
  | @moveEntity id parent e p he hp =>
    obtain rfl := hc.linked.entity_id hp
    have hold : (h.tree.parent id).map (·.id) ≠ some j := by
      intro hold
      obtain ⟨x, hx, hxj⟩ := Option.map_eq_some_iff.1 hold
      exact hunnamed ⟨x⟩ (List.mem_append_left _ (mem_invalidateParent_iff.2 hx)) hxj
    have hpj : p.id ≠ j := hunnamed ⟨p⟩ (List.mem_append_right _ (List.mem_singleton_self _))
    rw [h.tree_children_relink he hp, h.tree_staff_relink he, if_neg hold, if_neg hpj,
      List.append_nil]
    exact ⟨rfl, rfl⟩
  | @deleteEntity id e he =>
    obtain rfl := hc.linked.entity_id he
    have hw := (hc.dropSubtree he).2
    have hkept : ¬ h.tree.AtOrAbove e.id j := fun hgone => hj' (hw.entity_of_gone hgone)
    refine ⟨hc.children_dropSubtree he hkept ?_, hw.staff_of_kept hkept⟩
    rintro ⟨p, hp, hpj⟩
    exact hunnamed ⟨p⟩ (mem_invalidateParent_iff.2 hp) hpj
  | setAwarded =>
    exact ⟨(h.sameLinks_setAwarded _ _).children j, h.tree_staff_setAwarded _ _⟩
  | insertMembership | updateMembership =>
    have hmj := hunnamed _ (List.mem_singleton_self _)
    exact ⟨(h.sameLinks_putMembership _).children j, h.tree_staff_putMembership_of_ne hmj⟩
  | removeMembership hm =>
    have hmj := hunnamed _ (List.mem_singleton_self _)
    exact ⟨(h.sameLinks_dropMembership _).children j, hc.staff_dropMembership_of_ne hm hmj⟩

/-! ## What is named -/

/-- The parent that an entity leaves behind or comes to is there afterwards. -/
theorem present_of_done {c : Change} {o : Outcome c.Value} (hd : h.Done c o h')
    (hi : i ∈ o.events) : h'.tree.entity i.entity.id = some i.entity := by
  cases hd with
  | @insertEntity e above q hq =>
    obtain ⟨hnew, -, hparent⟩ := hc.placeFor_spec hq
    obtain ⟨hx, -⟩ := hparent i.entity (mem_invalidateParent_iff.1 hi)
    rw [tree_entity_attach, if_neg (ne_of_new hnew hx), hx]
  | saveEntity => exact hc.linked.entity_parent (mem_invalidateParent_iff.1 hi)
  | stay he hp hparent =>
    rw [List.mem_singleton.1 hi]
    exact hc.linked.entity_parent hparent
  | moveEntity he hp =>
    rw [h.tree_entity_relink he]
    rcases List.mem_append.1 hi with hold | hnew
    · exact hc.linked.entity_parent (mem_invalidateParent_iff.1 hold)
    · obtain rfl := hc.linked.entity_id hp
      rwa [List.mem_singleton.1 hnew]
  | @deleteEntity id e he =>
    obtain rfl := hc.linked.entity_id he
    have hp := mem_invalidateParent_iff.1 hi
    -- the parent of what is deleted is not itself deleted
    rw [(hc.dropSubtree he).2.entity_of_kept (hc.linked.not_atOrAbove_parent hp)]
    exact hc.linked.entity_parent hp
  | setAwarded => exact absurd hi List.not_mem_nil
  | insertMembership he =>
    rw [List.mem_singleton.1 hi, (h.sameLinks_putMembership _).entity]
    exact he
  | updateMembership hm =>
    rw [List.mem_singleton.1 hi, (h.sameLinks_putMembership _).entity]
    exact hc.entity_of_membership (hc.membership?_eq_some_iff.1 hm).1
  | removeMembership hm =>
    rw [List.mem_singleton.1 hi, (h.sameLinks_dropMembership _).entity]
    exact hc.entity_of_membership (hc.membership?_eq_some_iff.1 hm).1

omit hc in
/-- A change names what it concerns, once. -/
theorem concerns_of_done {c : Change} {o : Outcome c.Value} (hd : h.Done c o h') :
    o.events.Nodup ∧ ∀ i ∈ o.events, c.Concerns h h' i.entity := by
  cases hd with
  | insertEntity hq =>
    refine ⟨nodup_invalidateParent, fun i hi => .inr ?_⟩
    rw [tree_parent_attach, if_pos rfl]
    exact mem_invalidateParent_iff.1 hi
  | saveEntity | deleteEntity =>
    exact ⟨nodup_invalidateParent, fun i hi => .inl (mem_invalidateParent_iff.1 hi)⟩
  | stay he hp hparent =>
    refine ⟨List.nodup_singleton _, fun i hi => .inl ?_⟩
    rwa [List.mem_singleton.1 hi]
  | moveEntity he hp hkind hinst hparent =>
    refine ⟨nodup_invalidateParent_append hparent, fun i hi => ?_⟩
    rcases List.mem_append.1 hi with hold | hnew
    · exact .inl (mem_invalidateParent_iff.1 hold)
    · apply Or.inr
      rw [h.tree_parent_relink he, if_pos rfl, List.mem_singleton.1 hnew]
  | setAwarded => exact ⟨List.nodup_nil, fun i hi => absurd hi List.not_mem_nil⟩
  | insertMembership =>
    refine ⟨List.nodup_singleton _, fun i hi => ?_⟩
    rw [List.mem_singleton.1 hi]
    rfl
  | updateMembership hm | removeMembership hm =>
    refine ⟨List.nodup_singleton _, fun i hi => ?_⟩
    rw [List.mem_singleton.1 hi]
    exact ⟨_, hm, rfl⟩

/-- Every change that is carried out reports exactly what it altered in what is published. -/
theorem reports {c : Change} {o : Outcome c.Value} (ha : (h.attempt c).answer = .ok o) :
    c.Reports h (h.change c) o.events := by
  have hd := done_of_answer ha
  generalize h.change c = h' at hd ⊢
  obtain ⟨hnodup, hconcerned⟩ := concerns_of_done hd
  refine ⟨?_, hnodup, fun i => hc.present_of_done hd, hconcerned, ?_⟩
  · intro id e hid hid' hchanged
    have hnone : h'.tree.entity id ≠ none := by simp [hid']
    refine List.count_eq_one_of_mem hnodup ?_
    -- otherwise nothing with the id is named, and nothing of it has changed
    by_contra hunnamed
    obtain ⟨hchildren, hstaff⟩ := hc.same_of_unnamed hd hid hnone fun i hi hii => by
      have hpresent := hc.present_of_done hd hi
      rw [hii, hid', Option.some.injEq] at hpresent
      rw [hpresent] at hunnamed
      exact hunnamed hi
    rcases hchanged with hne | hne
    · exact hne hchildren
    · exact hne hstaff
  · rintro id rfl
    cases hd
    exact length_invalidateParent_le

end Consistent

end Hierarchy

end StaffRights
