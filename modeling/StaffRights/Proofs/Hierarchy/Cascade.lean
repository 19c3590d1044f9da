import StaffRights.Proofs.Hierarchy.Protection

/-!
# What a deletion takes

A deletion looks for awards at and below the entity, and takes exactly the entities that it has
looked at. What is left is as it was, but for the children of one parent. What is gone is reported
once each, entities after all that was below them, and memberships with their entities.

Reference: `SPEC_FULL.md` 4.4 and 8 (cascading deletion).
-/

namespace StaffRights.Hierarchy

variable {h h' : Hierarchy} {id j : EntityId} {e : Entity} {m : Membership}

/-- Credentials were awarded for the entity or for one below it. -/
def AwardedWithin (h : Hierarchy) (id : EntityId) : Prop :=
  ∃ x n, h.tree.AtOrAbove id x ∧ h.node? x = some n ∧ 0 < n.awarded

/-- `h'` is `h` without the entity and all below it, and `removed` lists what is gone. -/
structure Cascade (h h' : Hierarchy) (e : Entity) (removed : Removed) : Prop where
  gone : ∀ j, h.tree.AtOrAbove e.id j → h'.node? j = none
  /-- The parent loses the entity from its children, and these keep their order. -/
  parent : ∀ j, h.tree.ParentOf j e.id → h'.node? j =
    (h.node? j).map fun n => { n with children := n.children.filter (·.id ≠ e.id) }
  kept : ∀ j, ¬ h.tree.AtOrAbove e.id j → ¬ h.tree.ParentOf j e.id → h'.node? j = h.node? j
  /-- The index is that of the staff that is left. -/
  index : ∀ mid j, h'.index[mid]? = some j ↔ ∃ m ∈ h'.tree.staff j, m.id = mid
  mem_entities : ∀ x, x ∈ removed.entities ↔
    h.tree.entity x.id = some x ∧ h.tree.AtOrAbove e.id x.id
  nodup_entities : (removed.entities.map (·.id)).Nodup
  /-- No entity is listed before one that was below it. -/
  leavesFirst : removed.entities.Pairwise fun x y => ¬ h.tree.Above x.id y.id
  last : removed.entities.getLast? = some e
  mem_memberships : ∀ m, m ∈ removed.memberships ↔
    ∃ j, h.tree.AtOrAbove e.id j ∧ m ∈ h.tree.staff j
  nodup_memberships : (removed.memberships.map (·.id)).Nodup

namespace Consistent

variable (hc : h.Consistent)

include hc

/-! ## What is left -/

/-- Of the children of what is left, the dropped entity alone is gone. -/
theorem node?_dropSubtree (he : h.tree.entity e.id = some e) (hj : ¬ h.tree.AtOrAbove e.id j) :
    (h.dropSubtree e).1.node? j =
      (h.node? j).map fun n => { n with children := n.children.filter (·.id ≠ e.id) } := by
  have hnode := (hc.dropSubtree he).2 j
  rw [if_neg hj] at hnode
  rw [hnode]
  cases hn : h.node? j with
  | none => rfl
  | some n =>
    rw [Option.map_some, Option.map_some, ← h.children_of_node? hn]
    congr 2
    refine List.filter_congr fun c hmem => decide_eq_decide.2 (not_congr ?_)
    rw [hc.linked.atOrAbove_child_iff hmem hj, eq_comm]

/-- What is not the parent of the dropped entity loses no child. -/
theorem node?_dropSubtree_of_not_parent (he : h.tree.entity e.id = some e)
    (hj : ¬ h.tree.AtOrAbove e.id j) (hparent : ¬ h.tree.ParentOf j e.id) :
    (h.dropSubtree e).1.node? j = h.node? j := by
  rw [hc.node?_dropSubtree he hj]
  cases hn : h.node? j with
  | none => rfl
  | some n =>
    have hfilter : n.children.filter (·.id ≠ e.id) = n.children := by
      refine List.filter_eq_self.2 fun c hmem => decide_eq_true fun hid => hparent ?_
      rw [← h.children_of_node? hn] at hmem
      exact hid ▸ (hc.linked.mem_children_iff.1 hmem).2
    rw [Option.map_some, hfilter]

/-! ## What is reported -/

/-- The staff of different entities has different memberships. -/
theorem nodup_flatMap_staff {es : List Entity} (hes : (es.map (·.id)).Nodup) :
    ((es.flatMap fun e => h.tree.staff e.id).map (·.id)).Nodup := by
  rw [List.map_flatMap, List.nodup_flatMap]
  refine ⟨fun e _ => hc.staff_nodup e.id, (List.pairwise_map.1 hes).imp ?_⟩
  intro x y hxy mid hx hy
  obtain ⟨m, hm, rfl⟩ := List.mem_map.1 hx
  obtain ⟨m', hm', hid⟩ := List.mem_map.1 hy
  exact hxy (hc.eq_of_id_eq hm hm' hid.symm).1

/-- Dropping a subtree is what it is said to be. -/
theorem cascade_dropSubtree (he : h.tree.entity e.id = some e) :
    h.Cascade (h.dropSubtree e).1 e (h.dropSubtree e).2 := by
  obtain ⟨hc', hw, hremoved⟩ := hc.dropSubtree_cases he
  have hnodup := hc.linked.nodup_leavesFirst he
  rw [hremoved]
  exact {
    gone := fun j hj => hw.node?_of_gone hj
    parent := by
      rintro j ⟨p, hp, rfl⟩
      exact hc.node?_dropSubtree he (hc.linked.not_atOrAbove_parent hp)
    kept := fun j => hc.node?_dropSubtree_of_not_parent he
    index := fun mid j => hc'.index_iff
    mem_entities := fun x => hc.linked.mem_leavesFirst_iff he
    nodup_entities := hnodup
    leavesFirst := hc.linked.pairwise_leavesFirst he
    last := hc.linked.getLast?_leavesFirst he
    mem_memberships := by
      intro m
      simp only [Removed.add, List.nil_append, List.mem_flatMap, hc.linked.mem_leavesFirst_iff he]
      constructor
      · rintro ⟨x, ⟨-, hx⟩, hm⟩
        exact ⟨x.id, hx, hm⟩
      · rintro ⟨j, hj, hm⟩
        obtain rfl := hc.id_of_mem_staff hm
        exact ⟨m.entity, ⟨hc.staff_entity hm, hj⟩, hm⟩
    nodup_memberships := hc.nodup_flatMap_staff hnodup }

/-! ## When it is turned down -/

/-- Credentials awarded for anything below protect an entity. -/
theorem deleteEntity_of_awardedWithin (he : h.tree.entity id = some e)
    (hawarded : h.AwardedWithin id) : h.deleteEntity id = .refuse (.awarded e.kind) h := by
  obtain ⟨x, n, hx, hn, hpos⟩ := hawarded
  exact hc.deleteEntity_of_awarded_below (h.tree_awarded_iff.2 ⟨n, hn, hpos⟩) hx he

/-- Without any, an entity is dropped with everything below it. -/
theorem deleteEntity_of_not_awardedWithin (he : h.tree.entity id = some e)
    (hnone : ¬ h.AwardedWithin id) :
    h.deleteEntity id = .done (h.dropSubtree e).2 (invalidateParent (h.tree.parent id)) .everyone
      (h.dropSubtree e).1 := by
  have hbranch : ¬ (h.tree.branch id .downward).any (fun d => h.tree.awarded d.id) := by
    rw [List.any_eq_true]
    rintro ⟨d, hd, hawarded⟩
    obtain ⟨n, hn, hpos⟩ := h.tree_awarded_iff.1 hawarded
    exact hnone ⟨d.id, n, (hc.linked.mem_branch_downward_iff.1 hd).2, hn, hpos⟩
  simp only [deleteEntity_eq, he]
  rw [if_neg hbranch]

/-- The refusal names the kind of the entity, whatever below it is protected. -/
theorem deleteEntity_eq_awarded_iff (he : h.tree.entity id = some e) :
    (h.deleteEntity id).answer = .error (.awarded e.kind) ↔ h.AwardedWithin id := by
  constructor
  · intro ha
    by_contra hnone
    rw [hc.deleteEntity_of_not_awardedWithin he hnone] at ha
    cases ha
  · intro hawarded
    rw [hc.deleteEntity_of_awardedWithin he hawarded]
    rfl

end Consistent

/-- Only an unknown entity is answered as missing. -/
theorem deleteEntity_eq_notFound_iff :
    (h.deleteEntity id).answer = .error .notFound ↔ h.tree.entity id = none := by
  refine ⟨deleteEntity_missing, fun hid => ?_⟩
  rw [deleteEntity_eq, hid]
  rfl

/-! ## Reachable hierarchies -/

/-- A deletion finds nothing if the entity is unknown, and is turned down if anything at or below it
has awards. Otherwise it takes the entity and all below it and nothing else, reports each once with
its staff, those below before those above, and has the parent published again if there is one. -/
theorem Reachable.deletion_takes_subtree (hr : h.Reachable) (id : EntityId) :
    ((h.deleteEntity id).answer = .error .notFound ↔ h.tree.entity id = none) ∧
    ∀ e, h.tree.entity id = some e →
      ((h.deleteEntity id).answer = .error (.awarded e.kind) ↔ h.AwardedWithin id) ∧
      (¬ h.AwardedWithin id → ∃ removed events h',
        h.deleteEntity id = .done removed events .everyone h' ∧ h.Cascade h' e removed ∧
        (e.kind = .institution → events = []) ∧
        (e.kind ≠ .institution → ∃ p, h.tree.parent id = some p ∧ events = [⟨p⟩])) := by
  have hc := hr.consistent
  refine ⟨deleteEntity_eq_notFound_iff, fun e he =>
    ⟨hc.deleteEntity_eq_awarded_iff he, fun hnone => ?_⟩⟩
  have hroot := hc.linked.parent_eq_none_iff he
  obtain rfl := hc.linked.entity_id he
  refine ⟨_, _, _, hc.deleteEntity_of_not_awardedWithin he hnone, hc.cascade_dropSubtree he,
    fun hkind => ?_, fun hkind => ?_⟩
  · rw [hroot.2 hkind]
    rfl
  · obtain ⟨p, hp⟩ := Option.ne_none_iff_exists'.1 (mt hroot.1 hkind)
    exact ⟨p, hp, by rw [hp]; rfl⟩

/-- A faculty is deleted with its issuer and the badge class of that. The other faculty protects the
institution. -/
theorem Reachable.deletion_takes_subtree_of_faculty :
    let e : Entity := ⟨.faculty, .ofNat 2⟩
    let m : Membership := ⟨.ofNat 6, .ofNat 7, ⟨.issuer, .ofNat 4⟩, .full, none⟩
    let h := (∅ : Hierarchy).run [.insertEntity ⟨.institution, .ofNat 1⟩ none,
      .insertEntity e (some (.ofNat 1)),
      .insertEntity ⟨.faculty, .ofNat 3⟩ (some (.ofNat 1)),
      .insertEntity ⟨.issuer, .ofNat 4⟩ (some (.ofNat 2)),
      .insertEntity ⟨.badgeClass, .ofNat 5⟩ (some (.ofNat 4)), .insertMembership m,
      .setAwarded (.ofNat 3) 1]
    (h.deleteEntity (.ofNat 8)).answer = .error .notFound ∧
      (h.deleteEntity (.ofNat 1)).answer = .error (.awarded .institution) ∧
      ∃ removed h', h.deleteEntity e.id = .done removed [⟨⟨.institution, .ofNat 1⟩⟩] .everyone h' ∧
        h.Cascade h' e removed ∧
        removed = ⟨[⟨.badgeClass, .ofNat 5⟩, ⟨.issuer, .ofNat 4⟩, e], [m]⟩ ∧ h'.size = 2 := by
  intro e m h
  have hr : h.Reachable := .run .empty _
  have he : h.tree.entity e.id = some e := by decide +kernel
  have hanswer : (h.deleteEntity e.id).answer =
      .ok ⟨⟨[⟨.badgeClass, .ofNat 5⟩, ⟨.issuer, .ofNat 4⟩, e], [m]⟩,
        [⟨⟨.institution, .ofNat 1⟩⟩], .everyone⟩ := by decide +kernel
  have hsize : (h.deleteEntity e.id).after.size = 2 := by decide +kernel
  have hprotected : h.AwardedWithin (.ofNat 1) :=
    ⟨.ofNat 3, ⟨⟨.faculty, .ofNat 3⟩, some ⟨.institution, .ofNat 1⟩, [], [], 1⟩,
      .single ⟨⟨.institution, .ofNat 1⟩, by decide +kernel, rfl⟩, by decide +kernel, by decide⟩
  obtain ⟨hunknown, -⟩ := hr.deletion_takes_subtree (.ofNat 8)
  obtain ⟨-, hroot⟩ := hr.deletion_takes_subtree (.ofNat 1)
  obtain ⟨-, hfaculty⟩ := hr.deletion_takes_subtree e.id
  obtain ⟨hawarded, hdeleted⟩ := hfaculty e he
  have hfree : ¬ h.AwardedWithin e.id := fun hwithin => by
    have hrefused := hawarded.2 hwithin
    rw [hanswer] at hrefused
    cases hrefused
  obtain ⟨removed, events, h', hdone, hcascade, -⟩ := hdeleted hfree
  rw [hdone] at hanswer hsize ⊢
  simp only [Attempt.done, Except.ok.injEq, Outcome.mk.injEq] at hanswer
  obtain ⟨rfl, rfl, -⟩ := hanswer
  exact ⟨hunknown.2 (by decide +kernel),
    (hroot ⟨.institution, .ofNat 1⟩ (by decide +kernel)).1.2 hprotected,
    _, _, rfl, hcascade, rfl, hsize⟩

end StaffRights.Hierarchy
