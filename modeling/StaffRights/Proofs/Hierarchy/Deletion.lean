import StaffRights.Hierarchy.Entities
import StaffRights.Proofs.Hierarchy.Links
import StaffRights.Proofs.Tree.LeavesFirst

/-!
# Dropping a subtree

Dropping a subtree drops the children first, one subtree after the other, and the entity once its
children are gone. Each of these steps leaves a consistent hierarchy, and together they leave the
hierarchy `Without` the entities that the dropped one is at or above: nothing else is lost or
changed, but for the child that a surviving parent loses. What is reported are the dropped entities,
from the leaves up, and their staff.
-/

namespace StaffRights

namespace Removed

variable {t t' : Tree} {es es' : List Entity}

/-- What is removed once the listed entities are removed too, with their staff. -/
def add (r : Removed) (t : Tree) (es : List Entity) : Removed :=
  ⟨r.entities ++ es, r.memberships ++ es.flatMap fun e => t.staff e.id⟩

@[simp] theorem add_nil (r : Removed) : r.add t [] = r := by
  simp [add]

/-- Entities may be added in two parts. -/
theorem add_append (r : Removed) : r.add t (es ++ es') = (r.add t es).add t es' := by
  simp [add]

/-- What is added depends on the tree in nothing but the staff of the added entities. -/
theorem add_congr (r : Removed) (hstaff : ∀ e ∈ es, t'.staff e.id = t.staff e.id) :
    r.add t' es = r.add t es := by
  rw [add, add, List.flatMap_congr hstaff]

end Removed

namespace Hierarchy

variable {h h' h'' : Hierarchy} {gone gone' : EntityId → Prop} {a j : EntityId} {e c : Entity}
  {removed : Removed}

open Classical in
/-- `h'` is what is left of `h` once the entities in `gone` are taken out of it. -/
def Without (h h' : Hierarchy) (gone : EntityId → Prop) : Prop :=
  ∀ j, h'.node? j =
    if gone j then none
    else (h.node? j).map fun n => { n with children := n.children.filter fun c => ¬ gone c.id }

namespace Without

/-- One loss after another is the loss of both. -/
theorem trans (h₁ : h.Without h' gone) (h₂ : h'.Without h'' gone') :
    h.Without h'' fun j => gone j ∨ gone' j := by
  intro j
  rw [h₂ j, h₁ j]
  by_cases hg : gone j
  · simp [hg]
  · by_cases hg' : gone' j
    · simp [hg']
    · cases h.node? j with
      | none => simp [hg, hg']
      | some n =>
        simp only [hg, hg', or_self, if_false, Option.map_some, List.filter_filter]
        congr! 4 with c
        by_cases hc : gone c.id <;> by_cases hc' : gone' c.id <;> simp [hc, hc']

theorem congr (hw : h.Without h' gone) (hiff : ∀ j, gone j ↔ gone' j) : h.Without h' gone' := by
  rwa [← funext fun j => propext (hiff j)]

/-- What is gone has no node. -/
theorem node?_of_gone (hw : h.Without h' gone) (hj : gone j) : h'.node? j = none := by
  rw [hw j, if_pos hj]

theorem entity_of_gone (hw : h.Without h' gone) (hj : gone j) : h'.tree.entity j = none := by
  rw [tree_entity, hw.node?_of_gone hj, Option.map_none]

/-- What is kept is the same entity. -/
theorem entity_of_kept (hw : h.Without h' gone) (hj : ¬ gone j) :
    h'.tree.entity j = h.tree.entity j := by
  rw [tree_entity, hw j, if_neg hj, tree_entity, Option.map_map]
  rfl

/-- What is kept has its parent, even if that is gone. -/
theorem parent_of_kept (hw : h.Without h' gone) (hj : ¬ gone j) :
    h'.tree.parent j = h.tree.parent j := by
  rw [tree_parent, hw j, if_neg hj, tree_parent]
  cases h.node? j <;> rfl

/-- What is kept has its staff. -/
theorem staff_of_kept (hw : h.Without h' gone) (hj : ¬ gone j) :
    h'.tree.staff j = h.tree.staff j := by
  rw [tree_staff, hw j, if_neg hj, tree_staff, Option.map_map]
  rfl

/-- What is kept has its awards. -/
theorem awarded_of_kept (hw : h.Without h' gone) (hj : ¬ gone j) :
    h'.tree.awarded j = h.tree.awarded j := by
  have hnode := hw j
  rw [if_neg hj] at hnode
  exact h.tree_awarded_of_node? hnode fun _ => rfl

/-- What is gone has no staff. -/
theorem staff_of_gone (hw : h.Without h' gone) (hj : gone j) : h'.tree.staff j = [] := by
  rw [tree_staff, hw.node?_of_gone hj]
  rfl

/-- What is left was there. -/
theorem entity_subset (hw : h.Without h' gone) (he : h'.tree.entity j = some e) :
    h.tree.entity j = some e := by
  by_cases hj : gone j
  · rw [hw.entity_of_gone hj] at he
    cases he
  · rwa [hw.entity_of_kept hj] at he

/-- Nobody joins a staff. -/
theorem staff_subset (hw : h.Without h' gone) (j : EntityId) :
    h'.tree.staff j ⊆ h.tree.staff j := by
  by_cases hj : gone j
  · simp [hw.staff_of_gone hj]
  · simp [hw.staff_of_kept hj]

/-- The children that are left are the children that are not gone. -/
theorem mem_children_iff (hw : h.Without h' gone) (hj : ¬ gone j) :
    c ∈ h'.tree.children j ↔ c ∈ h.tree.children j ∧ ¬ gone c.id := by
  rw [tree_children, hw j, if_neg hj, tree_children]
  cases h.node? j <;> simp

/-- An entity of which no child is gone has the same children. -/
theorem children_of_kept (hw : h.Without h' gone) (hj : ¬ gone j)
    (hchildren : ∀ c ∈ h.tree.children j, ¬ gone c.id) :
    h'.tree.children j = h.tree.children j := by
  have hnode := hw j
  rw [if_neg hj] at hnode
  cases hn : h.node? j with
  | none => rw [tree_children, hnode, tree_children, hn]; rfl
  | some n =>
    rw [hn, Option.map_some] at hnode
    rw [h.children_of_node? hn] at hchildren
    rw [h'.children_of_node? hnode, h.children_of_node? hn]
    exact List.filter_eq_self.2 fun c hmem => by simpa using hchildren c hmem

/-- Where nothing below an entity is gone, it is listed as before. -/
theorem leavesFirst (hw : h.Without h' gone) (hlinked : h.tree.Linked)
    (he : h.tree.entity e.id = some e) (hkept : ∀ y, h.tree.AtOrAbove e.id y → ¬ gone y) :
    h'.tree.leavesFirst e = h.tree.leavesFirst e := by
  refine hlinked.leavesFirst_congr he fun y hy => hw.children_of_kept (hkept y hy) ?_
  intro c hmem
  exact hkept c.id (.trans hy (.single (hlinked.mem_children_iff.1 hmem).2))

/-- Nothing gets deeper. -/
theorem depthBelow (hw : h.Without h' gone) {d : Nat} (hd : h.tree.DepthBelow d) :
    h'.tree.DepthBelow d :=
  fun he => hd (hw.entity_subset he)

/-- What is left hangs together as before if nothing below a gone entity is left. -/
theorem atOrAbove_iff (hw : h.Without h' gone)
    (hclosed : ∀ x y, h.tree.ParentOf x y → gone x → gone y) (hj : ¬ gone j) :
    h'.tree.AtOrAbove a j ↔ h.tree.AtOrAbove a j := by
  refine Tree.atOrAbove_congr (fun x (hx : ¬ gone x) => hw.parent_of_kept hx) ?_ hj
  intro x p hp hx hgone
  exact hx (hclosed p.id x ⟨p, hp, rfl⟩ hgone)

end Without

end Hierarchy

/-! ## Siblings -/

namespace Tree

variable {t : Tree} {p c d e : Entity} {cs : List Entity} {id y : EntityId}

/-- Different children of one parent. -/
structure Siblings (t : Tree) (p : Entity) (cs : List Entity) : Prop where
  entity : ∀ c ∈ cs, t.entity c.id = some c
  parent : ∀ c ∈ cs, t.parent c.id = some p
  nodup : cs.Nodup

/-- The children of an entity are siblings. -/
theorem Linked.siblings_children (ht : t.Linked) (he : t.entity id = some e) :
    t.Siblings e (t.children id) where
  entity _ hc := ht.entity_child hc
  parent _ hc := ht.parent_child he hc
  nodup := ht.children_nodup id

/-- What is at or below one sibling is not at or below another. -/
theorem Siblings.apart (hcs : t.Siblings p (c :: cs)) (ht : t.Linked) (hd : d ∈ cs)
    (hy : t.AtOrAbove d.id y) : ¬ t.AtOrAbove c.id y := by
  have hce := hcs.entity c (List.mem_cons_self ..)
  have hcp := hcs.parent c (List.mem_cons_self ..)
  have hde := hcs.entity d (List.mem_cons_of_mem _ hd)
  have hdp := hcs.parent d (List.mem_cons_of_mem _ hd)
  refine ht.not_below_sibling hdp hcp (fun hid => ?_) hy
  rw [hid, hce, Option.some.injEq] at hde
  exact (List.nodup_cons.1 hcs.nodup).1 (hde ▸ hd)

/-- Once one sibling is gone with all below it, the others are still there. -/
theorem Siblings.without {h h' : Hierarchy} (hcs : h.tree.Siblings p (c :: cs))
    (ht : h.tree.Linked) (hw : h.Without h' (h.tree.AtOrAbove c.id)) : h'.tree.Siblings p cs where
  entity d hd := by
    rw [hw.entity_of_kept (hcs.apart ht hd (.refl _ _))]
    exact hcs.entity d (List.mem_cons_of_mem _ hd)
  parent d hd := by
    rw [hw.parent_of_kept (hcs.apart ht hd (.refl _ _))]
    exact hcs.parent d (List.mem_cons_of_mem _ hd)
  nodup := (List.nodup_cons.1 hcs.nodup).2

end Tree

namespace Hierarchy

variable {h h' : Hierarchy} {a j : EntityId} {e c : Entity} {removed : Removed}

namespace Consistent

/-! ## One entity -/

/-- A dropped membership is struck wherever it could stand. -/
theorem node?_dropMembership (hc : h.Consistent) (mid : MembershipId) :
    (h.dropMembership mid).2.node? j =
      (h.node? j).map fun n => { n with staff := n.staff.filter (·.id ≠ mid) } := by
  have hstaff := hc.staff_dropMembership (j := j) mid
  rw [tree_staff, tree_staff, Hierarchy.node?_dropMembership] at hstaff
  rw [Hierarchy.node?_dropMembership]
  cases hn : h.node? j with
  | none => simp
  | some n =>
    rw [hn] at hstaff
    by_cases hj : h.index[mid]? = some j
    · simp only [if_pos hj, Option.map_some, Option.getD_some] at hstaff ⊢
      rw [hstaff]
    · simp only [if_neg hj, Option.map_some, Option.getD_some] at hstaff ⊢
      rw [← hstaff]

/-- Dropping memberships one after the other strikes them all and changes nothing else. -/
theorem dropStaff (hc : h.Consistent) (ids : List MembershipId) (removed : Removed) :
    (dropStaff ids (h, removed)).1.Consistent ∧
      ∀ j, (Hierarchy.dropStaff ids (h, removed)).1.node? j =
        (h.node? j).map fun n => { n with staff := n.staff.filter (·.id ∉ ids) } := by
  induction ids generalizing h removed with
  | nil =>
    refine ⟨hc, fun j => ?_⟩
    cases hn : h.node? j <;> simp [hn]
  | cons mid ids ih =>
    -- whether or not the membership is found, the hierarchy is the one without it
    obtain ⟨removed', hstep⟩ : ∃ removed', Hierarchy.dropStaff (mid :: ids) (h, removed) =
        Hierarchy.dropStaff ids ((h.dropMembership mid).2, removed') := by
      rw [dropStaff_cons]
      rcases h.dropMembership mid with ⟨_ | m, after⟩
      · exact ⟨removed, rfl⟩
      · exact ⟨{ removed with memberships := removed.memberships ++ [m] }, rfl⟩
    obtain ⟨hc', hnode⟩ := ih (hc.dropMembership mid) removed'
    rw [hstep]
    refine ⟨hc', fun j => ?_⟩
    rw [hnode, hc.node?_dropMembership, Option.map_map]
    congr 1
    funext n
    simp [List.filter_filter, Bool.and_comm]

/-- Memberships of other ids are still there once one was dropped. -/
theorem subset_dropMembership (hc : h.Consistent) {mid : MembershipId} {ms : List Membership}
    (hms : ms ⊆ h.memberships) (hfresh : mid ∉ ms.map (·.id)) :
    ms ⊆ (h.dropMembership mid).2.memberships := by
  intro x hx
  have hne : x.id ≠ mid := fun hid => hfresh (List.mem_map.2 ⟨x, hx, hid⟩)
  exact (hc.mem_memberships_dropMembership mid).2 ⟨hms hx, hne⟩

/-- The dropped memberships are reported, if they are there and different. -/
theorem dropStaff_removed (hc : h.Consistent) {ms : List Membership} (removed : Removed)
    (hms : ms ⊆ h.memberships) (hnodup : (ms.map (·.id)).Nodup) :
    (Hierarchy.dropStaff (ms.map (·.id)) (h, removed)).2 =
      { removed with memberships := removed.memberships ++ ms } := by
  induction ms generalizing h removed with
  | nil => simp
  | cons m ms ih =>
    obtain ⟨hm, hms⟩ := List.cons_subset.1 hms
    rw [List.map_cons, List.nodup_cons] at hnodup
    have hfst : (h.dropMembership m.id).1 = some m := by
      rw [dropMembership_fst, hc.membership?_eq_some_iff]
      exact ⟨hm, rfl⟩
    have hstep : Hierarchy.dropStaff ((m :: ms).map (·.id)) (h, removed) =
        Hierarchy.dropStaff (ms.map (·.id)) ((h.dropMembership m.id).2,
          { removed with memberships := removed.memberships ++ [m] }) := by
      rw [List.map_cons, dropStaff_cons]
      rcases hd : h.dropMembership m.id with ⟨x, after⟩
      obtain rfl : x = some m := by rw [← hfst, hd]
      rfl
    rw [hstep, ih (hc.dropMembership m.id) _ (hc.subset_dropMembership hms hnodup.1) hnodup.2]
    simp

/-- Dropping the staff of one entity leaves all others theirs. -/
theorem dropStaff_of_entity (hc : h.Consistent) (id : EntityId) (removed : Removed) :
    ∀ j, (Hierarchy.dropStaff ((h.tree.staff id).map (·.id)) (h, removed)).1.node? j =
      (h.node? j).map fun n => { n with staff := if id = j then [] else n.staff } := by
  intro j
  rw [(hc.dropStaff _ removed).2 j]
  cases hn : h.node? j with
  | none => rfl
  | some n =>
    rw [Option.map_some, Option.map_some, ← h.staff_of_node? hn]
    congr 2
    split
    · next hj =>
      subst hj
      refine List.filter_eq_nil_iff.2 fun m hm => ?_
      simpa using ⟨m, hm, rfl⟩
    · next hj =>
      refine List.filter_eq_self.2 fun m hm => ?_
      simp only [decide_eq_true_eq, List.mem_map, not_exists, not_and]
      -- the same id would make it a membership of the other entity
      exact fun x hx hid => hj (hc.eq_of_id_eq hx hm hid).1

/-- Nothing but the entity itself and the link to it is dropped. -/
theorem node?_detach (hc : h.Consistent) (id : EntityId) :
    (h.detach id).2.node? j =
      if id = j then none
      else (h.node? j).map fun n => { n with children := n.children.filter (·.id ≠ id) } := by
  have hfilter := hc.children_filter (j := j) id
  rw [tree_parent, tree_children] at hfilter
  rw [Hierarchy.node?_detach]
  congr 1
  cases hn : h.node? j with
  | none => simp
  | some n =>
    rw [hn] at hfilter
    by_cases hp : ((h.node? id).bind (·.parent)).map (·.id) = some j
    · rw [if_pos hp]
    · simp only [if_neg hp, Option.map_some, Option.getD_some] at hfilter ⊢
      rw [← hfilter]

/-- With its staff dropped, a leaf has nothing left that refers to it but its parent. -/
theorem leaf_dropStaff (hc : h.Consistent) (hchildren : h.tree.children e.id = [])
    (removed : Removed) :
    let h' := (Hierarchy.dropStaff ((h.tree.staff e.id).map (·.id)) (h, removed)).1
    h'.Consistent ∧ h'.tree.entity e.id = h.tree.entity e.id ∧ h'.tree.children e.id = [] ∧
      h'.tree.staff e.id = [] := by
  obtain ⟨hc', -⟩ := hc.dropStaff ((h.tree.staff e.id).map (·.id)) removed
  have hnode := hc.dropStaff_of_entity e.id removed e.id
  refine ⟨hc', ?_, ?_, ?_⟩
  · rw [tree_entity, hnode, tree_entity]
    cases h.node? e.id <;> rfl
  · rw [← hchildren, tree_children, hnode, tree_children]
    cases h.node? e.id <;> rfl
  · rw [tree_staff, hnode]
    cases h.node? e.id <;> simp

/-- Without children, an entity is dropped with its staff, and nothing else. -/
theorem dropEntity (hc : h.Consistent) (hchildren : h.tree.children e.id = [])
    (removed : Removed) :
    (dropEntity e (h, removed)).1.Consistent ∧
      h.Without (Hierarchy.dropEntity e (h, removed)).1 (e.id = ·) := by
  obtain ⟨hc', -, hchildren', hstaff'⟩ := hc.leaf_dropStaff hchildren removed
  have hnodes := hc.dropStaff_of_entity e.id removed
  have hdrop : (Hierarchy.dropEntity e (h, removed)).1 = ((Hierarchy.dropStaff
      ((h.tree.staff e.id).map (·.id)) (h, removed)).1.detach e.id).2 := by
    rw [dropEntity_eq]
    generalize Hierarchy.dropStaff _ (h, removed) = s
    rcases s with ⟨h₁, removed₁⟩
    dsimp only
    rcases h₁.detach e.id with ⟨_ | n, h₂⟩ <;> rfl
  rw [hdrop]
  refine ⟨hc'.detach hchildren' hstaff', fun j => ?_⟩
  rw [hc'.node?_detach, hnodes]
  split
  · rfl
  · next hj => cases h.node? j <;> simp [eq_comm (a := e.id)]

/-- The entity and its staff are reported. -/
theorem dropEntity_removed (hc : h.Consistent) (he : h.tree.entity e.id = some e)
    (removed : Removed) : (Hierarchy.dropEntity e (h, removed)).2 = removed.add h.tree [e] := by
  have hstaff := hc.dropStaff_removed removed
    (fun m hm => mem_memberships_iff.2 ⟨e.id, hm⟩) (hc.staff_nodup e.id)
  have hnode := hc.dropStaff_of_entity e.id removed e.id
  obtain ⟨n, hn, -⟩ := h.exists_node? he
  rw [hn, Option.map_some] at hnode
  rw [dropEntity_eq]
  generalize Hierarchy.dropStaff _ (h, removed) = s at hstaff hnode
  rcases s with ⟨h₁, removed₁⟩
  dsimp only at hstaff ⊢
  have hfst := (h₁.detach_fst e.id).trans hnode
  rcases hd : h₁.detach e.id with ⟨_ | x, h₂⟩
  · rw [hd] at hfst
    cases hfst
  · simp [hstaff, Removed.add]

/-! ## A subtree -/

/-- An entity survives its children, and then has none. -/
theorem leaf_without (hc : h.Consistent) (he : h.tree.entity e.id = some e)
    (hw : h.Without h' fun j => ∃ c ∈ h.tree.children e.id, h.tree.AtOrAbove c.id j) :
    (¬ ∃ c ∈ h.tree.children e.id, h.tree.AtOrAbove c.id e.id) ∧ h'.tree.children e.id = [] := by
  have hself : ¬ ∃ c ∈ h.tree.children e.id, h.tree.AtOrAbove c.id e.id := by
    rintro ⟨c, hmem, hce⟩
    exact hc.linked.not_atOrAbove_parent (hc.linked.parent_child he hmem) hce
  refine ⟨hself, List.eq_nil_iff_forall_not_mem.2 fun c hmem => ?_⟩
  obtain ⟨hmem, hkept⟩ := (hw.mem_children_iff hself).1 hmem
  exact hkept ⟨c, hmem, .refl _ _⟩

/-- Siblings are dropped one after the other, if each of them can be. -/
theorem dropSiblings (hc : h.Consistent) {n d : Nat} {cs : List Entity} (removed : Removed)
    (hdrop : ∀ (k : Hierarchy) (c : Entity) (removed : Removed), k.Consistent → c ∈ cs →
      k.tree.entity c.id = some c → k.tree.DepthBelow d →
      ∃ out, dropSubtreeWithin n c (k, removed) = some out ∧ out.1.Consistent ∧
        k.Without out.1 (k.tree.AtOrAbove c.id) ∧
        out.2 = removed.add k.tree (k.tree.leavesFirst c))
    (hcs : h.tree.Siblings e cs) (hd : h.tree.DepthBelow d) :
    ∃ out, cs.foldlM (fun s c => dropSubtreeWithin n c s) (h, removed) = some out ∧
      out.1.Consistent ∧ (h.Without out.1 fun j => ∃ c ∈ cs, h.tree.AtOrAbove c.id j) ∧
      out.2 = removed.add h.tree (cs.flatMap h.tree.leavesFirst) := by
  induction cs generalizing h removed with
  | nil =>
    refine ⟨(h, removed), rfl, hc, fun j => ?_, by simp⟩
    cases h.node? j <;> simp
  | cons c cs ih =>
    have hce := hcs.entity c (List.mem_cons_self ..)
    obtain ⟨⟨h₁, removed₁⟩, hfst, hc₁, hw₁, hremoved₁⟩ :=
      hdrop h c removed hc (List.mem_cons_self ..) hce hd
    obtain ⟨out, hrest, hc₂, hw₂, hremoved₂⟩ := ih hc₁ removed₁
      (fun k c r hk hmem => hdrop k c r hk (List.mem_cons_of_mem _ hmem))
      (hcs.without hc.linked hw₁) (hw₁.depthBelow hd)
    refine ⟨out, ?_, hc₂, (hw₁.trans hw₂).congr fun j => ?_, ?_⟩
    · rw [List.foldlM_cons, hfst]
      exact hrest
    · by_cases hj : h.tree.AtOrAbove c.id j
      · simp [hj]
      · have hclosed : ∀ x y, h.tree.ParentOf x y → h.tree.AtOrAbove c.id x →
            h.tree.AtOrAbove c.id y := fun x y hxy hx => .trans hx (.single hxy)
        simp [hj, hw₁.atOrAbove_iff hclosed hj]
    · -- what is below another sibling is below it still, with the same staff
      have hbelow : ∀ d ∈ cs, ∀ y, h.tree.AtOrAbove d.id y → ¬ h.tree.AtOrAbove c.id y :=
        fun d hd y => hcs.apart hc.linked hd
      have hentity : ∀ d ∈ cs, h.tree.entity d.id = some d :=
        fun d hd => hcs.entity d (List.mem_cons_of_mem _ hd)
      have hlist : cs.flatMap h₁.tree.leavesFirst = cs.flatMap h.tree.leavesFirst :=
        List.flatMap_congr fun d hd => hw₁.leavesFirst hc.linked (hentity d hd) (hbelow d hd)
      have hremoved₁ : removed₁ = removed.add h.tree (h.tree.leavesFirst c) := hremoved₁
      rw [hremoved₂, hlist, List.flatMap_cons, Removed.add_append, ← hremoved₁]
      refine Removed.add_congr _ fun x hx => ?_
      obtain ⟨d, hd, hx⟩ := List.mem_flatMap.1 hx
      rw [hc.linked.mem_leavesFirst_iff (hentity d hd)] at hx
      exact hw₁.staff_of_kept (hbelow d hd x.id hx.2)

/-- With a step for each level, dropping a subtree comes to an end, and takes the entities that the
dropped one is at or above. -/
theorem dropSubtreeWithin (hc : h.Consistent) {n : Nat} (removed : Removed)
    (he : h.tree.entity e.id = some e) (hn : h.tree.DepthBelow (n + e.kind.depth)) :
    ∃ out, dropSubtreeWithin n e (h, removed) = some out ∧ out.1.Consistent ∧
      h.Without out.1 (h.tree.AtOrAbove e.id) ∧
      out.2 = removed.add h.tree (h.tree.leavesFirst e) := by
  induction n generalizing h e removed with
  | zero =>
    -- the entity itself is one level deeper than any
    have hdepth := hn he
    omega
  | succ n ih =>
    -- children are one level deeper, so a step less is enough for each of them
    obtain ⟨⟨h₁, removed₁⟩, hfold, hc₁, hw₁, hremoved₁⟩ := hc.dropSiblings (n := n) removed
      (fun k c r hk hmem hce hd => by
        refine ih hk r hce ?_
        rwa [hc.linked.depth_child he hmem, ← Nat.add_assoc, Nat.add_right_comm])
      (hc.linked.siblings_children he) hn
    obtain ⟨hself, hleaf⟩ := hc.leaf_without he hw₁
    obtain ⟨hc₂, hw₂⟩ := hc₁.dropEntity hleaf removed₁
    refine ⟨Hierarchy.dropEntity e (h₁, removed₁), ?_, hc₂, (hw₁.trans hw₂).congr fun j => ?_, ?_⟩
    · rw [dropSubtreeWithin_succ, hfold, Option.map_some]
    · rw [hc.linked.atOrAbove_iff_children he, or_comm]
    · have he₁ : h₁.tree.entity e.id = some e := (hw₁.entity_of_kept hself).trans he
      have hstaff : ∀ x ∈ [e], h₁.tree.staff x.id = h.tree.staff x.id := by
        intro x hx
        rw [List.mem_singleton.1 hx]
        exact hw₁.staff_of_kept hself
      have hremoved₁ : removed₁ = removed.add h.tree _ := hremoved₁
      rw [hc₁.dropEntity_removed he₁, Removed.add_congr _ hstaff, hremoved₁, ← Removed.add_append,
        hc.linked.leavesFirst_eq he]

/-- What dropping a subtree leaves, and what it reports. -/
theorem dropSubtree_cases (hc : h.Consistent) (he : h.tree.entity e.id = some e) :
    (h.dropSubtree e).1.Consistent ∧ h.Without (h.dropSubtree e).1 (h.tree.AtOrAbove e.id) ∧
      (h.dropSubtree e).2 = ({} : Removed).add h.tree (h.tree.leavesFirst e) := by
  obtain ⟨out, hout, hdropped⟩ := hc.dropSubtreeWithin (n := h.tree.bound) {} he
    fun hx => Nat.lt_add_right _ (hc.linked.depthBelow_bound hx)
  rw [dropSubtree_eq, hout, Option.getD_some]
  exact hdropped

/-- Dropping a subtree leaves a consistent hierarchy without the entity and all below it. -/
theorem dropSubtree (hc : h.Consistent) (he : h.tree.entity e.id = some e) :
    (h.dropSubtree e).1.Consistent ∧
      h.Without (h.dropSubtree e).1 (h.tree.AtOrAbove e.id) :=
  ⟨(hc.dropSubtree_cases he).1, (hc.dropSubtree_cases he).2.1⟩

/-- Dropping a subtree reports its entities, from the leaves up, and their staff. -/
theorem dropSubtree_removed (hc : h.Consistent) (he : h.tree.entity e.id = some e) :
    (h.dropSubtree e).2 = ({} : Removed).add h.tree (h.tree.leavesFirst e) :=
  (hc.dropSubtree_cases he).2.2

end Consistent

end Hierarchy

end StaffRights
