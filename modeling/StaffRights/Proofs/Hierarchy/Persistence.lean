import StaffRights.Proofs.Hierarchy.Changes
import StaffRights.Proofs.Tree.Institution

/-!
# What becomes of entities and memberships

An entity never changes its kind and never leaves its institution: a move stays inside one, and all
other changes leave the links above an entity alone. An entity is lost in one way only. It is at or
below an entity that is deleted, nothing there has awards, and the deletion reports it. A membership
stays as it was inserted, but for its permissions.
-/

namespace StaffRights

namespace Tree

variable {t t' : Tree}

/-- Every entity of `t` is one of `t'`, and in the same institution. -/
def Retains (t t' : Tree) : Prop :=
  ∀ ⦃id : EntityId⦄ ⦃e : Entity⦄, t.entity id = some e →
    t'.entity id = some e ∧ t'.institution? id = t.institution? id

theorem Retains.refl (t : Tree) : t.Retains t := fun _ _ he => ⟨he, rfl⟩

/-- Where links are the same, every entity is retained. -/
theorem SameLinks.retains (hlinks : t.SameLinks t') (ht : t.Linked) : t.Retains t' := by
  intro id e he
  have ht' := ht.of_sameLinks hlinks
  refine ⟨(hlinks.entity id).trans he, ?_⟩
  exact ht.institution?_congr ht' (fun x _ => hlinks.entity x) fun x _ => hlinks.parent x

end Tree

/-- The entities that a change reports as removed. -/
def Change.removed : (c : Change) → c.Value → List Entity
  | .deleteEntity _, r => r.entities
  | _, _ => []

namespace Hierarchy

variable {h h' : Hierarchy} {id : EntityId} {e p : Entity} {m : Membership}

/-- What is not gone stands in the institution it stood in, if nothing below a gone entity is left.
-/
theorem Without.institution? {gone : EntityId → Prop} (hw : h.Without h' gone)
    (ht : h.tree.Linked) (ht' : h'.tree.Linked)
    (hclosed : ∀ x, gone x → h.tree.AtOrAbove x id → gone id) (hid : ¬ gone id) :
    h'.tree.institution? id = h.tree.institution? id := by
  have hkept : ∀ x, h.tree.AtOrAbove x id → ¬ gone x := fun x hx hgone => hid (hclosed x hgone hx)
  apply ht.institution?_congr ht'
  · intro x hx
    exact hw.entity_of_kept (hkept x hx)
  · intro x hx
    exact hw.parent_of_kept (hkept x hx)

namespace Consistent

variable (hc : h.Consistent)

include hc

/-- A new entity leaves the others in their institutions. -/
theorem retains_attach {q : Option Entity} (hnew : h.tree.entity e.id = none)
    (hroot : q = none ↔ e.kind = .institution)
    (hparent : ∀ p, q = some p → h.tree.entity p.id = some p ∧ e.kind.above = some p.kind) :
    h.tree.Retains (h.attach e q).tree := by
  intro id x hx
  -- with the entity, all above it was there before
  have hne : ∀ y, h.tree.AtOrAbove y id → e.id ≠ y := by
    intro y hy
    obtain ⟨z, hz, -⟩ := hc.linked.entity_of_atOrAbove hy hx
    exact ne_of_new hnew hz
  refine ⟨by rw [tree_entity_attach, if_neg (hne id (.refl _ _)), hx], ?_⟩
  apply hc.linked.institution?_congr (hc.attach hnew hroot hparent).linked
  · intro y hy
    rw [tree_entity_attach, if_neg (hne y hy)]
  · intro y hy
    rw [tree_parent_attach, if_neg (hne y hy)]

/-- A move to a parent of the same institution takes no entity out of its institution. -/
theorem retains_relink (he : h.tree.entity id = some e) (hp : h.tree.entity p.id = some p)
    (hkind : e.kind.above = some p.kind)
    (hinst : h.tree.institution? id = h.tree.institution? p.id) :
    h.tree.Retains (h.relink id p).tree := by
  have ht' := (hc.relink he hp hkind).linked
  -- by induction on the chain above an entity after the move
  have hsame : ∀ j, (h.relink id p).tree.institution? j = h.tree.institution? j := by
    intro j
    induction j using ht'.induction_upward with
    | root j hroot =>
      have hparent : h.tree.parent j = none := by
        rw [h.tree_parent_relink he] at hroot
        split at hroot
        · cases hroot
        · exact hroot
      cases hj : h.tree.entity j with
      | none =>
        have hj' : (h.relink id p).tree.entity j = none := by rwa [h.tree_entity_relink he]
        rw [Tree.Linked.institution?_of_unknown hj, Tree.Linked.institution?_of_unknown hj']
      | some x =>
        have hj' : (h.relink id p).tree.entity j = some x := by rwa [h.tree_entity_relink he]
        rw [hc.linked.institution?_of_root hj hparent, ht'.institution?_of_root hj' hroot]
    | link j q hq ih =>
      rw [ht'.institution?_of_parent hq, ih]
      rw [h.tree_parent_relink he] at hq
      split at hq
      · next hid =>
        cases hq
        rw [← hid, hinst]
      · exact (hc.linked.institution?_of_parent hq).symm
  intro j x hx
  exact ⟨by rwa [h.tree_entity_relink he], hsame j⟩

/-- Where awards protect nothing below an entity, none of it has any. -/
theorem awarded_eq_false_of_branch {id : EntityId}
    (hawarded : ∀ d ∈ h.tree.branch id .downward, h.tree.awarded d.id = false) {x : EntityId}
    (hx : h.tree.AtOrAbove id x) : h.tree.awarded x = false := by
  cases hn : h.node? x with
  | none => rw [tree_awarded, hn, Option.any_none]
  | some n =>
    have hxe := h.entity_of_node? hn
    have hid := hc.linked.entity_id hxe
    subst hid
    exact hawarded n.entity (hc.linked.mem_branch_downward_iff.2 ⟨hxe, hx⟩)

/-! ## Changes -/

/-- No change but a deletion loses an entity or takes it out of its institution. -/
theorem retains_of_done {c : Change} {o : Outcome c.Value} (hd : h.Done c o h')
    (hne : ∀ j, c ≠ .deleteEntity j) : h.tree.Retains h'.tree := by
  cases hd with
  | insertEntity hq =>
    obtain ⟨hnew, hroot, hparent⟩ := hc.placeFor_spec hq
    exact hc.retains_attach hnew hroot hparent
  | saveEntity => exact .refl _
  | stay => exact .refl _
  | moveEntity he hp hkind hinst =>
    have hid := hc.linked.entity_id hp
    subst hid
    exact hc.retains_relink he hp hkind hinst
  | deleteEntity => exact absurd rfl (hne _)
  | setAwarded => exact (h.sameLinks_setAwarded _ _).retains hc.linked
  | insertMembership => exact (h.sameLinks_putMembership _).retains hc.linked
  | updateMembership => exact (h.sameLinks_putMembership _).retains hc.linked
  | removeMembership => exact (h.sameLinks_dropMembership _).retains hc.linked

/-- What a deletion does not take along is retained; the rest is reported. -/
theorem retained_or_dropped {x : Entity} (hx : h.tree.entity x.id = some x)
    (he : h.tree.entity id = some e) :
    ((h.dropSubtree x).1.tree.entity id = some e ∧
        (h.dropSubtree x).1.tree.institution? id = h.tree.institution? id) ∨
      e ∈ (h.dropSubtree x).2.entities ∧ (h.dropSubtree x).1.tree.entity id = none ∧
        h.tree.AtOrAbove x.id id := by
  obtain ⟨hc', hw, hremoved⟩ := hc.dropSubtree_cases hx
  by_cases hgone : h.tree.AtOrAbove x.id id
  · have hid := hc.linked.entity_id he
    subst hid
    refine .inr ⟨?_, hw.entity_of_gone hgone, hgone⟩
    rw [hremoved, Removed.add, List.nil_append, hc.linked.mem_leavesFirst_iff hx]
    exact ⟨he, hgone⟩
  · refine .inl ⟨(hw.entity_of_kept hgone).trans he, ?_⟩
    exact hw.institution? hc.linked hc'.linked (fun y hy hyid => hy.trans hyid) hgone

/-- A change that is carried out leaves an entity in its institution, or it removes the entity and
reports it, and then neither the entity nor anything below it had awards. -/
theorem retained_or_removed {c : Change} {o : Outcome c.Value} (hd : h.Done c o h')
    (he : h.tree.entity id = some e) :
    (h'.tree.entity id = some e ∧ h'.tree.institution? id = h.tree.institution? id) ∨
      e ∈ c.removed o.value ∧ h'.tree.entity id = none ∧
        ∀ y, h.tree.AtOrAbove id y → h.tree.awarded y = false := by
  -- only a deletion loses anything
  by_cases hdelete : ∃ j, c = .deleteEntity j
  · obtain ⟨j, rfl⟩ := hdelete
    cases hd with
    | deleteEntity hx hawarded =>
      have hid := hc.linked.entity_id hx
      subst hid
      rcases hc.retained_or_dropped hx he with hkept | ⟨hmem, hnone, hgone⟩
      · exact .inl hkept
      · refine .inr ⟨hmem, hnone, fun y hy => ?_⟩
        exact hc.awarded_eq_false_of_branch hawarded (hgone.trans hy)
  · exact .inl (hc.retains_of_done hd (fun j hj => hdelete ⟨j, hj⟩) he)

/-- A membership is there after one was stored because it is that one, or was there before. -/
theorem of_mem_putMembership {x : Membership} (hx : h.tree.entity x.entity.id = some x.entity)
    (hm : m ∈ (h.putMembership x).memberships) : m = x ∨ m ∈ h.memberships := by
  obtain ⟨j, hm⟩ := mem_memberships_iff.1 hm
  rw [tree_staff_putMembership h hx] at hm
  split at hm
  · by_cases hid : m.id = x.id
    · have hself := mem_putStaff_self x (h.tree.staff j)
      exact .inl (eq_of_nodup_ids (nodup_putStaff (hc.staff_nodup j)) hm hself hid)
    · exact .inr (mem_memberships_iff.2 ⟨j, (mem_putStaff_of_ne hid).1 hm⟩)
  · exact .inr (mem_memberships_iff.2 ⟨j, hm⟩)

/-- A membership is there after a change because the change inserted it, or because it was there
before, perhaps with other permissions. -/
theorem membership_of_done {c : Change} {o : Outcome c.Value} (hd : h.Done c o h')
    (hm : m ∈ h'.memberships) :
    c = .insertMembership m ∨ ∃ x ∈ h.memberships, m = { x with permissions := m.permissions } := by
  -- most changes add no membership to any staff
  have hsubset : (∀ j, h'.tree.staff j ⊆ h.tree.staff j) →
      ∃ x ∈ h.memberships, m = { x with permissions := m.permissions } :=
    fun hstaff => ⟨m, memberships_subset hstaff hm, rfl⟩
  cases hd with
  | insertEntity =>
    refine .inr (hsubset fun j => ?_)
    rw [tree_staff_attach]
    split <;> simp
  | saveEntity => exact .inr ⟨m, hm, rfl⟩
  | stay => exact .inr ⟨m, hm, rfl⟩
  | moveEntity he =>
    refine .inr (hsubset fun j => ?_)
    rw [h.tree_staff_relink he]
    exact List.Subset.refl _
  | deleteEntity he =>
    have hid := hc.linked.entity_id he
    subst hid
    obtain ⟨-, hw⟩ := hc.dropSubtree he
    exact .inr (hsubset hw.staff_subset)
  | setAwarded =>
    refine .inr (hsubset fun j => ?_)
    rw [tree_staff_setAwarded]
    exact List.Subset.refl _
  | insertMembership he =>
    rcases hc.of_mem_putMembership he hm with rfl | hm
    · exact .inl rfl
    · exact .inr ⟨m, hm, rfl⟩
  | @updateMembership mid permissions x hx =>
    have hmem := (hc.membership?_eq_some_iff.1 hx).1
    have he := hc.entity_of_membership hmem
    rcases hc.of_mem_putMembership (x := { x with permissions := permissions }) he hm with rfl | hm
    · exact .inr ⟨x, hmem, rfl⟩
    · exact .inr ⟨m, hm, rfl⟩
  | @removeMembership mid =>
    exact .inr ⟨m, ((hc.mem_memberships_dropMembership mid).1 hm).1, rfl⟩

end Consistent

end Hierarchy

end StaffRights
