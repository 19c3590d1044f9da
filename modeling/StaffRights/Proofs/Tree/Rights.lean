import StaffRights.Proofs.Permissions
import StaffRights.Proofs.Tree.Linked

/-!
# What rights consist of

In a linked tree a user holds a flag on an entity exactly if a membership at or above the entity
grants it, or the home of the user does. So rights are inherited downward, and they are the same in
two trees that agree on the chain above the entity.

Reference: `SPEC_FULL.md` 8 (a flag held above is never lost below).
-/

namespace StaffRights.Tree

variable {t t' : Tree} {a b id : EntityId} {u : User} {f : Flag}

/-- Home rights depend on the entity only. -/
theorem homeRights_congr (h : t'.entity id = t.entity id) :
    t'.homeRights id u = t.homeRights id u := by
  simp only [homeRights, h]

/-- Who has the same memberships on an entity is found by the same one. -/
theorem memberOn_congr {v : UserId}
    (h : (t'.staff id).filter (·.user == v) = (t.staff id).filter (·.user == v)) :
    t'.memberOn id v = t.memberOn id v := by
  rw [memberOn, memberOn, ← List.head?_filter, ← List.head?_filter, h]

/-- What is granted on an entity depends on the membership there only. -/
theorem localRights_congr {v : UserId} (h : t'.memberOn id v = t.memberOn id v) :
    t'.localRights id v = t.localRights id v := by
  simp only [localRights, h]

namespace Linked

variable (ht : t.Linked)

include ht

/-- Rights are the same where entities, parents and the memberships of the user are the same all the
way up. -/
theorem rights_congr (hentity : ∀ x, t.AtOrAbove x id → t'.entity x = t.entity x)
    (hparent : ∀ x, t.AtOrAbove x id → t'.parent x = t.parent x)
    (hmember : ∀ x, t.AtOrAbove x id → t'.memberOn x u.id = t.memberOn x u.id) :
    t'.rights id u = t.rights id u := by
  obtain ⟨above, h⟩ := ht.exists_ancestry id
  exact (h.rights_congr hparent (fun x hx => localRights_congr (hmember x hx))
    fun x hx => homeRights_congr (hentity x hx)).2

/-- Without entity and staff there are no rights. -/
theorem rights_of_unknown (hid : t.entity id = none) (hstaff : t.staff id = []) :
    t.rights id u = ∅ := by
  rw [rights_of_root (ht.parent_eq_none_of_unknown hid)]
  simp [localRights, memberOn, homeRights, hstaff, hid]

/-- Below a parent no home grants anything. -/
theorem homeRights_of_parent {p : Entity} (hp : t.parent id = some p) : t.homeRights id u = ∅ := by
  obtain ⟨e, he, -, hkind⟩ := ht.parent_entity hp
  -- a home is an institution, and nothing stands above one
  have hnot := Kind.ne_institution_of_above hkind
  simp [homeRights, he, hnot]

/-- A flag is held if it is granted on the entity or above, or by the home at the root. -/
theorem holds_rights_iff :
    (t.rights id u).holds f ↔
      ∃ a, t.AtOrAbove a id ∧ ((t.localRights a u.id).holds f ∨ (t.homeRights a u).holds f) := by
  induction id using ht.induction_upward with
  | root id hp =>
    rw [rights_of_root hp, Permissions.holds_union, Bool.or_eq_true]
    simp only [atOrAbove_iff_of_root hp, exists_eq_left]
  | link id p hp ih =>
    rw [ht.rights_eq hp, Permissions.holds_union, Bool.or_eq_true, ih]
    simp only [atOrAbove_iff_of_parent hp, or_and_right, exists_or, exists_eq_left,
      ht.homeRights_of_parent hp, Permissions.holds_empty, Bool.false_eq_true, or_false]

/-- Whatever bits a user has on an entity, the user has on all that is below it. -/
theorem rights_has_of_atOrAbove (hab : t.AtOrAbove a b) : (t.rights b u).has (t.rights a u) := by
  induction hab with
  | refl => exact Permissions.has_refl _
  | tail _ hlink ih =>
    obtain ⟨p, hp, rfl⟩ := hlink
    rw [ht.rights_eq hp]
    exact Permissions.has_trans (Permissions.union_has_right _ _) ih

/-- What a user may do on an entity, the user may do on everything below it. -/
theorem rights_downward (hab : t.AtOrAbove a b) (ha : (t.rights a u).holds f) :
    (t.rights b u).holds f := by
  have hbits := Permissions.has_iff_bits (t.rights a u) (t.rights b u)
  exact hbits.1 (ht.rights_has_of_atOrAbove hab) f.index ha

end Linked

end StaffRights.Tree
