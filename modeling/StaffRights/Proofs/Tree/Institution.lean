import StaffRights.Proofs.Tree.Linked

/-!
# The institution of an entity

In a linked tree every entity stands below exactly one institution, or is one: the institution is
the end of the chain above the entity, and all that is linked has the same one.
-/

namespace StaffRights.Tree.Linked

variable {t : Tree} {id : EntityId} {e i p : Entity} (ht : t.Linked)

/-- What is unknown is in no institution. -/
theorem institution?_of_unknown (hid : t.entity id = none) : t.institution? id = none := by
  rw [institution?, branch_of_unknown t hid]
  rfl

include ht

/-- What has nothing above it is its own institution. -/
theorem institution?_of_root (he : t.entity id = some e) (hp : t.parent id = none) :
    t.institution? id = some e := by
  have hkind := (ht.parent_eq_none_iff he).1 hp
  rw [institution?, ht.branch_upward he (.root hp), List.getLast?_singleton]
  simp [hkind]

/-- What is linked has the same institution. -/
theorem institution?_of_parent (hp : t.parent id = some p) :
    t.institution? id = t.institution? p.id := by
  obtain ⟨e, he, hpe, -⟩ := ht.parent_entity hp
  obtain ⟨above, h⟩ := ht.exists_ancestry p.id
  rw [institution?, institution?, ht.branch_upward he (.link hp h), ht.branch_upward hpe h,
    List.getLast?_cons_cons]

/-- The institution of an entity is the one at or above it. -/
theorem institution?_eq_some_iff :
    t.institution? id = some i ↔
      i.kind = .institution ∧ t.entity i.id = some i ∧ t.AtOrAbove i.id id := by
  induction id using ht.induction_upward with
  | root id hp =>
    rw [atOrAbove_iff_of_root hp]
    cases he : t.entity id with
    | none =>
      rw [institution?_of_unknown he]
      constructor
      · intro hi
        cases hi
      · rintro ⟨-, hi, rfl⟩
        rw [he] at hi
        cases hi
    | some e =>
      have hkind := (ht.parent_eq_none_iff he).1 hp
      have hid := ht.entity_id he
      rw [ht.institution?_of_root he hp, Option.some.injEq]
      constructor
      · rintro rfl
        exact ⟨hkind, hid ▸ he, hid⟩
      · rintro ⟨-, hi, rfl⟩
        rw [he, Option.some.injEq] at hi
        exact hi
  | link id p hp ih =>
    rw [ht.institution?_of_parent hp, ih, atOrAbove_iff_of_parent hp]
    constructor
    · rintro ⟨hkind, hi, habove⟩
      exact ⟨hkind, hi, .inr habove⟩
    · rintro ⟨hkind, hi, rfl | habove⟩
      · -- nothing stands above an institution
        rw [(ht.parent_eq_none_iff hi).2 hkind] at hp
        cases hp
      · exact ⟨hkind, hi, habove⟩

/-- Every known entity is in an institution. -/
theorem exists_institution (he : t.entity id = some e) : ∃ i, t.institution? id = some i := by
  induction id using ht.induction_upward generalizing e with
  | root id hp => exact ⟨e, ht.institution?_of_root he hp⟩
  | link id p hp ih =>
    rw [ht.institution?_of_parent hp]
    exact ih (ht.entity_parent hp)

theorem institution?_self (hi : t.entity i.id = some i) (hkind : i.kind = .institution) :
    t.institution? i.id = some i :=
  ht.institution?_eq_some_iff.2 ⟨hkind, hi, .refl t i.id⟩

/-- The institution is the same where entities and parents are the same all the way up. -/
theorem institution?_congr {t' : Tree} (ht' : t'.Linked)
    (hentity : ∀ x, t.AtOrAbove x id → t'.entity x = t.entity x)
    (hparent : ∀ x, t.AtOrAbove x id → t'.parent x = t.parent x) :
    t'.institution? id = t.institution? id := by
  have habove : ∀ a, t'.AtOrAbove a id ↔ t.AtOrAbove a id := by
    intro a
    apply atOrAbove_congr (fun x (hx : t.AtOrAbove x id) => hparent x hx)
    · intro x p hp hx
      exact .trans (.below (.refl t p.id) hp) hx
    · exact .refl t id
  refine Option.ext fun i => ?_
  rw [ht'.institution?_eq_some_iff, ht.institution?_eq_some_iff, habove]
  refine and_congr_right fun _ => and_congr_left fun hi => ?_
  rw [hentity i.id hi]

end StaffRights.Tree.Linked
