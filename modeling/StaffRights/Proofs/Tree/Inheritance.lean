import StaffRights.Proofs.Tree.Institution
import StaffRights.Proofs.Tree.Rights

/-!
# What a single grant gives

A user with nothing granted at or above an entity has only what teachers may do in their own
institution. A single grant on the chain above an entity gives its permissions beside that, and
nothing more.
-/

namespace StaffRights.Tree

/-- What a user may do without any membership: teachers may read all of their institution. -/
def implicitRights (t : Tree) (id : EntityId) (u : User) : Permissions :=
  if (t.institution? id).any (fun i => u.belongsTo i.id) then .single .read else ∅

namespace Linked

variable {t : Tree} {a id : EntityId} {u : User} (ht : t.Linked)

include ht

/-- What is held without a membership is inherited unchanged. -/
theorem implicitRights_of_parent {p : Entity} (hp : t.parent id = some p) :
    t.implicitRights id u = t.implicitRights p.id u := by
  rw [implicitRights, implicitRights, ht.institution?_of_parent hp]

/-- At the end of a chain, what is implicit is what the home gives. -/
theorem implicitRights_of_root (hroot : t.parent id = none) :
    t.implicitRights id u = t.homeRights id u := by
  rw [implicitRights, homeRights]
  cases he : t.entity id with
  | none => simp [institution?_of_unknown he]
  | some e =>
    have hkind := (ht.parent_eq_none_iff he).1 hroot
    simp [ht.institution?_of_root he hroot, hkind]

/-- Without a grant at or above the entity, there is nothing but what is implicit. -/
theorem rights_of_no_grant (hnone : ∀ x, t.AtOrAbove x id → t.localRights x u.id = ∅) :
    t.rights id u = t.implicitRights id u := by
  induction id using ht.induction_upward with
  | root id hroot =>
    rw [rights_of_root hroot, hnone id (.refl t id), Permissions.empty_union,
      ht.implicitRights_of_root hroot]
  | link id p hp ih =>
    rw [ht.rights_eq hp, hnone id (.refl t id), Permissions.empty_union,
      ih fun x hx => hnone x (.below hx hp), ht.implicitRights_of_parent hp]

/-- With a grant on one entity alone, there is what it grants, and what is implicit. -/
theorem rights_of_grant (ha : t.AtOrAbove a id)
    (hnone : ∀ x, t.AtOrAbove x id → x ≠ a → t.localRights x u.id = ∅) :
    t.rights id u = t.localRights a u.id ∪ t.implicitRights id u := by
  -- by induction down the chain from the entity of the grant
  induction ha with
  | refl =>
    cases hp : t.parent a with
    | none => rw [rights_of_root hp, ht.implicitRights_of_root hp]
    | some p =>
      have habove : t.rights p.id u = t.implicitRights p.id u := by
        refine ht.rights_of_no_grant fun x hx => hnone x (.below hx hp) ?_
        rintro rfl
        exact ht.not_atOrAbove_parent hp hx
      rw [ht.rights_eq hp, habove, ht.implicitRights_of_parent hp]
  | @tail b id hab hlink ih =>
    obtain ⟨p, hp, rfl⟩ := hlink
    have hida : id ≠ a := by
      rintro rfl
      exact ht.not_atOrAbove_parent hp hab
    rw [ht.rights_eq hp, hnone id (.refl t id) hida, Permissions.empty_union,
      ih fun x hx => hnone x (.below hx hp), ht.implicitRights_of_parent hp]

end Linked

end StaffRights.Tree
