import StaffRights.Proofs.Hierarchy.Runs
import StaffRights.Proofs.Tree.Rights

/-!
# Whose rights a change alters

Every change reports whose resolved rights it made stale. The rights of all others are as before, on
every entity, and if anyone's are, then there are the same entities as before. So it is safe to keep
what was resolved for users who are not reported.
-/

namespace StaffRights

/-- Are the rights of the user not reported stale? -/
def Stale.Spares : Stale → UserId → Prop
  | .user id, v => v ≠ id
  | .everyone, _ => False
  | .nobody, _ => True

namespace Hierarchy

variable {h h' : Hierarchy} {stale : Stale} {u : User} {m : Membership} {mid : MembershipId}

/-- Storing a membership leaves all users but its own theirs. -/
theorem Admits.memberOn (hm : h.Admits m) {v : UserId} (hv : v ≠ m.user) (j : EntityId) :
    (h.putMembership m).tree.memberOn j v = h.tree.memberOn j v := by
  refine Tree.memberOn_congr ?_
  rw [tree_staff_putMembership h hm.entity]
  split
  · refine filter_putStaff (by simpa using hv.symm) fun x hx hid => ?_
    obtain ⟨-, huser⟩ := hm.place j x hx hid
    simpa [huser] using hv.symm
  · rfl

namespace Consistent

variable (hc : h.Consistent)

include hc

/-- Removing a membership leaves all users but its own theirs. -/
theorem memberOn_dropMembership (hm : h.membership? mid = some m) {v : UserId} (hv : v ≠ m.user)
    (j : EntityId) : (h.dropMembership mid).2.tree.memberOn j v = h.tree.memberOn j v := by
  refine Tree.memberOn_congr ?_
  rw [hc.staff_dropMembership, List.filter_filter]
  refine List.filter_congr fun x hx => ?_
  by_cases hid : x.id = mid
  · -- the removed membership is none of the user's
    obtain ⟨hmem, hmid⟩ := hc.membership?_eq_some_iff.1 hm
    obtain ⟨i, hmi⟩ := mem_memberships_iff.1 hmem
    obtain ⟨-, rfl⟩ := hc.eq_of_id_eq hx hmi (hid.trans hmid.symm)
    have huser : (x.user == v) = false := by simpa using hv.symm
    rw [huser, Bool.false_and]
  · simp [hid]

/-- A change keeps the entities and all rights on them for every user whom it does not report. -/
theorem rights_of_spares (he : h.Effect stale h') (hu : stale.Spares u.id) (id : EntityId) :
    h'.tree.entity id = h.tree.entity id ∧ h'.tree.rights id u = h.tree.rights id u := by
  have hkeep : h.tree.SameLinks h'.tree →
      (∀ j, h'.tree.memberOn j u.id = h.tree.memberOn j u.id) →
      h'.tree.entity id = h.tree.entity id ∧ h'.tree.rights id u = h.tree.rights id u := by
    intro hlinks hmember
    exact ⟨hlinks.entity id, hc.linked.rights_congr (fun x _ => hlinks.entity x)
      (fun x _ => hlinks.parent x) fun x _ => hmember x⟩
  cases he with
  | same => exact ⟨rfl, rfl⟩
  | @award i count =>
    refine hkeep (h.sameLinks_setAwarded i count) fun j => Tree.memberOn_congr ?_
    rw [tree_staff_setAwarded]
  | attach => cases hu
  | relink => cases hu
  | @put m hm => exact hkeep (h.sameLinks_putMembership m) (hm.memberOn hu)
  | @drop mid m hm =>
    exact hkeep (h.sameLinks_dropMembership mid) (hc.memberOn_dropMembership hm hu)
  | dropSubtree => cases hu

end Consistent

end Hierarchy

end StaffRights
