import StaffRights.Proofs.Hierarchy.Resolution
import StaffRights.Proofs.Hierarchy.Gains
import StaffRights.Proofs.Snapshot.Acceptance

/-!
# Rights in rearranged snapshots

Two readings of one snapshot may differ in the order of entities and memberships and in the ids of
memberships, for a membership that comes without an id is given a new one. If no id is given twice,
both can be loaded or neither can, and all users have the same rights in what is loaded.
-/

namespace StaffRights

/-- What a record says of a membership beside its id: whose it is, on which entity, and what is
granted. -/
def MembershipRecord.terms (r : MembershipRecord) : UserId × EntityId × PermissionRecord :=
  (r.user, r.entity, r.permissions)

namespace Snapshot

open EntityRecord (Sound AtOrAbove)

variable {s s' : Snapshot} {h h' : Hierarchy} {es es' : List EntityRecord}
  {ms ms' : List MembershipRecord} {id : EntityId} {v : UserId} {u : User}

/-- The same entities and the same terms of memberships, in any order, under ids of memberships of
which none is given twice. -/
structure Rearranged (s s' : Snapshot) : Prop where
  entities : s.entities.Perm s'.entities
  terms : (s.memberships.map (·.terms)).Perm (s'.memberships.map (·.terms))
  nodup : (s'.memberships.map (·.id)).Nodup

/-! ## Loading -/

/-- What is loaded has the entities that are recorded, and no others. -/
theorem tree_entity_eq_none_iff (hload : s.toHierarchy = .ok h) :
    h.tree.entity id = none ↔ ∀ r ∈ s.entities, r.id ≠ id := by
  obtain ⟨-, hr⟩ := toHierarchy_eq_ok_iff.1 hload
  rw [hr.tree_entity_eq_none_iff]
  simp

/-- Neither entity is at or above the other, if the terms are of the same user. -/
def TermsApart (es : List EntityRecord) (a b : UserId × EntityId × PermissionRecord) : Prop :=
  a.1 = b.1 → ¬ AtOrAbove es a.2.1 b.2.1 ∧ ¬ AtOrAbove es b.2.1 a.2.1

/-- Whether memberships are apart is told by their terms. -/
theorem pairwise_terms_iff :
    (ms.map (·.terms)).Pairwise (TermsApart es) ↔ ms.Pairwise (MembershipRecord.ApartFrom es) :=
  List.pairwise_map

/-- Whether membership records fit together is decided by their terms, but for their ids. -/
theorem sound_rearranged (hms : MembershipRecord.Sound es ms) (hpe : es.Perm es')
    (hterms : (ms.map (·.terms)).Perm (ms'.map (·.terms))) (hnodup : (ms'.map (·.id)).Nodup) :
    MembershipRecord.Sound es' ms' where
  nodup := hnodup
  entity r hr := by
    have hmem := hterms.mem_iff.2 (List.mem_map_of_mem hr)
    obtain ⟨x, hx, hxr⟩ := List.mem_map.1 hmem
    have hentity : x.entity = r.entity := congrArg (fun t => t.2.1) hxr
    exact (hpe.map _).mem_iff.1 (hentity ▸ hms.entity x hx)
  apart := by
    have hsymm : ∀ {a b}, TermsApart es a b → TermsApart es b a := fun hab huser =>
      (hab huser.symm).symm
    have hapart : TermsApart es' = TermsApart es := by
      funext a b
      rw [TermsApart, TermsApart, EntityRecord.atOrAbove_perm hpe]
    rw [← pairwise_terms_iff, hapart, ← hterms.pairwise_iff hsymm, pairwise_terms_iff]
    exact hms.apart

/-- A rearranged snapshot is consistent as well. -/
theorem Consistent.rearranged (hs : s.Consistent) (hr : s.Rearranged s') : s'.Consistent where
  entities := hs.entities.perm hr.entities
  memberships := sound_rearranged hs.memberships hr.entities hr.terms hr.nodup

/-! ## Rights -/

namespace Replayed

variable (hr : Replayed es ms h) (hs : Sound es)

include hr hs

/-- The order of records makes no difference to the entities. -/
theorem tree_entity_perm (hr' : Replayed es' ms' h') (hpe : es.Perm es') :
    h'.tree.entity id = h.tree.entity id := by
  rw [hr'.tree_entity, hr.tree_entity, find?_key_perm hs.nodup hpe]

/-- The order of records makes no difference to the links. -/
theorem tree_parent_perm (hr' : Replayed es' ms' h') (hpe : es.Perm es') :
    h'.tree.parent id = h.tree.parent id := by
  rw [Hierarchy.tree_parent, Hierarchy.tree_parent, hr'.node, hr.node, find?_key_perm hs.nodup hpe]
  cases es.find? (·.id == id) with
  | none => rfl
  | some r => simp only [Option.map_some, Option.bind_some, EntityRecord.node,
      find?_key_perm hs.nodup hpe]

/-- What a user is granted on an entity is told by the terms of the memberships. -/
theorem memberOn_eq_some_iff (hapart : h.tree.Apart) {p : Permissions} :
    (h.tree.memberOn id v).map (·.permissions) = some p ↔ (∃ e, h.tree.entity id = some e) ∧
      ∃ t ∈ ms.map (·.terms), t.1 = v ∧ t.2.1 = id ∧ t.2.2.permissions = p := by
  simp only [Option.map_eq_some_iff, hapart.memberOn_eq_some_iff, hr.mem_staff_iff hs]
  constructor
  · rintro ⟨-, ⟨⟨r, hmem, rfl, e, he, rfl⟩, rfl⟩, rfl⟩
    exact ⟨⟨e, he⟩, r.terms, List.mem_map_of_mem hmem, rfl, rfl, rfl⟩
  · rintro ⟨⟨e, he⟩, t, ht, rfl, rfl, rfl⟩
    obtain ⟨r, hmem, rfl⟩ := List.mem_map.1 ht
    exact ⟨r.on e, ⟨⟨r, hmem, rfl, e, he, rfl⟩, rfl⟩, rfl⟩

end Replayed

/-- In what is loaded from a rearranged snapshot, there are the same entities, and all users have
the same rights on them. -/
theorem rights_rearranged (hrear : s.Rearranged s') (hload : s.toHierarchy = .ok h)
    (hload' : s'.toHierarchy = .ok h') (id : EntityId) (u : User) :
    h'.tree.entity id = h.tree.entity id ∧ h'.tree.rights id u = h.tree.rights id u := by
  obtain ⟨hc, hapart⟩ := (Hierarchy.Reachable.loaded hload).consistent_and_apart
  obtain ⟨-, hapart'⟩ := (Hierarchy.Reachable.loaded hload').consistent_and_apart
  obtain ⟨hs, hr⟩ := toHierarchy_eq_ok_iff.1 hload
  obtain ⟨hs', hr'⟩ := toHierarchy_eq_ok_iff.1 hload'
  have hsorted : s.entities.Perm (s.entities.mergeSort notBelow) := (List.mergeSort_perm ..).symm
  have hsorted' : s'.entities.Perm (s'.entities.mergeSort notBelow) :=
    (List.mergeSort_perm ..).symm
  have hpe := (hsorted.symm.trans hrear.entities).trans hsorted'
  have hes := hs.entities.perm hsorted
  have hes' := hs'.entities.perm hsorted'
  have hentity : ∀ x, h'.tree.entity x = h.tree.entity x := fun x => hr.tree_entity_perm hes hr' hpe
  have hlocal : ∀ x v, h'.tree.localRights x v = h.tree.localRights x v := by
    intro x v
    have hgranted : (h'.tree.memberOn x v).map (·.permissions) =
        (h.tree.memberOn x v).map (·.permissions) := by
      refine Option.ext fun p => ?_
      rw [hr'.memberOn_eq_some_iff hes' hapart', hr.memberOn_eq_some_iff hes hapart, hentity]
      simp only [hrear.terms.mem_iff]
    rw [Tree.localRights_eq, Tree.localRights_eq]
    exact congrArg (Option.getD · ∅) hgranted
  obtain ⟨above, hchain⟩ := hc.linked.exists_ancestry id
  exact ⟨hentity id, (hchain.rights_congr (fun x _ => hr.tree_parent_perm hes hr' hpe)
    (fun x _ => hlocal x u.id) fun x _ => Tree.homeRights_congr (hentity x)).2⟩

end Snapshot

end StaffRights
