import Mathlib.Data.Set.Defs
import StaffRights.Proofs.Hierarchy.Apart
import StaffRights.Proofs.Hierarchy.Staleness

/-!
# Gaining rights

A set of users acts as a coalition. A change is no gain on an entity if whoever holds a flag there
afterwards held it before, or some member of the coalition did. All effects but a move are no gain
on entities that were there before, and a membership is none if members of the coalition hold what
it grants.
-/

namespace StaffRights

namespace Tree

variable {t t' t'' : Tree} {S : Set User} {id : EntityId} {f : Flag}

/-- On the entity nobody holds a flag in `t'` that neither they nor any member of `S` held in `t`.
-/
def NoGain (S : Set User) (id : EntityId) (t t' : Tree) : Prop :=
  ∀ ⦃u : User⦄ ⦃f : Flag⦄, (t'.rights id u).holds f →
    (t.rights id u).holds f ∨ ∃ a ∈ S, (t.rights id a).holds f

/-- Where rights are the same, nobody gains any. -/
theorem NoGain.of_rights_eq (h : ∀ u, t'.rights id u = t.rights id u) : NoGain S id t t' := by
  intro u f hf
  rw [h u] at hf
  exact .inl hf

theorem NoGain.refl (S : Set User) (id : EntityId) (t : Tree) : NoGain S id t t :=
  .of_rights_eq fun _ => rfl

/-- What the members of the coalition hold together never grows, so nothing is gained in two steps
either. -/
theorem NoGain.trans (h₁ : NoGain S id t t') (h₂ : NoGain S id t' t'') : NoGain S id t t'' := by
  intro u f hf
  rcases h₂ hf with hu | ⟨a, ha, hf⟩
  · exact h₁ hu
  · rcases h₁ hf with hf | hf
    · exact .inr ⟨a, ha, hf⟩
    · exact .inr hf

/-- Where memberships are apart, a user has at most one on an entity. -/
theorem Apart.memberOn_eq_some_iff (ha : t.Apart) {v : UserId} {m : Membership} :
    t.memberOn id v = some m ↔ m ∈ t.staff id ∧ m.user = v := by
  constructor
  · intro hm
    exact ⟨List.mem_of_find?_eq_some hm, by simpa using List.find?_some hm⟩
  · rintro ⟨hm, rfl⟩
    rw [memberOn]
    cases hx : (t.staff id).find? (·.user == m.user) with
    | none => simpa using List.find?_eq_none.1 hx m hm
    | some x =>
      have huser : x.user = m.user := by simpa using List.find?_some hx
      rw [ha (.refl t id) (List.mem_of_find?_eq_some hx) hm huser]

/-- Where memberships are apart, what is granted on an entity is what a membership there grants. -/
theorem Apart.holds_localRights_iff (ha : t.Apart) {v : UserId} :
    (t.localRights id v).holds f ↔ ∃ m ∈ t.staff id, m.user = v ∧ m.permissions.holds f := by
  have hlocal : (t.localRights id v).holds f ↔
      ∃ m, t.memberOn id v = some m ∧ m.permissions.holds f := by
    rw [localRights]
    cases t.memberOn id v <;> simp
  simp only [hlocal, ha.memberOn_eq_some_iff, and_assoc]

/-- Nothing is gained if every membership on the chain of the entity stood there before, or grants
only what members of the coalition hold. -/
theorem NoGain.of_staff (ht : t.Linked) (ht' : t'.Linked) (ha : t.Apart) (ha' : t'.Apart)
    (hlinks : t.SameLinks t')
    (hstaff : ∀ j, t.AtOrAbove j id → ∀ m ∈ t'.staff j,
      m ∈ t.staff j ∨ ∀ f, m.permissions.holds f → ∃ a ∈ S, (t.rights id a).holds f) :
    NoGain S id t t' := by
  intro u f hf
  obtain ⟨j, hj, hf⟩ := ht'.holds_rights_iff.1 hf
  rw [hlinks.atOrAbove_iff] at hj
  rcases hf with hlocal | hhome
  · obtain ⟨m, hm, huser, hf⟩ := ha'.holds_localRights_iff.1 hlocal
    rcases hstaff j hj m hm with hm | hgranted
    · exact .inl (ht.holds_rights_iff.2
        ⟨j, hj, .inl (ha.holds_localRights_iff.2 ⟨m, hm, huser, hf⟩)⟩)
    · exact .inr (hgranted f hf)
  · rw [homeRights_congr (hlinks.entity j)] at hhome
    exact .inl (ht.holds_rights_iff.2 ⟨j, hj, .inr hhome⟩)

end Tree

namespace Hierarchy

variable {h : Hierarchy} {S : Set User} {id : EntityId} {e : Entity} {m : Membership}

namespace Consistent

variable (hc : h.Consistent)

include hc

/-- Nobody holds anything on an id without entity. -/
theorem not_holds_of_unknown (hid : h.tree.entity id = none) {u : User} {f : Flag} :
    ¬ (h.tree.rights id u).holds f := by
  rw [hc.linked.rights_of_unknown hid (hc.staff_of_unknown hid)]
  simp

/-- Nobody gains by a count. -/
theorem noGain_award {i : EntityId} {count : UInt32} :
    Tree.NoGain S id h.tree (h.modify i fun n => { n with awarded := count }).tree :=
  .of_rights_eq fun _ => (hc.rights_of_spares .award trivial id).2

/-- A new entity gives nobody anything on the others. -/
theorem noGain_attach {q : Option Entity} (hnew : h.tree.entity e.id = none) (hid : e.id ≠ id) :
    Tree.NoGain S id h.tree (h.attach e q).tree := by
  -- the new entity is not on the chain: all above the id were known before
  have hne : ∀ x, h.tree.AtOrAbove x id → e.id ≠ x := by
    intro x hx
    rcases Relation.ReflTransGen.cases_head hx with rfl | ⟨y, ⟨p, hp, rfl⟩, -⟩
    · exact hid
    · exact ne_of_new hnew (hc.linked.entity_parent hp)
  refine .of_rights_eq fun u => hc.linked.rights_congr (fun x hx => ?_) (fun x hx => ?_)
    fun x hx => Tree.memberOn_congr ?_
  · rw [tree_entity_attach, if_neg (hne x hx)]
  · rw [tree_parent_attach, if_neg (hne x hx)]
  · rw [tree_staff_attach, if_neg (hne x hx)]

/-- Nobody gains by a removal. -/
theorem noGain_dropMembership (hapart : h.tree.Apart) {mid : MembershipId}
    (hm : h.membership? mid = some m) :
    Tree.NoGain S id h.tree (h.dropMembership mid).2.tree := by
  refine .of_staff hc.linked (hc.dropMembership mid).linked hapart
    (hc.apart_effect hapart (.drop hm))
    (h.sameLinks_dropMembership mid) fun j _ x hx => .inl ?_
  rw [hc.staff_dropMembership] at hx
  exact List.mem_of_mem_filter hx

/-- On an entity that is gone nobody holds anything; on the others everything is as before. -/
theorem noGain_dropSubtree (he : h.tree.entity e.id = some e) :
    Tree.NoGain S id h.tree (h.dropSubtree e).1.tree := by
  obtain ⟨hc', hw⟩ := hc.dropSubtree he
  by_cases hid : h.tree.AtOrAbove e.id id
  · intro u f hf
    exact absurd hf (hc'.not_holds_of_unknown (hw.entity_of_gone hid))
  · -- with the id, all above it is kept
    have hkept : ∀ x, h.tree.AtOrAbove x id → ¬ h.tree.AtOrAbove e.id x :=
      fun x hx hgone => hid (hgone.trans hx)
    refine .of_rights_eq fun u => hc.linked.rights_congr (fun x hx => ?_) (fun x hx => ?_)
      fun x hx => Tree.memberOn_congr ?_
    · rw [hw.entity_of_kept (hkept x hx)]
    · rw [hw.parent_of_kept (hkept x hx)]
    · rw [hw.staff_of_kept (hkept x hx)]

/-- A membership gives its user no more than members of the coalition hold on its entity, and by
that on everything below. -/
theorem noGain_putMembership (hapart : h.tree.Apart) (hm : h.Admits m)
    (hgranted : ∀ f, m.permissions.holds f → ∃ a ∈ S, (h.tree.rights m.entity.id a).holds f) :
    Tree.NoGain S id h.tree (h.putMembership m).tree := by
  have hfree : ∀ j, ∀ x ∈ h.tree.staff j, x.id = m.id → j = m.entity.id :=
    fun j x hx hxm => (hm.place j x hx hxm).1
  refine .of_staff hc.linked (hc.putMembership hm.entity hfree).linked hapart
    (hc.apart_putMembership hapart hm) (h.sameLinks_putMembership m) fun j hj x hx => ?_
  rcases (hc.mem_staff_putMembership hm.entity hfree).1 hx with ⟨rfl, rfl⟩ | ⟨hx, -⟩
  · refine .inr fun f hf => ?_
    obtain ⟨a, ha, hf⟩ := hgranted f hf
    exact ⟨a, ha, hc.linked.rights_downward hj hf⟩
  · exact .inl hx

end Consistent

end Hierarchy

end StaffRights
