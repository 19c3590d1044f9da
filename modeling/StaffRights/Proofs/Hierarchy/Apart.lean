import StaffRights.Proofs.Hierarchy.Runs

/-!
# One membership in each branch

A user has at most one membership in the branch of any entity: of two entities with memberships of
one user, neither is above the other. A new membership is checked against the whole branch of its
entity, and a move checks the staff of what is moved against the staff of the new ancestors. Both
checks are as strong as it takes, for all that a move brings together is a moved entity and a new
ancestor.

Reference: `SPEC_FULL.md` 3 and 8 (one membership in a branch).
-/

namespace StaffRights

namespace Tree

variable {t t' : Tree}

/-- Memberships of one user on two entities, one at or above the other, are the same membership. -/
def Apart (t : Tree) : Prop :=
  ∀ ⦃a b : EntityId⦄ ⦃m m' : Membership⦄, t.AtOrAbove a b → m ∈ t.staff a → m' ∈ t.staff b →
    m.user = m'.user → m = m'

/-- Where memberships are apart, a user has no two of them in one chain. -/
theorem Apart.eq_of_or (ha : t.Apart) {a b : EntityId} {m m' : Membership} (hm : m ∈ t.staff a)
    (hm' : m' ∈ t.staff b) (huser : m.user = m'.user)
    (hab : t.AtOrAbove a b ∨ t.AtOrAbove b a) : m = m' := by
  rcases hab with hab | hba
  · exact ha hab hm hm' huser
  · exact (ha hba hm' hm huser.symm).symm

/-- Memberships stay apart if none is added and no entities with staff get above one another. -/
theorem Apart.of_subset (ha : t.Apart) (hstaff : ∀ j, t'.staff j ⊆ t.staff j)
    (habove : ∀ a b, t'.staff b ≠ [] → t'.AtOrAbove a b → t.AtOrAbove a b) : t'.Apart := by
  intro a b m m' hab hm hm' huser
  have hab := habove a b (List.ne_nil_of_mem hm') hab
  exact ha hab (hstaff a hm) (hstaff b hm') huser

end Tree

namespace Hierarchy

variable {h h' : Hierarchy} {a b id : EntityId} {e p : Entity} {m : Membership} {stale : Stale}

/-! ## Effects -/

/-- A new entity is above nothing that was there before. -/
theorem Consistent.atOrAbove_attach (hc : h.Consistent) {q : Option Entity}
    (hnew : h.tree.entity e.id = none) (hb : e.id ≠ b) :
    (h.attach e q).tree.AtOrAbove a b ↔ h.tree.AtOrAbove a b := by
  refine Tree.atOrAbove_congr (fun x (hx : e.id ≠ x) => ?_) (fun x p hp _ => ?_) hb
  · rw [tree_parent_attach, if_neg hx]
  · exact ne_of_new hnew (hc.linked.entity_parent hp)

/-- What is above an entity after a move was above it before, or it is above the new parent of a
moved entity. -/
theorem atOrAbove_of_relink (he : h.tree.entity id = some e)
    (hab : (h.relink id p).tree.AtOrAbove a b) :
    h.tree.AtOrAbove a b ∨ h.tree.AtOrAbove id b ∧ h.tree.AtOrAbove a p.id := by
  induction hab with
  | refl => exact .inl (.refl _ _)
  | @tail c b _ hlink ih =>
    rw [h.parentOf_relink he] at hlink
    split at hlink
    · next hid =>
      subst hid hlink
      rcases ih with hap | ⟨-, hap⟩
      · exact .inr ⟨.refl _ _, hap⟩
      · exact .inr ⟨.refl _ _, hap⟩
    · rcases ih with hac | ⟨hidc, hap⟩
      · exact .inl (.tail hac hlink)
      · exact .inr ⟨.tail hidc hlink, hap⟩

namespace Consistent

variable (hc : h.Consistent)

include hc

/-- The memberships of a user in a branch are those on entities above and below, and on the entity
itself. -/
theorem mem_staffInBranch_iff {v : UserId} :
    m ∈ h.tree.staffInBranch id v ↔ m ∈ h.memberships ∧ m.user = v ∧
      (h.tree.AtOrAbove m.entity.id id ∨ h.tree.AtOrAbove id m.entity.id) := by
  simp only [Tree.staffInBranch, List.mem_filter, List.mem_flatMap, hc.linked.mem_branch_full_iff,
    mem_memberships_iff, beq_iff_eq]
  constructor
  · rintro ⟨⟨e, ⟨-, hbranch⟩, hm⟩, huser⟩
    rw [← hc.id_of_mem_staff hm] at hbranch
    exact ⟨⟨e.id, hm⟩, huser, hbranch⟩
  · rintro ⟨⟨j, hm⟩, huser, hbranch⟩
    obtain rfl := hc.id_of_mem_staff hm
    exact ⟨⟨m.entity, ⟨hc.staff_entity hm, hbranch⟩, hm⟩, huser⟩

/-- A move without clashes brings no user's memberships together. -/
theorem apart_relink (hapart : h.tree.Apart) (he : h.tree.entity id = some e)
    (hclash : h.clashesBelow id p.id = false) : (h.relink id p).tree.Apart := by
  intro a b m m' hab hm hm' huser
  rw [h.tree_staff_relink he] at hm hm'
  rcases atOrAbove_of_relink he hab with hab | ⟨hidb, hap⟩
  · exact hapart hab hm hm' huser
  · -- the check would have found this pair
    have ha := hc.id_of_mem_staff hm
    have hb := hc.id_of_mem_staff hm'
    have hdown : m'.entity ∈ h.tree.branch id .downward := by
      rw [hc.linked.mem_branch_downward_iff, hb]
      exact ⟨hc.staff_entity hm', hidb⟩
    have hup : m.entity ∈ h.tree.branch p.id .upward := by
      rw [hc.linked.mem_branch_upward_iff, ha]
      exact ⟨hc.staff_entity hm, hap⟩
    simp only [clashesBelow, List.any_eq_false, List.mem_flatMap] at hclash
    have hnone := hclash m' ⟨m'.entity, hdown, hb ▸ hm'⟩
    simp only [List.any_eq_true, not_exists, not_and] at hnone
    exact absurd (by simpa using huser) (hnone m.entity hup m (ha ▸ hm))

/-- A membership is stored where its user has no other above or below. -/
theorem apart_putMembership (hapart : h.tree.Apart) (hm : h.Admits m) :
    (h.putMembership m).tree.Apart := by
  -- the branch that was checked holds all that is above and all that is below
  have halone : ∀ {j : EntityId} {x : Membership}, x ∈ h.tree.staff j → x.user = m.user →
      (h.tree.AtOrAbove j m.entity.id ∨ h.tree.AtOrAbove m.entity.id j) → x.id = m.id := by
    intro j x hx huser hbranch
    rw [← hc.id_of_mem_staff hx] at hbranch
    exact hm.alone x (hc.mem_staffInBranch_iff.2 ⟨mem_memberships_iff.2 ⟨j, hx⟩, huser, hbranch⟩)
  intro a b x y hab hx hy huser
  rw [(h.sameLinks_putMembership m).atOrAbove_iff] at hab
  rw [hc.mem_staff_putMembership hm.entity fun j x hx hid => (hm.place j x hx hid).1] at hx hy
  rcases hx with ⟨rfl, rfl⟩ | ⟨hx, hxm⟩ <;> rcases hy with ⟨rfl, rfl⟩ | ⟨hy, hym⟩
  · rfl
  · exact absurd (halone hy huser.symm (.inr hab)) hym
  · exact absurd (halone hx huser (.inl hab)) hxm
  · exact hapart hab hx hy huser

/-- Every effect keeps the memberships of each user apart. -/
theorem apart_effect (hapart : h.tree.Apart) (he : h.Effect stale h') : h'.tree.Apart := by
  -- only moves and new memberships could bring two memberships together
  cases he with
  | same => exact hapart
  | @award id count =>
    have hlinks := h.sameLinks_setAwarded id count
    refine hapart.of_subset (fun j => ?_) fun a b _ hab => hlinks.atOrAbove_iff.1 hab
    rw [tree_staff_setAwarded]
    exact List.Subset.refl _
  | @attach e q hnew hroot hparent =>
    refine hapart.of_subset (fun j => ?_) fun a b hb hab => ?_
    · rw [tree_staff_attach]
      split <;> simp
    · rw [tree_staff_attach] at hb
      split at hb
      · exact absurd rfl hb
      · next hne => exact (hc.atOrAbove_attach hnew hne).1 hab
  | relink he hp hkind hclash => exact hc.apart_relink hapart he hclash
  | put hm => exact hc.apart_putMembership hapart hm
  | @drop mid m hm =>
    have hlinks := h.sameLinks_dropMembership mid
    refine hapart.of_subset (fun j => ?_) fun a b _ hab => hlinks.atOrAbove_iff.1 hab
    rw [hc.staff_dropMembership]
    exact List.filter_subset_self _
  | @dropSubtree e he =>
    obtain ⟨-, hw⟩ := hc.dropSubtree he
    refine hapart.of_subset hw.staff_subset fun a b hb hab => ?_
    have hkept : ¬ h.tree.AtOrAbove e.id b := fun hgone => hb (hw.staff_of_gone hgone)
    exact (hw.atOrAbove_iff (fun x y hxy hx => .trans hx (.single hxy)) hkept).1 hab

end Consistent

/-! ## Runs -/

/-- Both hold of every reachable hierarchy, by one induction, as moving relies on both. -/
theorem Reachable.consistent_and_apart (hr : h.Reachable) : h.Consistent ∧ h.tree.Apart := by
  refine hr.induction (P := fun h => h.Consistent ∧ h.tree.Apart) ?_ ⟨.empty, ?_⟩
  · rintro h c ⟨hc, hapart⟩
    obtain ⟨stale, he⟩ := hc.exists_effect c
    exact ⟨hc.effect he, hc.apart_effect hapart he⟩
  · intro a b m m' _ hm
    simp [tree_staff] at hm

/-- Of any two memberships of one user in a reachable hierarchy, the entities differ and neither is
an ancestor of the other. -/
theorem Reachable.one_membership_per_branch (hr : h.Reachable) :
    h.memberships.Pairwise fun m m' => m.user = m'.user →
      m.entity ≠ m'.entity ∧ ¬ h.tree.Above m.entity.id m'.entity.id ∧
        ¬ h.tree.Above m'.entity.id m.entity.id := by
  obtain ⟨hc, hapart⟩ := hr.consistent_and_apart
  have hdistinct : ∀ {a b : EntityId} {m m' : Membership}, m ∈ h.tree.staff a →
      m' ∈ h.tree.staff b → m.id ≠ m'.id → m.user = m'.user →
      m.entity ≠ m'.entity ∧ ¬ h.tree.Above m.entity.id m'.entity.id ∧
        ¬ h.tree.Above m'.entity.id m.entity.id := by
    intro a b m m' hm hm' hid huser
    have ha := hc.id_of_mem_staff hm
    have hb := hc.id_of_mem_staff hm'
    subst ha hb
    refine ⟨fun heq => hid ?_, fun habove => hid ?_, fun habove => hid ?_⟩
    · rw [hapart (.refl _ _) hm (heq ▸ hm') huser]
    · rw [hapart habove.atOrAbove hm hm' huser]
    · rw [hapart habove.atOrAbove hm' hm huser.symm]
  refine pairwise_memberships (fun id => ?_) fun a b hab m hm m' hm' => ?_
  · exact (List.pairwise_map.1 (hc.staff_nodup id)).imp_of_mem hdistinct
  · exact hdistinct hm hm' fun hid => hab (hc.eq_of_id_eq hm hm' hid).1

/-- A user has a membership on an issuer, and then on the faculty from which the issuer has moved.
-/
theorem Reachable.one_membership_per_branch_of_move :
    let h := (∅ : Hierarchy).run [.insertEntity ⟨.institution, .ofNat 1⟩ none,
      .insertEntity ⟨.faculty, .ofNat 2⟩ (some (.ofNat 1)),
      .insertEntity ⟨.faculty, .ofNat 3⟩ (some (.ofNat 1)),
      .insertEntity ⟨.issuer, .ofNat 4⟩ (some (.ofNat 2)),
      .insertMembership ⟨.ofNat 5, .ofNat 7, ⟨.issuer, .ofNat 4⟩, .full, none⟩,
      .moveEntity (.ofNat 4) (.ofNat 3),
      .insertMembership ⟨.ofNat 6, .ofNat 7, ⟨.faculty, .ofNat 2⟩, .full, none⟩]
    h.memberships.map (·.user) = [.ofNat 7, .ofNat 7] ∧
      h.memberships.Pairwise fun m m' => m.user = m'.user →
        m.entity ≠ m'.entity ∧ ¬ h.tree.Above m.entity.id m'.entity.id ∧
          ¬ h.tree.Above m'.entity.id m.entity.id :=
  ⟨by decide +kernel, Reachable.one_membership_per_branch (.run .empty _)⟩

end Hierarchy

end StaffRights
