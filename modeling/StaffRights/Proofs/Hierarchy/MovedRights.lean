import StaffRights.Proofs.Hierarchy.MembershipRights
import StaffRights.Proofs.Hierarchy.Moves
import StaffRights.Proofs.Hierarchy.Persistence

/-!
# Rights after a move

What is moved takes along what is granted on it and below it, and inherits from the new parent what
was held there, in place of what it had from the old one. Outside of what is moved nobody gains or
loses anything. Nor does a user with a membership inside: no other membership of the user was above
it, none is above it now, and the institution, where a teacher may read, is the same.
-/

namespace StaffRights

namespace Tree

variable {t : Tree} {top x : EntityId} {a e p : Entity}

/-- The entities from `x` up to `top`, the nearest to `x` first: those in the branch of `x` upward
that are also in the branch of `top` downward. -/
def upTo (t : Tree) (top x : EntityId) : List Entity :=
  (t.branch x .upward).filter fun a => (t.branch top .downward).contains a

namespace Linked

variable (ht : t.Linked)

include ht

/-- The entities up to another are those at or above the one and at or below the other. -/
theorem mem_upTo_iff :
    a ∈ t.upTo top x ↔ t.entity a.id = some a ∧ t.AtOrAbove top a.id ∧ t.AtOrAbove a.id x := by
  rw [upTo, List.mem_filter, List.contains_iff_mem, ht.mem_branch_upward_iff,
    ht.mem_branch_downward_iff]
  tauto

/-- Nothing above an entity is below it. -/
theorem upTo_self (he : t.entity e.id = some e) : t.upTo e.id e.id = [e] := by
  obtain ⟨above, h⟩ := ht.exists_ancestry e.id
  have hself : e ∈ t.branch e.id .downward := ht.mem_branch_downward_iff.2 ⟨he, .refl t e.id⟩
  have habove : above.filter (fun a => (t.branch e.id .downward).contains a) = [] := by
    refine List.filter_eq_nil_iff.2 fun a ha hbelow => ?_
    rw [List.contains_iff_mem, ht.mem_branch_downward_iff] at hbelow
    have hup := h.atOrAbove_iff.2 (.inr ⟨a, ha, rfl⟩)
    have hid : a.id = e.id := ht.atOrAbove_antisymm hup hbelow.2
    exact h.not_mem (hid ▸ List.mem_map_of_mem ha)
  rw [upTo, ht.branch_upward he h, List.filter_cons_of_pos (List.contains_iff_mem.2 hself), habove]

/-- The way up to another entity starts at the entity itself and goes on at its parent. -/
theorem upTo_of_parent (he : t.entity e.id = some e) (hp : t.parent e.id = some p)
    (htop : t.AtOrAbove top p.id) : t.upTo top e.id = e :: t.upTo top p.id := by
  obtain ⟨above, h⟩ := ht.exists_ancestry p.id
  have hbelow : e ∈ t.branch top .downward := ht.mem_branch_downward_iff.2 ⟨he, htop.below hp⟩
  rw [upTo, ht.branch_upward he (.link hp h),
    List.filter_cons_of_pos (List.contains_iff_mem.2 hbelow), upTo,
    ht.branch_upward (ht.entity_parent hp) h]

end Linked

end Tree

namespace Hierarchy

variable {h : Hierarchy} {a b x id : EntityId} {e p : Entity} {m : Membership} {u : User}

section Relink

variable (he : h.tree.entity id = some e)

include he

/-- What is granted on an entity itself is granted there after the move. -/
theorem localRights_relink (j : EntityId) (v : UserId) :
    (h.relink id p).tree.localRights j v = h.tree.localRights j v :=
  Tree.localRights_congr (Tree.memberOn_congr (by rw [h.tree_staff_relink he]))

/-- A move leaves the memberships as they are. -/
theorem mem_memberships_relink : m ∈ (h.relink id p).memberships ↔ m ∈ h.memberships := by
  simp only [mem_memberships_iff, h.tree_staff_relink he]

end Relink

namespace Consistent

variable (hc : h.Consistent)

include hc

/-- Links inside of what is moved are left as they are. -/
theorem atOrAbove_relink_of_below (he : h.tree.entity id = some e) (hida : h.tree.AtOrAbove id a)
    (hab : h.tree.AtOrAbove a b) : (h.relink id p).tree.AtOrAbove a b := by
  induction hab with
  | refl => exact .refl _ _
  | @tail c b hac hcb ih =>
    refine .tail ih ?_
    rw [h.parentOf_relink he, if_neg]
    · exact hcb
    · -- the entity itself is below none of what is below it
      rintro rfl
      exact hc.linked.not_above_self (.tail' (hida.trans hac) hcb)

/-- What is below the moved entity moves along, and nothing else comes below it. -/
theorem atOrAbove_relink_iff (he : h.tree.entity id = some e) :
    (h.relink id p).tree.AtOrAbove id b ↔ h.tree.AtOrAbove id b := by
  constructor
  · intro hb
    rcases atOrAbove_of_relink he hb with hb | ⟨hb, -⟩
    · exact hb
    · exact hb
  · exact hc.atOrAbove_relink_of_below he (.refl _ _)

/-- What is not moved has the chain above it that it had. -/
theorem rights_relink_of_outside (he : h.tree.entity id = some e)
    (hx : ¬ h.tree.AtOrAbove id x) : (h.relink id p).tree.rights x u = h.tree.rights x u := by
  have hne : ∀ y, h.tree.AtOrAbove y x → id ≠ y := by
    rintro y hy rfl
    exact hx hy
  refine hc.linked.rights_congr (fun y _ => h.tree_entity_relink he) (fun y hy => ?_)
    fun y _ => Tree.memberOn_congr (by rw [h.tree_staff_relink he])
  rw [h.tree_parent_relink he, if_neg (hne y hy)]

variable (he : h.tree.entity e.id = some e) (hp : h.tree.entity p.id = some p)
  (hkind : e.kind.above = some p.kind)

include he hp hkind

/-- What is moved has what is granted up to the moved entity, and what is held on the new parent. -/
theorem rights_relink_of_inside (hx : h.tree.AtOrAbove e.id x) :
    (h.relink e.id p).tree.rights x u =
      .union ((h.tree.upTo e.id x).map fun a => h.tree.localRights a.id u.id) ∪
        h.tree.rights p.id u := by
  have ht' := (hc.relink he hp hkind).linked
  -- by induction down the chain from the moved entity
  induction hx with
  | refl =>
    have hparent : (h.relink e.id p).tree.parent e.id = some p := by
      rw [h.tree_parent_relink he, if_pos rfl]
    have hout := hc.not_atOrAbove_of_kind he hp hkind
    rw [ht'.rights_eq hparent, hc.rights_relink_of_outside he hout, localRights_relink he,
      hc.linked.upTo_self he]
    simp
  | @tail b c hb hlink ih =>
    obtain ⟨q, hq, rfl⟩ := hlink
    have hne : e.id ≠ c := by
      rintro rfl
      exact hc.linked.not_atOrAbove_parent hq hb
    have hparent : (h.relink e.id p).tree.parent c = some q := by
      rw [h.tree_parent_relink he, if_neg hne, hq]
    obtain ⟨y, hy, -⟩ := hc.linked.parent_entity hq
    obtain rfl := hc.linked.entity_id hy
    rw [ht'.rights_eq hparent, ih, localRights_relink he, hc.linked.upTo_of_parent hy hq hb,
      List.map_cons, Permissions.union_cons, Permissions.union_assoc]

/-- Who has a membership inside of what is moved has below it what it grants, before and after. -/
theorem rights_relink_of_membership (ha : h.tree.Apart)
    (hinst : h.tree.institution? e.id = h.tree.institution? p.id)
    (hclash : h.clashesBelow e.id p.id = false) (hm : m ∈ h.memberships) (hu : u.id = m.user)
    (htop : h.tree.AtOrAbove e.id m.entity.id) (hx : h.tree.AtOrAbove m.entity.id x) :
    (h.relink e.id p).tree.rights x u = h.tree.rights x u := by
  have hc' := hc.relink he hp hkind
  have ha' := hc.apart_relink ha he hclash
  have hx' := hc.atOrAbove_relink_of_below he (p := p) htop hx
  -- neither is the institution another one
  have himplicit : (h.relink e.id p).tree.implicitRights x u = h.tree.implicitRights x u := by
    obtain ⟨y, hy⟩ : ∃ y, h.tree.entity x = some y := by
      rcases Relation.ReflTransGen.cases_tail hx with rfl | ⟨z, -, q, hq, -⟩
      · exact ⟨_, hc.entity_of_membership hm⟩
      · obtain ⟨y, hy, -⟩ := hc.linked.parent_entity hq
        exact ⟨y, hy⟩
    rw [Tree.implicitRights, (hc.retains_relink he hp hkind hinst hy).2, Tree.implicitRights]
  rw [hc.rights_of_membership ha hm hx hu,
    hc'.rights_of_membership ha' ((mem_memberships_relink he).2 hm) hx' hu, himplicit]

end Consistent

/-! ## Reachable hierarchies -/

/-- A move to another parent puts the entity below it and changes nobody's rights outside of what it
moves. Inside, a user has afterwards what is granted from the entity up to the moved one, and the
rights on the new parent, which is outside; and who has a membership on that way has the same rights
as before. -/
theorem Reachable.rights_after_move (hr : h.Reachable) {q : EntityId} {o : Outcome Entity}
    (ho : (h.moveEntity id q).answer = .ok o)
    (hparent : (h.tree.parent id).map (·.id) ≠ some q) (u : User) :
    let t := (h.moveEntity id q).after.tree
    (t.parent id).map (·.id) = some q ∧
      (∀ x, ¬ h.tree.AtOrAbove id x → t.rights x u = h.tree.rights x u) ∧
      ¬ h.tree.AtOrAbove id q ∧
      ∀ x, (t.AtOrAbove id x ↔ h.tree.AtOrAbove id x) ∧
        (h.tree.AtOrAbove id x →
          t.rights x u =
              .union ((h.tree.upTo id x).map fun a => h.tree.localRights a.id u.id) ∪
                h.tree.rights q u ∧
            ∀ m ∈ h.memberships, m.user = u.id → m.entity ∈ h.tree.upTo id x →
              t.rights x u = h.tree.rights x u) := by
  obtain ⟨hc, ha⟩ := hr.consistent_and_apart
  obtain ⟨e, p, he, hp, hkind, hinst, ⟨hstay, -, -⟩ | ⟨-, hclash, -, hafter⟩⟩ :=
    (h.moveEntity_meets id q).of_ok ho
  · -- the entity was below that parent already
    rw [hstay, Option.map_some, hc.linked.entity_id hp] at hparent
    exact absurd rfl hparent
  · obtain rfl := hc.linked.entity_id he
    obtain rfl := hc.linked.entity_id hp
    rw [hafter]
    refine ⟨by rw [h.tree_parent_relink he, if_pos rfl, Option.map_some],
      fun x => hc.rights_relink_of_outside he, hc.not_atOrAbove_of_kind he hp hkind,
      fun x => ⟨hc.atOrAbove_relink_iff he, fun hx => ?_⟩⟩
    refine ⟨hc.rights_relink_of_inside he hp hkind hx, fun m hm hu hup => ?_⟩
    obtain ⟨-, htop, hbelow⟩ := hc.linked.mem_upTo_iff.1 hup
    exact hc.rights_relink_of_membership he hp hkind ha hinst hclash hm hu.symm htop hbelow

/-- An issuer with a badge class moves to another faculty. Who awards for that faculty may now award
for the badge class, where nothing was held before; who is on the staff of the issuer keeps all
rights on the badge class. -/
theorem Reachable.rights_after_move_of_issuer :
    let c : Entity := ⟨.badgeClass, .ofNat 5⟩
    let e : Entity := ⟨.issuer, .ofNat 4⟩
    let p : Entity := ⟨.faculty, .ofNat 3⟩
    let m : Membership := ⟨.ofNat 6, .ofNat 8, e, .full, none⟩
    let h := (∅ : Hierarchy).run [.insertEntity ⟨.institution, .ofNat 1⟩ none,
      .insertEntity ⟨.faculty, .ofNat 2⟩ (some (.ofNat 1)),
      .insertEntity p (some (.ofNat 1)), .insertEntity e (some (.ofNat 2)),
      .insertEntity c (some e.id), .insertMembership m,
      .insertMembership ⟨.ofNat 7, .ofNat 9, p, .single .award, none⟩]
    let t := (h.moveEntity e.id p.id).after.tree
    let u : User := .student (.ofNat 9)
    let v : User := .teacher m.user (.ofNat 1)
    h.tree.upTo e.id c.id = [c, e] ∧ h.tree.rights c.id u = ∅ ∧
      t.rights c.id u = ∅ ∪ .single .award ∧ t.rights c.id v = h.tree.rights c.id v ∧
      t.rights p.id u = h.tree.rights p.id u ∧ ¬ h.tree.AtOrAbove e.id p.id ∧
      (t.AtOrAbove e.id c.id ↔ h.tree.AtOrAbove e.id c.id) := by
  intro c e p m h t u v
  have hr : h.Reachable := .run .empty _
  have hmoved : (h.moveEntity e.id p.id).answer =
      .ok ⟨e, [⟨⟨.faculty, .ofNat 2⟩⟩, ⟨p⟩], .everyone⟩ := by
    decide +kernel
  have hparent : (h.tree.parent e.id).map (·.id) ≠ some p.id := by decide +kernel
  have hup : h.tree.upTo e.id c.id = [c, e] := by decide +kernel
  have hbelow : h.tree.AtOrAbove e.id c.id := .single ⟨e, by decide +kernel, rfl⟩
  have hmem : m ∈ h.memberships := by decide +kernel
  obtain ⟨-, houtside, hout, hinside⟩ := hr.rights_after_move hmoved hparent u
  obtain ⟨-, -, -, hinside'⟩ := hr.rights_after_move hmoved hparent v
  obtain ⟨hsame, hunion⟩ := hinside c.id
  obtain ⟨hrights, -⟩ := hunion hbelow
  obtain ⟨-, hkept⟩ := (hinside' c.id).2 hbelow
  exact ⟨hup, by decide +kernel, hrights.trans (by decide +kernel),
    hkept m hmem rfl (hup ▸ by decide), houtside p.id hout, hout, hsame⟩

end Hierarchy

end StaffRights
