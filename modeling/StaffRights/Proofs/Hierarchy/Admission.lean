import StaffRights.Proofs.Hierarchy.Apart
import StaffRights.Proofs.Hierarchy.Changes
import StaffRights.Proofs.Hierarchy.Order
import StaffRights.Proofs.Tree.Institution

/-!
# Which memberships are admitted

A new membership is turned down for two reasons alone: its entity is not there, or it conflicts with
a membership that is. Two memberships conflict if they have the same id, or if they are of one user
and neither entity is elsewhere for the other, in a sibling's branch or in another institution. That
is the same for both of them; so of two memberships that could be stored, each can be stored after
the other or neither can, and the order of storing them shows in the order of staff alone.

Reference: `SPEC_FULL.md` 4.4 (conflict detection).
-/

namespace StaffRights

namespace Tree

variable {t t' : Tree} {a b : EntityId} {m x : Membership}

/-- Two memberships cannot be stored beside one another: they have the same id, or one user has
both, on one entity or on two of which one is above the other. -/
def Conflict (t : Tree) (m x : Membership) : Prop :=
  x.id = m.id ∨ x.user = m.user ∧
    (x.entity = m.entity ∨ t.Above x.entity.id m.entity.id ∨ t.Above m.entity.id x.entity.id)

/-- The entities are in different institutions, or at or below two children of one entity. -/
def Elsewhere (t : Tree) (a b : EntityId) : Prop :=
  t.institution? a ≠ t.institution? b ∨
    ∃ c d p, c ≠ d ∧ t.parent c = some p ∧ t.parent d = some p ∧ t.AtOrAbove c a ∧ t.AtOrAbove d b

theorem Conflict.symm (hconf : t.Conflict m x) : t.Conflict x m := by
  rcases hconf with hid | ⟨huser, hentity | habove | habove⟩
  · exact .inl hid.symm
  · exact .inr ⟨huser.symm, .inl hentity.symm⟩
  · exact .inr ⟨huser.symm, .inr (.inr habove)⟩
  · exact .inr ⟨huser.symm, .inr (.inl habove)⟩

/-- With the same links, the same entities are above one another. -/
theorem above_congr (hlink : ∀ a b, t'.ParentOf a b ↔ t.ParentOf a b) :
    t'.Above a b ↔ t.Above a b := by
  have heq : t'.ParentOf = t.ParentOf := funext fun a => funext fun b => propext (hlink a b)
  rw [Above, Above, heq]

theorem SameLinks.above_iff (h : t.SameLinks t') : t'.Above a b ↔ t.Above a b :=
  above_congr fun _ _ => h.parentOf_iff

theorem SameLinks.conflict_iff (h : t.SameLinks t') : t'.Conflict m x ↔ t.Conflict m x := by
  rw [Conflict, Conflict, h.above_iff, h.above_iff]

/-- On entities that are there, conflicts are found by ids alone. -/
theorem conflict_iff (hx : t.entity x.entity.id = some x.entity)
    (hm : t.entity m.entity.id = some m.entity) :
    t.Conflict m x ↔ x.id = m.id ∨ x.user = m.user ∧
      (t.AtOrAbove x.entity.id m.entity.id ∨ t.AtOrAbove m.entity.id x.entity.id) := by
  have hentity : x.entity = m.entity ↔ x.entity.id = m.entity.id :=
    ⟨fun heq => congrArg _ heq, eq_of_id_eq hx hm⟩
  rw [Conflict, hentity, atOrAbove_iff_eq_or_above, atOrAbove_iff_eq_or_above]
  grind

namespace Linked

variable (ht : t.Linked)

include ht

/-- An entity is there if one of its kind is found under its id. -/
theorem entity_iff_kind {e : Entity} :
    t.entity e.id = some e ↔ ∃ x, t.entity e.id = some x ∧ x.kind = e.kind := by
  refine ⟨fun he => ⟨e, he, rfl⟩, ?_⟩
  rintro ⟨x, hx, hkind⟩
  have hxe : x = e := by
    obtain ⟨k, id⟩ := e
    obtain ⟨k', id'⟩ := x
    obtain rfl : id' = id := ht.entity_id hx
    exact congrArg (Entity.mk · id') hkind
  rwa [hxe] at hx

/-- What is below an entity is in its institution. -/
theorem institution?_of_atOrAbove (hab : t.AtOrAbove a b) :
    t.institution? b = t.institution? a := by
  induction hab with
  | refl => rfl
  | tail _ hlink ih =>
    obtain ⟨p, hp, rfl⟩ := hlink
    rw [ht.institution?_of_parent hp, ih]

/-- Of two entities one is at or above the other, unless they are elsewhere for one another. -/
theorem elsewhere_iff {e : Entity} (hb : t.entity b = some e) :
    t.Elsewhere a b ↔ ¬ (t.AtOrAbove a b ∨ t.AtOrAbove b a) := by
  constructor
  · rintro (hinst | ⟨c, d, p, hcd, hc, hd, hca, hdb⟩) (hab | hba)
    · exact hinst (ht.institution?_of_atOrAbove hab).symm
    · exact hinst (ht.institution?_of_atOrAbove hba)
    · exact ht.not_below_sibling hc hd hcd (hca.trans hab) hdb
    · exact ht.not_below_sibling hc hd hcd hca (hdb.trans hba)
  · intro hapart
    by_cases hinst : t.institution? a = t.institution? b
    swap
    · exact .inl hinst
    refine .inr ?_
    -- up the chain above `b`, to the first entity that is at or above `a` as well
    induction b using ht.induction_upward generalizing e with
    | root b hroot =>
      have hself := ht.institution?_of_root hb hroot
      obtain ⟨-, -, habove⟩ := ht.institution?_eq_some_iff.1 (hinst.trans hself)
      rw [ht.entity_id hb] at habove
      exact absurd (.inr habove) hapart
    | link b p hp ih =>
      by_cases hpa : t.AtOrAbove p.id a
      · have hpe := ht.entity_parent hp
        rcases (ht.atOrAbove_iff_children hpe).1 hpa with rfl | ⟨c, hc, hca⟩
        · exact absurd (.inl (.below (.refl t p.id) hp)) hapart
        · refine ⟨c.id, b, p, ?_, ht.parent_child hpe hc, hp, hca, .refl t b⟩
          rintro rfl
          exact hapart (.inr hca)
      · have hunrelated : ¬ (t.AtOrAbove a p.id ∨ t.AtOrAbove p.id a) := by
          rintro (hap | hpa')
          · exact hapart (.inl (hap.below hp))
          · exact hpa hpa'
        obtain ⟨c, d, q, hcd, hc, hd, hca, hdp⟩ := ih (ht.entity_parent hp) hunrelated
          (hinst.trans (ht.institution?_of_parent hp))
        exact ⟨c, d, q, hcd, hc, hd, hca, hdp.below hp⟩

end Linked

end Tree

namespace Hierarchy

variable {h : Hierarchy} {m m' x : Membership} {j : EntityId}

/-! ## New ids -/

/-- What conflicts with nothing has a new id. -/
theorem fresh_of_free (hfree : ∀ x ∈ h.memberships, ¬ h.tree.Conflict m x) :
    ∀ x ∈ h.memberships, x.id ≠ m.id :=
  fun x hx hid => hfree x hx (.inl hid)

section Fresh

variable (hfresh : ∀ x ∈ h.memberships, x.id ≠ m.id)

include hfresh

/-- A fresh membership has its id to itself. -/
theorem staff_of_fresh (j : EntityId) : ∀ x ∈ h.tree.staff j, x.id ≠ m.id :=
  fun x hx => hfresh x (mem_memberships_iff.2 ⟨j, hx⟩)

/-- A membership of a new id is listed last among the staff of its entity. -/
theorem node?_putMembership_of_fresh :
    (h.putMembership m).node? j =
      if m.entity.id = j then (h.node? j).map fun n => { n with staff := n.staff ++ [m] }
      else h.node? j := by
  rw [node?_putMembership]
  split
  · cases hn : h.node? j with
    | none => rfl
    | some n =>
      have hstaff := staff_of_fresh hfresh j
      rw [h.staff_of_node? hn] at hstaff
      rw [Option.map_some, Option.map_some, putStaff_eq m n.staff hstaff]
  · rfl

namespace Consistent

variable (hc : h.Consistent) (he : h.tree.entity m.entity.id = some m.entity)

include hc he

/-- A fresh membership is added to those that are there. -/
theorem mem_memberships_putMembership_of_fresh :
    x ∈ (h.putMembership m).memberships ↔ x = m ∨ x ∈ h.memberships := by
  have hplace : ∀ j, ∀ x ∈ h.tree.staff j, x.id = m.id → j = m.entity.id := fun j x hx hid =>
    absurd hid (staff_of_fresh hfresh j x hx)
  simp only [mem_memberships_iff, hc.mem_staff_putMembership he hplace]
  constructor
  · rintro ⟨j, ⟨rfl, -⟩ | ⟨hx, -⟩⟩
    · exact .inl rfl
    · exact .inr ⟨j, hx⟩
  · rintro (rfl | ⟨j, hx⟩)
    · exact ⟨_, .inl ⟨rfl, rfl⟩⟩
    · exact ⟨j, .inr ⟨hx, staff_of_fresh hfresh j x hx⟩⟩

/-- A fresh membership on a known entity keeps a hierarchy consistent. -/
theorem putMembership_of_fresh : (h.putMembership m).Consistent :=
  hc.putMembership he fun j x hx hid => absurd hid (staff_of_fresh hfresh j x hx)

/-- Another new id is still new after a membership was put. -/
theorem fresh_putMembership (hfresh' : ∀ x ∈ h.memberships, x.id ≠ m'.id) (hids : m.id ≠ m'.id) :
    ∀ x ∈ (h.putMembership m).memberships, x.id ≠ m'.id := by
  intro x hx
  rcases (hc.mem_memberships_putMembership_of_fresh hfresh he).1 hx with rfl | hx
  · exact hids
  · exact hfresh' x hx

end Consistent

end Fresh

/-- Memberships with different ids are indexed alike in either order. -/
theorem index_putMembership_comm (he : h.tree.entity m.entity.id = some m.entity)
    (he' : h.tree.entity m'.entity.id = some m'.entity) (hids : m.id ≠ m'.id) :
    ((h.putMembership m).putMembership m').index =
      ((h.putMembership m').putMembership m).index := by
  have hsome : ((h.putMembership m).node? m'.entity.id).isSome :=
    isSome_node? _ (((h.sameLinks_putMembership m).entity _).trans he')
  have hsome' : ((h.putMembership m').node? m.entity.id).isSome :=
    isSome_node? _ (((h.sameLinks_putMembership m').entity _).trans he)
  rw [index_putMembership _ _ hsome, index_putMembership _ _ hsome',
    index_putMembership _ _ (isSome_node? _ he), index_putMembership _ _ (isSome_node? _ he')]
  refine Std.ExtTreeMap.ext_getElem? fun k => ?_
  simp only [Std.ExtTreeMap.getElem?_insert, Std.LawfulEqOrd.compare_eq_iff_eq]
  grind

/-! ## The answer, case by case -/

/-- Nobody joins the staff of what is not there. -/
theorem insertMembership_of_unknown (he : h.tree.entity m.entity.id ≠ some m.entity) :
    h.insertMembership m = .refuse .notFound h := by
  rw [insertMembership_eq, if_pos he]

/-- What is inserted is put on the staff. -/
theorem after_insertMembership {o : Outcome Membership}
    (ho : (h.insertMembership m).answer = .ok o) :
    (h.insertMembership m).after = h.putMembership m := by
  obtain ⟨-, -, -, -, hafter⟩ := (h.insertMembership_meets m).of_ok ho
  exact hafter

/-- Only an unknown entity is answered as missing. -/
theorem insertMembership_notFound_iff :
    (h.insertMembership m).answer = .error .notFound ↔
      h.tree.entity m.entity.id ≠ some m.entity := by
  refine ⟨insertMembership_missing, fun he => ?_⟩
  rw [insertMembership_of_unknown he]
  rfl

namespace Consistent

variable (hc : h.Consistent)

include hc

section Known

variable (he : h.tree.entity m.entity.id = some m.entity)

include he

/-- The two checks find the conflicts. -/
theorem exists_conflict_iff :
    (∃ x ∈ h.memberships, h.tree.Conflict m x) ↔
      (h.membership? m.id).isSome ∨ h.conflicts m.entity.id m.user none := by
  have hsome : (h.membership? m.id).isSome ↔ ∃ x ∈ h.memberships, x.id = m.id := by
    simp only [Option.isSome_iff_exists, hc.membership?_eq_some_iff]
  have hbranch : h.conflicts m.entity.id m.user none ↔ ∃ x ∈ h.memberships, x.user = m.user ∧
      (h.tree.AtOrAbove x.entity.id m.entity.id ∨ h.tree.AtOrAbove m.entity.id x.entity.id) := by
    simp only [conflicts, List.any_eq_true, hc.mem_staffInBranch_iff]
    simp
  rw [hsome, hbranch, ← exists_or]
  refine exists_congr fun x => ?_
  rw [← and_or_left]
  exact and_congr_right fun hx => Tree.conflict_iff (hc.entity_of_membership hx) he

/-- A conflict turns a membership down, and one with a known id counts as a conflict. -/
theorem insertMembership_of_conflict (hconf : ∃ x ∈ h.memberships, h.tree.Conflict m x) :
    h.insertMembership m = .refuse .conflictingMembership h := by
  rw [insertMembership_eq, if_neg (not_not.2 he)]
  rcases (hc.exists_conflict_iff he).1 hconf with hsome | hbranch
  · rw [if_pos hsome]
  · rw [if_pos hbranch, ite_self]

/-- Without a conflict a membership is inserted. -/
theorem insertMembership_of_free (hfree : ∀ x ∈ h.memberships, ¬ h.tree.Conflict m x) :
    h.insertMembership m = .done m [⟨m.entity⟩] (.user m.user) (h.putMembership m) := by
  have hnone := mt (hc.exists_conflict_iff he).2 fun ⟨x, hx, hconf⟩ => hfree x hx hconf
  rw [not_or] at hnone
  rw [insertMembership_eq, if_neg (not_not.2 he), if_neg hnone.1, if_neg hnone.2, staffChanged]

end Known

/-- A membership is stored if its entity is there and nothing that is there conflicts with it. -/
theorem insertMembership_ok_iff :
    (∃ o, (h.insertMembership m).answer = .ok o) ↔
      h.tree.entity m.entity.id = some m.entity ∧
        ∀ x ∈ h.memberships, ¬ h.tree.Conflict m x := by
  by_cases he : h.tree.entity m.entity.id = some m.entity
  · by_cases hfree : ∀ x ∈ h.memberships, ¬ h.tree.Conflict m x
    · rw [hc.insertMembership_of_free he hfree]
      exact ⟨fun _ => ⟨he, hfree⟩, fun _ => ⟨_, rfl⟩⟩
    · rw [hc.insertMembership_of_conflict he (by simpa using hfree)]
      exact ⟨fun hok => absurd hok.choose_spec (by nofun), fun hok => absurd hok.2 hfree⟩
  · rw [insertMembership_of_unknown he]
    exact ⟨fun hok => absurd hok.choose_spec (by nofun), fun hok => absurd hok.1 he⟩

/-! ## Storing two memberships -/

section Two

variable (he : h.tree.entity m.entity.id = some m.entity)
  (he' : h.tree.entity m'.entity.id = some m'.entity)
  (hfree : ∀ x ∈ h.memberships, ¬ h.tree.Conflict m x)
  (hfree' : ∀ x ∈ h.memberships, ¬ h.tree.Conflict m' x)

include he he' hfree hfree'

/-- Of two memberships that could be stored, the second is stored after the first unless the two
conflict. -/
theorem insertMembership_ok_after_iff :
    (∃ o, ((h.putMembership m).insertMembership m').answer = .ok o) ↔ ¬ h.tree.Conflict m' m := by
  have hfresh := fresh_of_free hfree
  have hlinks := h.sameLinks_putMembership m
  rw [(hc.putMembership_of_fresh hfresh he).insertMembership_ok_iff, hlinks.entity]
  simp only [hlinks.conflict_iff, hc.mem_memberships_putMembership_of_fresh hfresh he]
  constructor
  · exact fun hok => hok.2 m (.inl rfl)
  · rintro hnone
    refine ⟨he', ?_⟩
    rintro x (rfl | hx)
    · exact hnone
    · exact hfree' x hx

/-- Stored in either order, two memberships that do not conflict leave the same hierarchy, but for
the order of staff. -/
theorem reordered_putMembership (hnone : ¬ h.tree.Conflict m' m) :
    ((h.putMembership m).putMembership m').Reordered ((h.putMembership m').putMembership m) ∧
      ∀ j, ((h.putMembership m').putMembership m).tree.children j =
        ((h.putMembership m).putMembership m').tree.children j := by
  have hfresh := fresh_of_free hfree
  have hfresh' := fresh_of_free hfree'
  have hids : m.id ≠ m'.id := fun hid => hnone (.inl hid)
  -- neither id is in the way of the other
  have hfresh₂ := hc.fresh_putMembership hfresh he hfresh' hids
  have hfresh₂' := hc.fresh_putMembership hfresh' he' hfresh hids.symm
  refine ⟨⟨fun j => ?_, ?_⟩, fun j => ?_⟩
  · rw [node?_putMembership_of_fresh hfresh₂, node?_putMembership_of_fresh hfresh₂',
      node?_putMembership_of_fresh hfresh, node?_putMembership_of_fresh hfresh']
    cases h.node? j with
    | none =>
      split_ifs <;> exact .none
    | some n =>
      have hperm : (n.staff ++ [m'] ++ [m]).Perm (n.staff ++ [m] ++ [m']) := by
        rw [List.append_assoc, List.append_assoc]
        exact (List.Perm.swap m m' []).append_left n.staff
      split_ifs
      · exact .some ⟨rfl, rfl, rfl, .refl _, hperm⟩
      all_goals exact .some ⟨rfl, rfl, rfl, .refl _, .refl _⟩
  · exact (index_putMembership_comm he he' hids).symm
  · rw [(Hierarchy.sameLinks_putMembership _ m).children,
      (h.sameLinks_putMembership m').children, (Hierarchy.sameLinks_putMembership _ m').children,
      (h.sameLinks_putMembership m).children]

end Two

end Consistent

/-! ## Reachable hierarchies -/

/-- A membership is not stored if its entity is not there as it says, and else if it conflicts with
one that is there; otherwise it is listed last on the staff of its entity and indexed, and nothing
else changes. With a membership of another id it conflicts if both are of one user, unless the
entities are elsewhere for one another. Of two memberships that could be stored, each can be stored
after the other or neither can, and where both are, the order shows in the order of staff alone. -/
theorem Reachable.admitted_unless_conflicting (hr : h.Reachable) (m : Membership) :
    ((h.insertMembership m).answer = .error .notFound ↔
      h.tree.entity m.entity.id = none ∨
        ∃ e, h.tree.entity m.entity.id = some e ∧ e.kind ≠ m.entity.kind) ∧
    (∀ e, h.tree.entity m.entity.id = some e → e.kind = m.entity.kind →
      ((h.insertMembership m).answer = .error .conflictingMembership ↔
        ∃ x ∈ h.memberships, h.tree.Conflict m x) ∧
      ((∀ x ∈ h.memberships, ¬ h.tree.Conflict m x) →
        ∃ h', h.insertMembership m = .done m [⟨m.entity⟩] (.user m.user) h' ∧
          (∀ j, h'.node? j =
            if m.entity.id = j then (h.node? j).map fun n => { n with staff := n.staff ++ [m] }
            else h.node? j) ∧
          h'.index = h.index.insert m.id m.entity.id) ∧
      ∀ x ∈ h.memberships, x.id ≠ m.id →
        (h.tree.Conflict m x ↔
          x.user = m.user ∧ ¬ h.tree.Elsewhere x.entity.id m.entity.id)) ∧
    ∀ m' o o', (h.insertMembership m).answer = .ok o → (h.insertMembership m').answer = .ok o' →
      let k := (h.insertMembership m).after.insertMembership m'
      let k' := (h.insertMembership m').after.insertMembership m
      ((∃ r, k.answer = .ok r) ↔ ∃ r, k'.answer = .ok r) ∧
      ((∃ r, k.answer = .ok r) → k.after.Reordered k'.after ∧
        ∀ j, k'.after.tree.children j = k.after.tree.children j) := by
  have hc := hr.consistent
  refine ⟨?_, fun e hentity hkind => ?_, fun m' o o' ho ho' => ?_⟩
  · rw [insertMembership_notFound_iff, ne_eq, hc.linked.entity_iff_kind]
    cases h.tree.entity m.entity.id <;> simp
  · have he := hc.linked.entity_iff_kind.2 ⟨e, hentity, hkind⟩
    refine ⟨⟨fun ha => ?_, fun hconf => ?_⟩, fun hfree => ?_, fun x hx hid => ?_⟩
    · by_contra hnone
      rw [hc.insertMembership_of_free he (by simpa using hnone)] at ha
      cases ha
    · rw [hc.insertMembership_of_conflict he hconf]
      rfl
    · refine ⟨_, hc.insertMembership_of_free he hfree, fun j => ?_,
        h.index_putMembership m (h.isSome_node? he)⟩
      exact node?_putMembership_of_fresh (fresh_of_free hfree)
    · rw [Tree.conflict_iff (hc.entity_of_membership hx) he, hc.linked.elsewhere_iff he,
        not_not, or_iff_right hid]
  · obtain ⟨he, hfree⟩ := hc.insertMembership_ok_iff.1 ⟨o, ho⟩
    obtain ⟨he', hfree'⟩ := hc.insertMembership_ok_iff.1 ⟨o', ho'⟩
    rw [after_insertMembership ho, after_insertMembership ho']
    -- after the other each is admitted just if the two do not conflict, which is symmetric
    have hfirst := hc.insertMembership_ok_after_iff he he' hfree hfree'
    have hsecond := hc.insertMembership_ok_after_iff he' he hfree' hfree
    refine ⟨?_, fun hok => ?_⟩
    · exact hfirst.trans ((not_congr ⟨.symm, .symm⟩).trans hsecond.symm)
    · have hnone := hfirst.1 hok
      obtain ⟨r, hr⟩ := hok
      obtain ⟨r', hr'⟩ := hsecond.2 fun hconf => hnone hconf.symm
      rw [after_insertMembership hr, after_insertMembership hr']
      exact hc.reordered_putMembership he he' hfree hfree' hnone

/-- Somebody on the staff of a faculty can be put on the staff of an issuer of another one, and of a
faculty of another institution, in either order; but neither on an issuer of the faculty nor, by
another kind, on the issuer of the other. -/
theorem Reachable.admitted_unless_conflicting_of_siblings :
    let u : UserId := .ofNat 20
    let x : Membership := ⟨.ofNat 10, u, ⟨.faculty, .ofNat 2⟩, .full, none⟩
    let m : Membership := ⟨.ofNat 11, u, ⟨.issuer, .ofNat 5⟩, .full, none⟩
    let m' : Membership := ⟨.ofNat 12, u, ⟨.faculty, .ofNat 7⟩, .full, none⟩
    let below : Membership := ⟨.ofNat 13, u, ⟨.issuer, .ofNat 4⟩, .full, none⟩
    let wrong : Membership := ⟨.ofNat 14, u, ⟨.faculty, .ofNat 5⟩, .full, none⟩
    let h := (∅ : Hierarchy).run [.insertEntity ⟨.institution, .ofNat 1⟩ none,
      .insertEntity ⟨.faculty, .ofNat 2⟩ (some (.ofNat 1)),
      .insertEntity ⟨.faculty, .ofNat 3⟩ (some (.ofNat 1)),
      .insertEntity ⟨.issuer, .ofNat 4⟩ (some (.ofNat 2)),
      .insertEntity ⟨.issuer, .ofNat 5⟩ (some (.ofNat 3)),
      .insertEntity ⟨.institution, .ofNat 6⟩ none,
      .insertEntity ⟨.faculty, .ofNat 7⟩ (some (.ofNat 6)), .insertMembership x]
    (h.insertMembership wrong).answer = .error .notFound ∧
      (h.insertMembership below).answer = .error .conflictingMembership ∧
      h.tree.Elsewhere x.entity.id m.entity.id ∧ h.tree.Elsewhere x.entity.id m'.entity.id ∧
      (∃ h', h.insertMembership m = .done m [⟨m.entity⟩] (.user u) h') ∧
      ((h.insertMembership m).after.insertMembership m').after.Reordered
        ((h.insertMembership m').after.insertMembership m).after := by
  intro u x m m' below wrong h
  have hr : h.Reachable := .run .empty _
  have hx : ∀ y ∈ h.memberships, y = x := by decide +kernel
  have hmem : x ∈ h.memberships := by decide +kernel
  have hm : (h.insertMembership m).answer = .ok ⟨m, [⟨m.entity⟩], .user u⟩ := by decide +kernel
  have hm' : (h.insertMembership m').answer = .ok ⟨m', [⟨m'.entity⟩], .user u⟩ := by
    decide +kernel
  have hboth : ((h.insertMembership m).after.insertMembership m').answer =
      .ok ⟨m', [⟨m'.entity⟩], .user u⟩ := by
    decide +kernel
  have hsibling : h.tree.Elsewhere x.entity.id m.entity.id :=
    .inr ⟨.ofNat 2, .ofNat 3, ⟨.institution, .ofNat 1⟩, by decide, by decide +kernel,
      by decide +kernel, .refl _ _, .single ⟨⟨.faculty, .ofNat 3⟩, by decide +kernel, rfl⟩⟩
  have hforeign : h.tree.Elsewhere x.entity.id m'.entity.id := .inl (by decide +kernel)
  have habove : h.tree.Above x.entity.id below.entity.id :=
    .single ⟨⟨.faculty, .ofNat 2⟩, by decide +kernel, rfl⟩
  obtain ⟨-, hknown, htwo⟩ := hr.admitted_unless_conflicting m
  obtain ⟨-, hknown', -⟩ := hr.admitted_unless_conflicting below
  obtain ⟨hmissing, -⟩ := hr.admitted_unless_conflicting wrong
  obtain ⟨-, hfree, hiff⟩ := hknown m.entity (by decide +kernel) rfl
  obtain ⟨hconf, -⟩ := hknown' below.entity (by decide +kernel) rfl
  have hnone : ∀ y ∈ h.memberships, ¬ h.tree.Conflict m y := by
    intro y hy hym
    obtain rfl := hx y hy
    exact ((hiff x hy (by decide)).1 hym).2 hsibling
  obtain ⟨h', hstored, -⟩ := hfree hnone
  exact ⟨hmissing.2 (.inr ⟨⟨.issuer, .ofNat 5⟩, by decide +kernel, by decide⟩),
    hconf.2 ⟨x, hmem, .inr ⟨rfl, .inr (.inl habove)⟩⟩, hsibling, hforeign, ⟨h', hstored⟩,
    ((htwo m' _ _ hm hm').2 ⟨_, hboth⟩).1⟩

end Hierarchy

end StaffRights
