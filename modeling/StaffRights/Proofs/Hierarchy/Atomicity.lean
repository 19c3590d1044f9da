import StaffRights.Proofs.Hierarchy.Changes
import StaffRights.Proofs.Hierarchy.Primitives

/-!
# Changes are made as a whole

On a consistent hierarchy every change finds what its operations on links and staff need, so that
none of them skips anything: over operations that stop in that case, the changes are the same.
Before its first operation a change can still be turned down, and then the hierarchy is as it was.

Reference: `SPEC_FULL.md` 5 (the whole of a change or nothing of it).
-/

namespace StaffRights

namespace Hierarchy

variable {h : Hierarchy} {e p : Entity} {id : EntityId} {m : Membership}

/-- A known entity can take a membership. -/
theorem canPut_of_entity (he : h.tree.entity m.entity.id = some m.entity) : h.canPut m :=
  h.isSome_node? he

namespace Consistent

variable (hc : h.Consistent)

include hc

/-- A parent lists what is below it. -/
theorem listed (hp : h.tree.parent id = some p) :
    (h.tree.children p.id).any (·.id == id) := by
  obtain ⟨c, hce, -⟩ := hc.linked.parent_entity hp
  have hid := hc.linked.entity_id hce
  subst hid
  rw [List.any_eq_true]
  exact ⟨c, hc.linked.mem_children_iff.2 ⟨hce, p, hp, rfl⟩, beq_self_eq_true _⟩

/-- What may be inserted can be attached. -/
theorem canAttach {above : Option EntityId} {q : Option Entity} (hq : h.placeFor e above = .ok q) :
    h.canAttach e q := by
  obtain ⟨hnew, -, hparent⟩ := hc.placeFor_spec hq
  have hfree : h.node? e.id = none := Option.map_eq_none_iff.1 hnew
  have hthere : q.all fun p => (h.node? p.id).isSome := by
    rw [Option.all_eq_true]
    intro p hp
    exact h.isSome_node? (hparent p hp).1
  simp [Hierarchy.canAttach, hfree, hthere]

/-- What may be moved has a parent, as no institution is below anything. -/
theorem canRelink (he : h.tree.entity id = some e) (hp : h.tree.entity p.id = some p)
    (hkind : e.kind.above = some p.kind) : h.canRelink id p := by
  have hroot : h.tree.parent id ≠ none := fun hnone =>
    Kind.ne_institution_of_above hkind ((hc.linked.parent_eq_none_iff he).1 hnone)
  obtain ⟨q, hq⟩ := Option.ne_none_iff_exists'.1 hroot
  have hlisted := hc.listed hq
  simp [Hierarchy.canRelink, hq, hlisted, h.isSome_node? hp]

/-- A leaf without staff can be detached. -/
theorem canDetach (he : h.tree.entity id = some e) (hchildren : h.tree.children id = [])
    (hstaff : h.tree.staff id = []) : h.canDetach id := by
  obtain ⟨n, hn, -⟩ := h.exists_node? he
  have hlisted : n.parent.all fun p => (h.tree.children p.id).any (·.id == id) := by
    rw [Option.all_eq_true]
    intro p hp
    apply hc.listed
    rw [h.parent_of_node? hn, hp]
  rw [h.children_of_node? hn] at hchildren
  rw [h.staff_of_node? hn] at hstaff
  simp [Hierarchy.canDetach, hn, hchildren, hstaff, hlisted]

/-- What is stored can be dropped. -/
theorem canDrop (hm : m ∈ h.memberships) : h.canDrop m.id := by
  have hm := hc.mem_staff_of_membership hm
  have hindex : h.index[m.id]? = some m.entity.id := hc.index_iff.2 ⟨m, hm, rfl⟩
  have hthere : (h.tree.staff m.entity.id).any (·.id == m.id) :=
    List.any_eq_true.2 ⟨m, hm, beq_self_eq_true _⟩
  rw [Hierarchy.canDrop, hindex, Option.any_some]
  exact hthere

end Consistent

end Hierarchy

namespace Primitives

variable {M : Type → Type} [Monad M] [LawfulMonad M] {P : Primitives M} {h : Hierarchy}

variable (hP : P.Agrees) (hc : h.Consistent)

include hP hc

/-! ## Entities -/

/-- What passes the check can be attached. -/
theorem insertEntity_eq (e : Entity) (above : Option EntityId) :
    P.insertEntity h e above = pure (h.insertEntity e above) := by
  rw [Hierarchy.insertEntity_eq]
  unfold insertEntity
  cases hq : h.placeFor e above with
  | error r => rfl
  | ok q =>
    simp only [hP.attach (hc.canAttach hq), pure_bind]
    rfl

/-- What passes all checks can be relinked. -/
theorem moveEntity_eq (id parent : EntityId) :
    P.moveEntity h id parent = pure (h.moveEntity id parent) := by
  rw [Hierarchy.moveEntity_eq]
  unfold moveEntity
  cases he : h.tree.entity id with
  | none => rfl
  | some e =>
    cases hp : h.tree.entity parent with
    | none => rfl
    | some p =>
      have hid := hc.linked.entity_id hp
      subst hid
      cases hkind : Hierarchy.checkKind e.kind p with
      | error r => simp only [hkind, Attempt.guarded]
      | ok u =>
        have hcan := hc.canRelink he hp (Hierarchy.checkKind_eq_ok hkind)
        simp only [hkind, Attempt.guarded, hP.relink hcan, pure_bind]
        split_ifs <;> rfl

/-! ## Deletion -/

/-- Memberships that are there can be dropped one after the other. -/
theorem dropStaff_eq {ms : List Membership} (removed : Removed) (hms : ms ⊆ h.memberships)
    (hnodup : (ms.map (·.id)).Nodup) :
    P.dropStaff (ms.map (·.id)) (h, removed) =
      pure (Hierarchy.dropStaff (ms.map (·.id)) (h, removed)) := by
  induction ms generalizing h removed with
  | nil => rfl
  | cons m ms ih =>
    obtain ⟨hm, hms⟩ := List.cons_subset.1 hms
    rw [List.map_cons, List.nodup_cons] at hnodup
    have hfst : (h.dropMembership m.id).1 = some m := by
      rw [Hierarchy.dropMembership_fst, hc.membership?_eq_some_iff]
      exact ⟨hm, rfl⟩
    have hrest := ih (hc.dropMembership m.id)
      { removed with memberships := removed.memberships ++ [m] }
      (hc.subset_dropMembership hms hnodup.1) hnodup.2
    rw [List.map_cons, Hierarchy.dropStaff_cons]
    unfold dropStaff at hrest ⊢
    simp only [List.foldlM_cons, hP.dropMembership (hc.canDrop hm), pure_bind]
    generalize h.dropMembership m.id = dropped at hfst hrest
    obtain ⟨x, after⟩ := dropped
    subst hfst
    simp only [pure_bind]
    exact hrest

/-- A leaf is dropped with its staff, and its parent no longer lists it. -/
theorem dropEntity_eq {e : Entity} (removed : Removed) (he : h.tree.entity e.id = some e)
    (hchildren : h.tree.children e.id = []) :
    P.dropEntity e (h, removed) = pure (Hierarchy.dropEntity e (h, removed)) := by
  have hstaff := dropStaff_eq hP hc removed
    (fun m hm => Hierarchy.mem_memberships_iff.2 ⟨e.id, hm⟩) (hc.staff_nodup e.id)
  obtain ⟨hc', hentity, hchildren', hstaff'⟩ := hc.leaf_dropStaff hchildren removed
  have hcan := hc'.canDetach (hentity.trans he) hchildren' hstaff'
  rw [Hierarchy.dropEntity_eq]
  unfold dropEntity
  simp only [hstaff, pure_bind]
  rw [hP.detach hcan, pure_bind]
  generalize Hierarchy.detach _ e.id = detached
  rcases detached with ⟨_ | n, after⟩ <;> rfl

omit hP in
/-- Siblings are dropped one after the other, if each of them can be. -/
theorem dropSiblings_eq {n d : Nat} {e : Entity} {cs : List Entity} (removed : Removed)
    (hdrop : ∀ (k : Hierarchy) (c : Entity) (removed : Removed), k.Consistent → c ∈ cs →
      k.tree.entity c.id = some c → k.tree.DepthBelow d →
      (P.dropSubtreeWithin n c (k, removed)).run =
        pure (Hierarchy.dropSubtreeWithin n c (k, removed)))
    (hcs : h.tree.Siblings e cs) (hd : h.tree.DepthBelow d)
    (hn : ∀ c ∈ cs, n + c.kind.depth = d) :
    (cs.foldlM (fun s c => P.dropSubtreeWithin n c s) (h, removed)).run =
      pure (cs.foldlM (fun s c => Hierarchy.dropSubtreeWithin n c s) (h, removed)) := by
  induction cs generalizing h removed with
  | nil => rfl
  | cons c cs ih =>
    have hce := hcs.entity c (List.mem_cons_self ..)
    have hfst := hdrop h c removed hc (List.mem_cons_self ..) hce hd
    obtain ⟨⟨h₁, removed₁⟩, hout, hc₁, hw₁, -⟩ :=
      hc.dropSubtreeWithin removed hce (hn c (List.mem_cons_self ..) ▸ hd)
    have hrest := ih hc₁ removed₁
      (fun k c r hk hmem => hdrop k c r hk (List.mem_cons_of_mem _ hmem))
      (hcs.without hc.linked hw₁) (hw₁.depthBelow hd)
      (fun c hmem => hn c (List.mem_cons_of_mem _ hmem))
    rw [List.foldlM_cons, List.foldlM_cons, OptionT.run_bind, hfst, hout]
    simpa using hrest

/-- A subtree is dropped in as many steps as it has levels, each entity after its children. -/
theorem dropSubtreeWithin_eq {n : Nat} {e : Entity} (removed : Removed)
    (he : h.tree.entity e.id = some e) (hn : h.tree.DepthBelow (n + e.kind.depth)) :
    (P.dropSubtreeWithin n e (h, removed)).run =
      pure (Hierarchy.dropSubtreeWithin n e (h, removed)) := by
  induction n generalizing h e removed with
  | zero => rfl
  | succ n ih =>
    have hlevel : ∀ c ∈ h.tree.children e.id, n + c.kind.depth = n + 1 + e.kind.depth := by
      intro c hmem
      have hdepth := hc.linked.depth_child he hmem
      omega
    have hcs := hc.linked.siblings_children he
    have hfold := dropSiblings_eq hc removed (n := n)
      (fun k c r hk hmem hce hd => ih hk r hce ((hlevel c hmem).symm ▸ hd)) hcs hn hlevel
    obtain ⟨⟨h₁, removed₁⟩, hout, hc₁, hw₁, -⟩ := hc.dropSiblings (n := n) removed
      (fun k c r hk hmem hce hd => hk.dropSubtreeWithin r hce ((hlevel c hmem).symm ▸ hd)) hcs hn
    obtain ⟨hself, hleaf⟩ := hc.leaf_without he hw₁
    have hentity := dropEntity_eq hP hc₁ removed₁ ((hw₁.entity_of_kept hself).trans he) hleaf
    rw [Hierarchy.dropSubtreeWithin_succ, hout]
    unfold dropSubtreeWithin
    rw [OptionT.run_bind, hfold, hout]
    simp [hentity]

/-- What is not protected can be dropped with everything below it. -/
theorem deleteEntity_eq (id : EntityId) :
    P.deleteEntity h id = pure (h.deleteEntity id) := by
  rw [Hierarchy.deleteEntity_eq]
  unfold deleteEntity
  cases he : h.tree.entity id with
  | none => rfl
  | some e =>
    have hid := hc.linked.entity_id he
    subst hid
    have hdrop := dropSubtreeWithin_eq hP hc (n := h.tree.bound) {} he
      fun hx => Nat.lt_add_right _ (hc.linked.depthBelow_bound hx)
    simp only [dropSubtree, hdrop, pure_bind, Hierarchy.dropSubtree_eq]
    split_ifs <;> rfl

/-! ## Memberships -/

omit hc in
/-- What passes all checks can be put on the staff. -/
theorem insertMembership_eq (m : Membership) :
    P.insertMembership h m = pure (h.insertMembership m) := by
  rw [Hierarchy.insertMembership_eq]
  unfold insertMembership
  split
  · rfl
  · next he =>
    rw [hP.putMembership (Hierarchy.canPut_of_entity (not_not.1 he))]
    split_ifs <;> simp

/-- A membership that is found can be put again. -/
theorem updateMembership_eq (mid : MembershipId) (permissions : Permissions) :
    P.updateMembership h mid permissions = pure (h.updateMembership mid permissions) := by
  rw [Hierarchy.updateMembership_eq]
  unfold updateMembership
  cases hm : h.membership? mid with
  | none => rfl
  | some m =>
    have he := hc.entity_of_membership (hc.membership?_eq_some_iff.1 hm).1
    have hcan : h.canPut { m with permissions := permissions } := Hierarchy.canPut_of_entity he
    simp only [hP.putMembership hcan, pure_bind]
    split_ifs <;> rfl

/-- A membership that is found can be dropped. -/
theorem removeMembership_eq (mid : MembershipId) :
    P.removeMembership h mid = pure (h.removeMembership mid) := by
  rw [Hierarchy.removeMembership_eq]
  unfold removeMembership
  cases hm : h.membership? mid with
  | none => rfl
  | some m =>
    obtain ⟨hmem, rfl⟩ := hc.membership?_eq_some_iff.1 hm
    simp only [hP.dropMembership (hc.canDrop hmem), pure_bind]
    generalize h.dropMembership m.id = dropped
    split_ifs
    · rfl
    · rcases dropped with ⟨_ | x, after⟩ <;> rfl

/-- On a consistent hierarchy every operation finds what it needs. -/
theorem attempt_eq (c : Change) : P.attempt h c = pure (h.attempt c) := by
  cases c with
  | insertEntity e above => exact insertEntity_eq hP hc e above
  | saveEntity id => rfl
  | moveEntity id parent => exact moveEntity_eq hP hc id parent
  | deleteEntity id => exact deleteEntity_eq hP hc id
  | setAwarded id count => rfl
  | insertMembership m => exact insertMembership_eq hP m
  | updateMembership mid permissions => exact updateMembership_eq hP hc mid permissions
  | removeMembership mid => exact removeMembership_eq hP hc mid

end Primitives

namespace Hierarchy

variable {h : Hierarchy}

/-- A change that is turned down leaves the hierarchy as it was. -/
theorem after_of_refused {c : Change} {r : Refusal} (hr : (h.attempt c).answer = .error r) :
    (h.attempt c).after = h := by
  rcases attempt_meets (h := h) c with ⟨r', hrefused⟩ | ⟨o, after, hdone, -⟩
  · rw [hrefused, Attempt.refuse]
  · rw [hdone] at hr
    cases hr

/-- On a reachable hierarchy a change is made as a whole or not at all. If it is turned down, the
hierarchy with its links, its staff and its index is as it was. Whether or not it is, no operation
that it comes to skips anything: operations that stop where they would skip something never stop,
and the change over them is the change over plain ones. -/
theorem Reachable.changes_all_or_nothing (hr : h.Reachable) (c : Change) :
    (∀ r, (h.attempt c).answer = .error r → (h.attempt c).after = h) ∧
      Primitives.whole.attempt h c = some (h.attempt c) ∧
      ∀ (M : Type → Type) [Monad M] [LawfulMonad M],
        (Primitives.plain : Primitives M).attempt h c = pure (h.attempt c) := by
  have hc := hr.consistent
  refine ⟨fun r => after_of_refused, ?_, fun M _ _ => ?_⟩
  · exact Primitives.attempt_eq Primitives.whole_agrees hc c
  · exact Primitives.attempt_eq Primitives.plain_agrees hc c

/-- A faculty is deleted with its issuer and their staff; the last membership on the institution is
not removed. -/
theorem Reachable.changes_all_or_nothing_of_cascade :
    let h := (∅ : Hierarchy).run [.insertEntity ⟨.institution, .ofNat 1⟩ none,
      .insertEntity ⟨.faculty, .ofNat 2⟩ (some (.ofNat 1)),
      .insertEntity ⟨.issuer, .ofNat 3⟩ (some (.ofNat 2)),
      .insertMembership ⟨.ofNat 4, .ofNat 7, ⟨.institution, .ofNat 1⟩, .full, none⟩,
      .insertMembership ⟨.ofNat 5, .ofNat 8, ⟨.faculty, .ofNat 2⟩, .full, none⟩,
      .insertMembership ⟨.ofNat 6, .ofNat 9, ⟨.issuer, .ofNat 3⟩, .full, none⟩]
    (∃ after, Primitives.whole.attempt h (.deleteEntity (.ofNat 2)) = some after ∧
        after.after.size = 1 ∧ after.after.membershipCount = 1) ∧
      (h.attempt (.removeMembership (.ofNat 4))).answer = .error .lastMembership ∧
      (h.attempt (.removeMembership (.ofNat 4))).after = h := by
  intro h
  have hr : h.Reachable := .run .empty _
  obtain ⟨-, hdelete, -⟩ := hr.changes_all_or_nothing (.deleteEntity (.ofNat 2))
  obtain ⟨hremove, -⟩ := hr.changes_all_or_nothing (.removeMembership (.ofNat 4))
  have hrefused : (h.removeMembership (.ofNat 4)).answer = .error .lastMembership := by
    decide +kernel
  have hsize : (h.deleteEntity (.ofNat 2)).after.size = 1 ∧
      (h.deleteEntity (.ofNat 2)).after.membershipCount = 1 := by
    decide +kernel
  exact ⟨⟨_, hdelete, hsize⟩, hrefused, hremove _ hrefused⟩

end Hierarchy

end StaffRights
