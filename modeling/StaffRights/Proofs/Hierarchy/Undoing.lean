import StaffRights.Proofs.Hierarchy.Admission
import StaffRights.Proofs.Hierarchy.Cascade
import StaffRights.Proofs.Hierarchy.LastMembership
import StaffRights.Proofs.Hierarchy.MovedRights
import StaffRights.Proofs.Hierarchy.Moves

/-!
# Taking changes back

What a change has just done, the opposite change undoes, and it is never turned down but in one
case. A new entity has nothing below it, so its deletion takes nothing else along. A move back
changes no institution and brings no memberships together, as they were apart before; only, the
entity is then the last child of its old parent. A new membership can be removed unless it is the
first on an institution, which is now the last.
-/

namespace StaffRights.Hierarchy

variable {h h' h'' : Hierarchy} {j : EntityId} {e old p : Entity} {m : Membership}

/-- Whether memberships clash is told by what is above what and by the memberships. -/
theorem Clashing.congr (habove : ∀ a b, h'.tree.Above a b ↔ h.tree.Above a b)
    (hmem : ∀ m, m ∈ h'.memberships ↔ m ∈ h.memberships) (hclash : h'.Clashing) : h.Clashing := by
  obtain ⟨m, hm, m', hm', huser, hab⟩ := hclash
  exact ⟨m, (hmem m).1 hm, m', (hmem m').1 hm', huser, (habove _ _).1 hab⟩

/-- A membership of a new id is the whole staff of its entity if there was none. -/
theorem staff_putMembership_eq_iff (hm : h.tree.entity m.entity.id = some m.entity)
    (hfresh : ∀ x ∈ h.memberships, x.id ≠ m.id) :
    (h.putMembership m).tree.staff m.entity.id = [m] ↔ h.tree.staff m.entity.id = [] := by
  rw [h.tree_staff_putMembership hm, if_pos rfl, putStaff_eq m _ (staff_of_fresh hfresh _)]
  simp

/-- What is attached is there. -/
theorem tree_entity_attach_self (h : Hierarchy) (e : Entity) (q : Option Entity) :
    (h.attach e q).tree.entity e.id = some e := by
  rw [tree_entity_attach, if_pos rfl]

namespace Consistent

variable (hc : h.Consistent)

include hc

/-! ## Deleting a new entity -/

section Attach

variable {q : Option Entity} (hnew : h.tree.entity e.id = none)
  (hroot : q = none ↔ e.kind = .institution)
  (hparent : ∀ p, q = some p → h.tree.entity p.id = some p ∧ e.kind.above = some p.kind)

include hnew hroot hparent

/-- Nothing is below a new entity. -/
theorem atOrAbove_new_iff : (h.attach e q).tree.AtOrAbove e.id j ↔ e.id = j := by
  have hc' := hc.attach hnew hroot hparent
  have he := h.tree_entity_attach_self e q
  have hleaf : (h.attach e q).tree.children e.id = [] := by
    rw [h.tree_children_attach e fun p hp => (hparent p hp).1, if_pos rfl]
  rw [hc'.linked.atOrAbove_iff_children he, hleaf]
  simp

/-- Without the new entity all is as it was: no child list held it before. -/
theorem dropSubtree_attach : ((h.attach e q).dropSubtree e).1 = h := by
  have hc' := hc.attach hnew hroot hparent
  have he := h.tree_entity_attach_self e q
  obtain ⟨hc'', hw⟩ := hc'.dropSubtree he
  refine hc''.eq_of_node? hc fun j => ?_
  by_cases hj : e.id = j
  · subst hj
    rw [hw.node?_of_gone (.refl _ _)]
    exact (Option.map_eq_none_iff.1 hnew).symm
  · have hkept := mt (hc.atOrAbove_new_iff hnew hroot hparent).1 hj
    rw [hc'.node?_dropSubtree he hkept, node?_attach, if_neg hj]
    cases hn : h.node? j with
    | none => split <;> rfl
    | some n =>
      have hfilter : n.children.filter (·.id ≠ e.id) = n.children := by
        refine List.filter_eq_self.2 fun c hmem => decide_eq_true (Ne.symm ?_)
        rw [← h.children_of_node? hn] at hmem
        exact ne_of_new hnew (hc.linked.entity_child hmem)
      split
      · simp only [Option.map_some, List.filter_append, hfilter]
        simp
      · rw [Option.map_some, hfilter]

/-- What was just attached can be deleted, and leaves what was there before. -/
theorem deleteEntity_attach :
    (h.attach e q).deleteEntity e.id = .done ⟨[e], []⟩ (invalidateParent q) .everyone h := by
  have hc' := hc.attach hnew hroot hparent
  have he := h.tree_entity_attach_self e q
  have hnode : (h.attach e q).node? e.id = some { entity := e, parent := q } := by
    rw [node?_attach, if_pos rfl]
  have hremoved : ((h.attach e q).dropSubtree e).2 = ⟨[e], []⟩ := by
    rw [hc'.dropSubtree_removed he, hc'.linked.leavesFirst_eq he, children_of_node? _ hnode]
    simp [Removed.add, staff_of_node? _ hnode]
  have hunawarded : ¬ (h.attach e q).AwardedWithin e.id := by
    rintro ⟨x, n, hx, hn, hpos⟩
    obtain rfl := (hc.atOrAbove_new_iff hnew hroot hparent).1 hx
    rw [hnode, Option.some.injEq] at hn
    subst hn
    exact UInt32.lt_irrefl 0 hpos
  rw [hc'.deleteEntity_of_not_awardedWithin he hunawarded, hremoved, parent_of_node? _ hnode,
    hc.dropSubtree_attach hnew hroot hparent]

end Attach

/-! ## Moving back -/

section Relink

variable (he : h.tree.entity e.id = some e) (hold : h.tree.parent e.id = some old)

include he hold

/-- Struck from the children of its parent, an entity leaves those before it and those behind it. -/
theorem exists_children_split : ∃ n pre post, h.node? old.id = some n ∧
    n.children = pre ++ e :: post ∧ n.children.filter (·.id ≠ e.id) = pre ++ post := by
  obtain ⟨n, hn, -⟩ := h.exists_node? (hc.linked.entity_parent hold)
  have hchildren := h.children_of_node? hn
  have hchild : e ∈ n.children :=
    hchildren ▸ hc.linked.mem_children_iff.2 ⟨he, old, hold, rfl⟩
  obtain ⟨pre, post, hsplit⟩ := List.append_of_mem hchild
  have hnodup := hc.linked.children_nodup old.id
  rw [hchildren, hsplit, List.nodup_middle, List.nodup_cons] at hnodup
  refine ⟨n, pre, post, hn, hsplit, ?_⟩
  rw [hsplit, List.filter_append, List.filter_cons_of_neg (by simp), ← List.filter_append]
  refine List.filter_eq_self.2 fun c hmem => decide_eq_true fun hid => ?_
  have hc' : c ∈ h.tree.children old.id := by
    rw [hchildren, hsplit]
    exact (List.sublist_cons_self e post).append_left pre |>.subset hmem
  -- an entity of its id would be the struck one
  obtain rfl := Tree.eq_of_id_eq (hc.linked.entity_child hc') he hid
  exact hnodup.1 hmem

variable (hp : h.tree.entity p.id = some p)

include hp

/-- Moved back, the entity is the last child of its old parent; all else is as it was. -/
theorem node?_of_moved_back (hne : old ≠ p) (hm : h.Moved h' e old p) (hm' : h'.Moved h'' e p old) :
    ∃ n pre post, h.node? old.id = some n ∧ n.children = pre ++ e :: post ∧
      ∀ j, h''.node? j =
        if old.id = j then some { n with children := pre ++ post ++ [e] } else h.node? j := by
  have holde := hc.linked.entity_parent hold
  have holdp : old.id ≠ p.id := fun hid => hne (Tree.eq_of_id_eq holde hp hid)
  obtain ⟨n, pre, post, hn, hsplit, hfilter⟩ := hc.exists_children_split he hold
  refine ⟨n, pre, post, hn, hsplit, fun j => ?_⟩
  by_cases hjold : old.id = j
  · subst hjold
    rw [if_pos rfl, hm'.entered, hm.left, hn, Option.map_some, Option.map_some, hfilter]
  rw [if_neg hjold]
  by_cases hje : e.id = j
  · subst hje
    obtain ⟨k, hk, -⟩ := h.exists_node? he
    have hparent : k.parent = some old := (h.parent_of_node? hk).symm.trans hold
    rw [hm'.moved, hm.moved, hk, Option.map_some, Option.map_some, ← hparent]
  by_cases hjp : p.id = j
  · subst hjp
    obtain ⟨k, hk, -⟩ := h.exists_node? hp
    -- it was no child of the other parent
    have hkeep := hc.children_filter e.id (j := p.id)
    rw [hold, Option.map_some, if_neg (mt Option.some.inj holdp), h.children_of_node? hk] at hkeep
    rw [hm'.left, hm.entered, hk, Option.map_some, Option.map_some, List.filter_append, ← hkeep]
    simp
  · rw [hm'.others j (Ne.symm hje) (Ne.symm hjp) (Ne.symm hjold),
      hm.others j (Ne.symm hje) (Ne.symm hjold) (Ne.symm hjp)]

/-- Nothing stands in the way of the move back. -/
theorem moveEntity_back (hkind : e.kind.above = some p.kind) (ha : h.tree.Apart)
    (hinst : h.tree.institution? e.id = h.tree.institution? p.id)
    (hclash : h.clashesBelow e.id p.id = false) (hne : old ≠ p) :
    ∃ h'', (h.relink e.id p).Moved h'' e p old ∧
      (h.relink e.id p).moveEntity e.id old.id = .done e [⟨p⟩, ⟨old⟩] .everyone h'' := by
  have hc' := hc.relink he hp hkind
  have ha' := hc.apart_relink ha he hclash
  have holde := hc.linked.entity_parent hold
  have hretains := hc.retains_relink he hp hkind hinst
  have he' := (hretains he).1
  have hold' := (hretains holde).1
  have hkind' : e.kind.above = some old.kind := by
    obtain ⟨x, hx, -, hkind'⟩ := hc.linked.parent_entity hold
    rw [he, Option.some.injEq] at hx
    rwa [hx]
  have hparent' : (h.relink e.id p).tree.parent e.id = some p := by
    rw [h.tree_parent_relink he, if_pos rfl]
  have hinst' : (h.relink e.id p).tree.institution? e.id =
      (h.relink e.id p).tree.institution? old.id := by
    rw [(hretains he).2, (hretains holde).2, hc.linked.institution?_of_parent hold]
  -- every link is again what it was
  have hlink (a b : EntityId) :
      ((h.relink e.id p).relink e.id old).tree.ParentOf a b ↔ h.tree.ParentOf a b := by
    rw [parentOf_relink _ he', h.parentOf_relink he, Tree.ParentOf]
    split
    · next hid => simp [← hid, hold]
    · rfl
  have hfree : ¬ ((h.relink e.id p).relink e.id old).Clashing := by
    refine mt (Clashing.congr (fun _ _ => Tree.above_congr hlink) fun m => ?_)
      (hc.not_clashing_of_apart ha)
    rw [mem_memberships_relink he', mem_memberships_relink he]
  have hclash' := mt (hc'.clashing_relink_iff ha' he' hold' hkind').2 hfree
  refine ⟨_, hc'.moved_relink he' hold' hkind' hparent' hne.symm, ?_⟩
  rw [moveEntity_of_allowed he' hold' rfl hkind' hinst', hparent', if_neg hclash', if_neg]
  · rfl
  · rw [Option.some.injEq]
    exact hne.symm

end Relink

/-! ## Removing a new membership -/

section Put

variable (hm : h.tree.entity m.entity.id = some m.entity)
  (hfresh : ∀ x ∈ h.memberships, x.id ≠ m.id)

include hm hfresh

/-- What was just put on a staff can be dropped, and leaves what was there before. -/
theorem dropMembership_putMembership : ((h.putMembership m).dropMembership m.id).2 = h := by
  have hc' := hc.putMembership_of_fresh hfresh hm
  refine (hc'.dropMembership m.id).eq_of_node? hc fun j => ?_
  rw [hc'.node?_dropMembership, node?_putMembership_of_fresh hfresh]
  cases hn : h.node? j with
  | none => split <;> rfl
  | some n =>
    have hstaff := staff_of_fresh hfresh j
    rw [h.staff_of_node? hn] at hstaff
    have hfilter : n.staff.filter (·.id ≠ m.id) = n.staff :=
      List.filter_eq_self.2 fun x hx => decide_eq_true (hstaff x hx)
    split
    · simp only [Option.map_some, List.filter_append, hfilter]
      simp
    · rw [Option.map_some, hfilter]

end Put

end Consistent

/-! ## Reachable hierarchies -/

/-- An entity that was just inserted can be deleted, and that leaves the hierarchy from before. An
entity that was just moved can be moved back, and that leaves the hierarchy from before with the
entity last among the children of its parent. A membership that was just inserted can be removed,
and that leaves the hierarchy from before; unless it is on an institution where there was none. -/
theorem Reachable.changes_are_undone (hr : h.Reachable) :
    (∀ e above o, (h.insertEntity e above).answer = .ok o →
      (h.insertEntity e above).after.deleteEntity e.id = .done ⟨[e], []⟩ o.events .everyone h) ∧
    (∀ id q old o, (h.moveEntity id q).answer = .ok o → h.tree.parent id = some old → old.id ≠ q →
      ∃ e p h'' n pre post, h.tree.entity id = some e ∧ h.tree.entity q = some p ∧
        (h.moveEntity id q).after.moveEntity id old.id =
          .done e [⟨p⟩, ⟨old⟩] .everyone h'' ∧
        h.node? old.id = some n ∧ n.children = pre ++ e :: post ∧
        (∀ j, h''.node? j =
          if old.id = j then some { n with children := pre ++ post ++ [e] } else h.node? j) ∧
        h''.index = h.index) ∧
    ∀ m o, (h.insertMembership m).answer = .ok o →
      (¬ (m.entity.kind = .institution ∧ h.tree.staff m.entity.id = []) →
        (h.insertMembership m).after.removeMembership m.id =
          .done m [⟨m.entity⟩] (.user m.user) h) ∧
      (m.entity.kind = .institution → h.tree.staff m.entity.id = [] →
        (h.insertMembership m).after.removeMembership m.id =
          .refuse .lastMembership (h.insertMembership m).after) := by
  obtain ⟨hc, ha⟩ := hr.consistent_and_apart
  refine ⟨fun e above o ho => ?_, fun id q old o ho hold hne => ?_, fun m o ho => ?_⟩
  · obtain ⟨p, hq, rfl, hafter⟩ := (h.insertEntity_meets e above).of_ok ho
    obtain ⟨hnew, hroot, hparent⟩ := hc.placeFor_spec hq
    rw [hafter]
    exact hc.deleteEntity_attach hnew hroot hparent
  · obtain ⟨e, p, he, hp, hkind, hinst, ⟨hstay, -, -⟩ | ⟨-, hclash, -, hafter⟩⟩ :=
      (h.moveEntity_meets id q).of_ok ho
    · -- the entity was below that parent already
      rw [hold, Option.some.injEq] at hstay
      exact absurd (hstay ▸ hc.linked.entity_id hp) hne
    · obtain rfl := hc.linked.entity_id he
      obtain rfl := hc.linked.entity_id hp
      have hne' : old ≠ p := fun heq => hne (congrArg _ heq)
      obtain ⟨h'', hmoved, hback⟩ := hc.moveEntity_back he hold hp hkind ha hinst hclash hne'
      have hmoved₀ := hc.moved_relink he hp hkind hold hne'
      obtain ⟨n, pre, post, hn, hsplit, hnode⟩ :=
        hc.node?_of_moved_back he hold hp hne' hmoved₀ hmoved
      rw [hafter]
      exact ⟨e, p, h'', n, pre, post, he, hp, hback, hn, hsplit, hnode,
        hmoved.index.trans hmoved₀.index⟩
  · obtain ⟨hm, hfree⟩ := hc.insertMembership_ok_iff.1 ⟨o, ho⟩
    have hfresh := fresh_of_free hfree
    have hc' := hc.putMembership_of_fresh hfresh hm
    have hmem := mem_memberships_putMembership (h := h) hm
    have hstaff := staff_putMembership_eq_iff hm hfresh
    rw [after_insertMembership ho]
    refine ⟨fun hspare => ?_, fun hkind hnone => ?_⟩
    · rw [hc'.removeMembership_of_spare hmem (by rwa [hstaff]),
        hc.dropMembership_putMembership hm hfresh]
    · exact hc'.removeMembership_of_last hmem hkind (hstaff.2 hnone)

/-- In an institution without staff an issuer moves from one faculty to another and back, where it
was the first of two children and is then the last. -/
theorem Reachable.changes_are_undone_in_institution :
    let i : Entity := ⟨.institution, .ofNat 1⟩
    let old : Entity := ⟨.faculty, .ofNat 2⟩
    let p : Entity := ⟨.faculty, .ofNat 3⟩
    let e : Entity := ⟨.issuer, .ofNat 4⟩
    let x : Entity := ⟨.issuer, .ofNat 5⟩
    let c : Entity := ⟨.badgeClass, .ofNat 6⟩
    let m : Membership := ⟨.ofNat 7, .ofNat 9, i, .full, none⟩
    let m' : Membership := ⟨.ofNat 8, .ofNat 9, e, .full, none⟩
    let h := (∅ : Hierarchy).run [.insertEntity i none, .insertEntity old (some i.id),
      .insertEntity p (some i.id), .insertEntity e (some old.id), .insertEntity x (some old.id)]
    (h.insertEntity c (some e.id)).after.deleteEntity c.id =
        .done ⟨[c], []⟩ [⟨e⟩] .everyone h ∧
      (∃ h'', (h.moveEntity e.id p.id).after.moveEntity e.id old.id =
          .done e [⟨p⟩, ⟨old⟩] .everyone h'' ∧
        h.tree.children old.id = [e, x] ∧ h''.tree.children old.id = [x, e] ∧
        h''.index = h.index) ∧
      (h.insertMembership m').after.removeMembership m'.id =
        .done m' [⟨e⟩] (.user m'.user) h ∧
      (h.insertMembership m).after.removeMembership m.id =
        .refuse .lastMembership (h.insertMembership m).after := by
  intro i old p e x c m m' h
  have hr : h.Reachable := .run .empty _
  have hinsert : (h.insertEntity c (some e.id)).answer = .ok ⟨c, [⟨e⟩], .everyone⟩ := by
    decide +kernel
  have hmove : (h.moveEntity e.id p.id).answer = .ok ⟨e, [⟨old⟩, ⟨p⟩], .everyone⟩ := by
    decide +kernel
  have hm : (h.insertMembership m).answer = .ok ⟨m, [⟨i⟩], .user m.user⟩ := by decide +kernel
  have hm' : (h.insertMembership m').answer = .ok ⟨m', [⟨e⟩], .user m'.user⟩ := by
    decide +kernel
  have he : h.tree.entity e.id = some e := by decide +kernel
  have hp : h.tree.entity p.id = some p := by decide +kernel
  have hold : h.tree.children old.id = [e, x] := by decide +kernel
  obtain ⟨hdelete, hback, hremove⟩ := hr.changes_are_undone
  obtain ⟨e', p', h'', n, pre, post, he', hp', hmoved, hn, hsplit, hnode, hindex⟩ :=
    hback e.id p.id old _ hmove (by decide +kernel) (by decide)
  obtain rfl : e = e' := Option.some.inj (he.symm.trans he')
  obtain rfl : p = p' := Option.some.inj (hp.symm.trans hp')
  have hlast : h''.tree.children old.id = [x, e] := by
    -- the children before the move leave one way to split them
    rw [h.children_of_node? hn, hsplit] at hold
    have hrest : pre ++ post = [x] := by
      rcases pre with _ | ⟨y, pre⟩
      · exact (List.cons.inj hold).2
      · obtain ⟨-, hpre⟩ := List.cons.inj hold
        have hmem : e ∈ [x] := hpre ▸ List.mem_append_right _ (List.mem_cons_self ..)
        exact absurd hmem (by decide)
    rw [children_of_node? _ ((hnode old.id).trans (if_pos rfl)), hrest]
    rfl
  exact ⟨hdelete _ _ _ hinsert, ⟨h'', hmoved, hold, hlast, hindex⟩,
    (hremove _ _ hm').1 (by decide +kernel), (hremove _ _ hm).2 rfl (by decide +kernel)⟩

end StaffRights.Hierarchy
