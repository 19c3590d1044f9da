import StaffRights.Proofs.Hierarchy.Gains
import StaffRights.Proofs.Tree.Inheritance

/-!
# The rights that a membership gives

As no user has two memberships in one branch, what a user may do at and below the entity of a
membership is what the membership grants, with what is implicit. So a change to a membership decides
the rights of its user there, for better or worse; and it leaves all rights elsewhere, and those of
everybody else, as they are.
-/

namespace StaffRights

namespace Tree

variable {t t' : Tree} {id : EntityId} {v : UserId}

/-- The rights are the same, but for those of the user on the entity and below it. -/
def SameRightsElsewhere (t t' : Tree) (id : EntityId) (v : UserId) : Prop :=
  ∀ x u, ¬ t.AtOrAbove id x ∨ u.id ≠ v → t'.rights x u = t.rights x u

/-- Without a membership on an entity nothing is granted there. -/
theorem localRights_of_no_membership (hnone : ∀ m ∈ t.staff id, m.user ≠ v) :
    t.localRights id v = ∅ := by
  have hmember : t.memberOn id v = none :=
    List.find?_eq_none.2 fun m hm => by simpa using hnone m hm
  rw [localRights, hmember]

/-- A change to the memberships of one user on one entity changes no rights elsewhere. -/
theorem Linked.sameRightsElsewhere (ht : t.Linked) (hlinks : t.SameLinks t')
    (hmember : ∀ j w, id ≠ j ∨ w ≠ v → t'.memberOn j w = t.memberOn j w) :
    t.SameRightsElsewhere t' id v := by
  intro x u hx
  refine ht.rights_congr (fun y _ => hlinks.entity y) (fun y _ => hlinks.parent y) fun y hy => ?_
  refine hmember y u.id ?_
  rcases hx with hx | hu
  · refine .inl ?_
    rintro rfl
    exact hx hy
  · exact .inr hu

end Tree

namespace Hierarchy

variable {h : Hierarchy} {m x : Membership} {mid : MembershipId} {id : EntityId} {u : User}

namespace Consistent

variable (hc : h.Consistent) (ha : h.tree.Apart)

include hc ha

/-- What a user may do at and below the entity of a membership. -/
theorem rights_of_membership (hm : m ∈ h.memberships) (hid : h.tree.AtOrAbove m.entity.id id)
    (hu : u.id = m.user) :
    h.tree.rights id u = m.permissions ∪ h.tree.implicitRights id u := by
  have hmember : h.tree.memberOn m.entity.id u.id = some m :=
    ha.memberOn_eq_some_iff.2 ⟨hc.mem_staff_of_membership hm, hu.symm⟩
  have hlocal : h.tree.localRights m.entity.id u.id = m.permissions := by
    rw [Tree.localRights, hmember]
  rw [hc.linked.rights_of_grant hid, hlocal]
  intro j hj hne
  -- a membership elsewhere on the chain would be this one
  refine Tree.localRights_of_no_membership fun x hx huser => hne ?_
  have hms := hc.mem_staff_of_membership hm
  rw [← hc.id_of_mem_staff hx, ha.eq_of_or hx hms (huser.trans hu) (hj.total hid)]

/-- Once the membership is removed, nothing is left there but what is implicit. -/
theorem rights_dropMembership (hm : m ∈ h.memberships) (hid : h.tree.AtOrAbove m.entity.id id)
    (hu : u.id = m.user) :
    (h.dropMembership m.id).2.tree.rights id u =
      (h.dropMembership m.id).2.tree.implicitRights id u := by
  refine (hc.dropMembership m.id).linked.rights_of_no_grant fun j hj => ?_
  rw [(h.sameLinks_dropMembership m.id).atOrAbove_iff] at hj
  refine Tree.localRights_of_no_membership fun x hx huser => ?_
  rw [hc.staff_dropMembership, List.mem_filter, decide_eq_true_eq] at hx
  have hms := hc.mem_staff_of_membership hm
  exact hx.2 (by rw [ha.eq_of_or hx.1 hms (huser.trans hu) (hj.total hid)])

/-- Once a membership is stored, its user may do there what it grants. -/
theorem rights_putMembership (hm : h.Admits m) (hid : h.tree.AtOrAbove m.entity.id id)
    (hu : u.id = m.user) :
    (h.putMembership m).tree.rights id u =
      m.permissions ∪ (h.putMembership m).tree.implicitRights id u := by
  have hc' := hc.effect (.put hm)
  have ha' := hc.apart_effect ha (.put hm)
  have hmem := mem_memberships_putMembership hm.entity
  exact hc'.rights_of_membership ha' hmem ((h.sameLinks_putMembership m).atOrAbove_iff.2 hid) hu

omit ha

/-- A stored membership changes rights of nobody else, and its user's at or below its entity only.
-/
theorem sameRightsElsewhere_putMembership (hm : h.Admits m) :
    h.tree.SameRightsElsewhere (h.putMembership m).tree m.entity.id m.user := by
  refine hc.linked.sameRightsElsewhere (h.sameLinks_putMembership m) fun j w hjw => ?_
  rcases hjw with hj | hw
  · exact Tree.memberOn_congr (by rw [h.tree_staff_putMembership_of_ne hj])
  · exact hm.memberOn hw j

/-- A dropped membership changes rights of nobody else, and its user's at or below its entity only.
-/
theorem sameRightsElsewhere_dropMembership (hm : h.membership? mid = some m) :
    h.tree.SameRightsElsewhere (h.dropMembership mid).2.tree m.entity.id m.user := by
  refine hc.linked.sameRightsElsewhere (h.sameLinks_dropMembership mid) fun j w hjw => ?_
  rcases hjw with hj | hw
  · exact Tree.memberOn_congr (by rw [hc.staff_dropMembership_of_ne hm hj])
  · exact hc.memberOn_dropMembership hm hw j

/-! ## Replacing permissions -/

/-- The membership is replaced in its place; nothing else is changed. -/
theorem node?_putMembership_of_mem (hm : m ∈ h.memberships) (p : Permissions) :
    ∃ n pre post, h.node? m.entity.id = some n ∧ n.staff = pre ++ m :: post ∧
      (∀ j, (h.putMembership { m with permissions := p }).node? j =
        if m.entity.id = j then
          some { n with staff := pre ++ { m with permissions := p } :: post }
        else h.node? j) ∧
      (h.putMembership { m with permissions := p }).index = h.index := by
  obtain ⟨n, pre, post, hn, hsplit, hpre⟩ := hc.exists_staff_split hm
  have hput : putStaff { m with permissions := p } n.staff =
      pre ++ { m with permissions := p } :: post := by
    rw [hsplit]
    exact putStaff_split hpre rfl
  refine ⟨n, pre, post, hn, hsplit, fun j => ?_, ?_⟩
  · rw [node?_putMembership]
    split
    · next hj => rw [← hj, hn, Option.map_some, hput]
    · rfl
  · rw [index_putMembership]
    · refine Std.ExtTreeMap.ext_getElem? fun k => ?_
      rw [Std.ExtTreeMap.getElem?_insert]
      split
      · next hk => rw [← Std.LawfulEqOrd.eq_of_compare hk, hc.index_of_membership hm]
      · rfl
    · rw [hn, Option.isSome_some]

include ha

/-- No other membership stands in the way of an edit. -/
theorem conflicts_of_mem (hm : m ∈ h.memberships) :
    h.conflicts m.entity.id m.user (some m.id) = false := by
  rw [conflicts, List.any_eq_false]
  intro x hx
  obtain ⟨hx, huser, hbranch⟩ := hc.mem_staffInBranch_iff.1 hx
  have hxm : x = m := ha.eq_of_or (hc.mem_staff_of_membership hx) (hc.mem_staff_of_membership hm)
    huser hbranch
  simp [hxm]

/-- The permissions of a stored membership can always be replaced. -/
theorem updateMembership_of_mem (hm : m ∈ h.memberships) (p : Permissions) :
    h.updateMembership m.id p = .done { m with permissions := p } [⟨m.entity⟩] (.user m.user)
      (h.putMembership { m with permissions := p }) := by
  simp only [updateMembership_eq, hc.membership?_eq_some_iff.2 ⟨hm, rfl⟩, hc.conflicts_of_mem ha hm]
  rfl

/-- An update never finds a conflict. -/
theorem updateMembership_ne_conflicting (p : Permissions) :
    (h.updateMembership mid p).answer ≠ .error .conflictingMembership := by
  intro hanswer
  cases hlook : h.membership? mid with
  | none =>
    rw [updateMembership_eq, hlook] at hanswer
    cases hanswer
  | some m =>
    obtain ⟨hm, rfl⟩ := hc.membership?_eq_some_iff.1 hlook
    rw [hc.updateMembership_of_mem ha hm] at hanswer
    cases hanswer

end Consistent

/-! ## Reachable hierarchies -/

/-- After a membership was inserted or replaced, its user may do at and below its entity what it
grants and what is implicit, and after it was removed what is implicit; all other rights are as
before. The permissions of a stored membership may always be replaced, without any conflict, and
that keeps it in its place and changes nothing else. -/
theorem Reachable.membership_decides_rights (hr : h.Reachable) :
    (∀ m o, (h.insertMembership m).answer = .ok o →
      let t := (h.insertMembership m).after.tree
      (∀ id u, h.tree.AtOrAbove m.entity.id id → u.id = m.user →
        t.rights id u = m.permissions ∪ t.implicitRights id u) ∧
      h.tree.SameRightsElsewhere t m.entity.id m.user) ∧
    (∀ mid p o, (h.updateMembership mid p).answer = .ok o → ∃ m ∈ h.memberships, m.id = mid ∧
      let t := (h.updateMembership mid p).after.tree
      (∀ id u, h.tree.AtOrAbove m.entity.id id → u.id = m.user →
        t.rights id u = p ∪ t.implicitRights id u) ∧
      h.tree.SameRightsElsewhere t m.entity.id m.user) ∧
    (∀ mid o, (h.removeMembership mid).answer = .ok o → ∃ m ∈ h.memberships, m.id = mid ∧
      let t := (h.removeMembership mid).after.tree
      (∀ id u, h.tree.AtOrAbove m.entity.id id → u.id = m.user →
        t.rights id u = t.implicitRights id u) ∧
      h.tree.SameRightsElsewhere t m.entity.id m.user) ∧
    (∀ mid p, (h.updateMembership mid p).answer ≠ .error .conflictingMembership) ∧
    ∀ m ∈ h.memberships, ∀ p, ∃ h' n pre post,
      h.updateMembership m.id p =
        .done { m with permissions := p } [⟨m.entity⟩] (.user m.user) h' ∧
      h.node? m.entity.id = some n ∧ n.staff = pre ++ m :: post ∧
      (∀ j, h'.node? j = if m.entity.id = j then
          some { n with staff := pre ++ { m with permissions := p } :: post }
        else h.node? j) ∧
      h'.index = h.index := by
  obtain ⟨hc, ha⟩ := hr.consistent_and_apart
  refine ⟨fun m o ho => ?_, fun mid p o ho => ?_, fun mid o ho => ?_,
    fun mid p => hc.updateMembership_ne_conflicting ha p, fun m hm p => ?_⟩
  · obtain ⟨hm, -, hafter⟩ := (hc.insertMembership_admits m).of_ok ho
    rw [hafter]
    exact ⟨fun id u => hc.rights_putMembership ha hm, hc.sameRightsElsewhere_putMembership hm⟩
  · obtain ⟨m, hlook, hm, -, hafter⟩ := (hc.updateMembership_admits mid p).of_ok ho
    obtain ⟨hmem, hid⟩ := hc.membership?_eq_some_iff.1 hlook
    rw [hafter]
    exact ⟨m, hmem, hid, fun id u => hc.rights_putMembership ha hm,
      hc.sameRightsElsewhere_putMembership hm⟩
  · obtain ⟨m, hlook, -, -, hafter⟩ := (h.removeMembership_meets mid).of_ok ho
    obtain ⟨hmem, rfl⟩ := hc.membership?_eq_some_iff.1 hlook
    rw [hafter]
    exact ⟨m, hmem, rfl, fun id u => hc.rights_dropMembership ha hmem,
      hc.sameRightsElsewhere_dropMembership hlook⟩
  · obtain ⟨n, pre, post, hn, hsplit, hnode, hindex⟩ := hc.node?_putMembership_of_mem hm p
    exact ⟨_, n, pre, post, hc.updateMembership_of_mem ha hm p, hn, hsplit, hnode, hindex⟩

/-- A teacher of the institution has a membership on a faculty, which is edited to grant nothing but
the unnamed bit, and removed. -/
theorem Reachable.membership_decides_rights_of_teacher :
    let m : Membership := ⟨.ofNat 4, .ofNat 5, ⟨.faculty, .ofNat 2⟩, .full, none⟩
    let h := (∅ : Hierarchy).run [.insertEntity ⟨.institution, .ofNat 1⟩ none,
      .insertEntity ⟨.faculty, .ofNat 2⟩ (some (.ofNat 1)),
      .insertEntity ⟨.issuer, .ofNat 3⟩ (some (.ofNat 2))]
    let k := h.change (.insertMembership m)
    let edited := k.change (.updateMembership (.ofNat 4) ⟨0x80#8⟩)
    let removed := k.change (.removeMembership (.ofNat 4))
    let u : User := .teacher (.ofNat 5) (.ofNat 1)
    k.tree.rights (.ofNat 3) u = .full ∪ k.tree.implicitRights (.ofNat 3) u ∧
      k.tree.rights (.ofNat 1) u = h.tree.rights (.ofNat 1) u ∧
      edited.tree.rights (.ofNat 3) u = ⟨0x80#8⟩ ∪ edited.tree.implicitRights (.ofNat 3) u ∧
      removed.tree.rights (.ofNat 3) u = removed.tree.implicitRights (.ofNat 3) u ∧
      removed.tree.implicitRights (.ofNat 3) u = .single .read ∧
      ∃ h', k.updateMembership (.ofNat 4) ∅ =
        .done { m with permissions := ∅ } [⟨m.entity⟩] (.user m.user) h' := by
  intro m h k edited removed u
  have hr : h.Reachable := .run .empty _
  have hk : k.Reachable := hr.changed _
  have hinsert : (h.insertMembership m).answer = .ok ⟨m, [⟨m.entity⟩], .user m.user⟩ := by
    decide +kernel
  have hedit : (k.updateMembership (.ofNat 4) ⟨0x80#8⟩).answer =
      .ok ⟨{ m with permissions := ⟨0x80#8⟩ }, [⟨m.entity⟩], .user m.user⟩ := by
    decide +kernel
  have hremove : (k.removeMembership (.ofNat 4)).answer = .ok ⟨m, [⟨m.entity⟩], .user m.user⟩ := by
    decide +kernel
  have hbelow : h.tree.AtOrAbove (.ofNat 2) (.ofNat 3) :=
    .single ⟨⟨.faculty, .ofNat 2⟩, by decide +kernel, rfl⟩
  have hbelow' : k.tree.AtOrAbove (.ofNat 2) (.ofNat 3) :=
    .single ⟨⟨.faculty, .ofNat 2⟩, by decide +kernel, rfl⟩
  have houtside : ¬ h.tree.AtOrAbove (.ofNat 2) (.ofNat 1) := by
    rw [Tree.atOrAbove_iff_of_root (by decide +kernel)]
    decide
  have honly : ∀ x ∈ k.memberships, x = m := by decide +kernel
  obtain ⟨hinserted, -⟩ := membership_decides_rights hr
  obtain ⟨-, hedited, hremoved, -, hreplace⟩ := membership_decides_rights hk
  obtain ⟨hgranted, helsewhere⟩ := hinserted m _ hinsert
  obtain ⟨x, hx, -, hregranted, -⟩ := hedited _ _ _ hedit
  obtain ⟨y, hy, -, hrevoked, -⟩ := hremoved _ _ hremove
  obtain ⟨h', -, -, -, hempty, -⟩ := hreplace m (by decide +kernel) ∅
  rw [honly x hx] at hregranted
  rw [honly y hy] at hrevoked
  exact ⟨hgranted _ u hbelow rfl, helsewhere _ u (.inl houtside), hregranted _ u hbelow' rfl,
    hrevoked _ u hbelow' rfl, by decide +kernel, h', hempty⟩

end Hierarchy

end StaffRights
