import StaffRights.Proofs.Hierarchy.Persistence

/-!
# The last membership on an institution

An institution with staff keeps some of it until it is deleted. Memberships are lost in two ways: a
removal spares the last one on an institution, and a deletion takes along the staff of what is below
the deleted entity, where no institution is. A removal that is carried out strikes one membership
from the staff of its entity and from the index, and changes nothing else.

Reference: `SPEC_FULL.md` 4.4 and 8 (the last membership on an institution).
-/

namespace StaffRights.Hierarchy

variable {h h' : Hierarchy} {i e : Entity} {m : Membership} {mid : MembershipId}

/-- The entity is there, and somebody is on its staff. -/
def Staffed (h : Hierarchy) (i : Entity) : Prop :=
  h.tree.entity i.id = some i ∧ h.tree.staff i.id ≠ []

/-- A stored membership only adds to the staff, or takes the place of another. -/
theorem staff_putMembership_ne_nil {j : EntityId} (hm : h.tree.entity m.entity.id = some m.entity)
    (hj : h.tree.staff j ≠ []) : (h.putMembership m).tree.staff j ≠ [] := by
  rw [h.tree_staff_putMembership hm]
  split
  · exact List.ne_nil_of_mem (mem_putStaff_self _ _)
  · exact hj

namespace Consistent

variable (hc : h.Consistent)

include hc

/-! ## Institutions keep their staff -/

/-- An institution is below nothing, so it goes with no other entity. -/
theorem eq_of_atOrAbove_institution (hi : h.tree.entity i.id = some i)
    (hkind : i.kind = .institution) (he : h.tree.entity e.id = some e)
    (hei : h.tree.AtOrAbove e.id i.id) : e = i := by
  have hroot := (hc.linked.parent_eq_none_iff hi).2 hkind
  have hid := (Tree.atOrAbove_iff_of_root hroot).1 hei
  rw [hid, hi, Option.some.injEq] at he
  exact he.symm

/-- Where a membership may be removed from an institution, another one is left. -/
theorem staff_dropMembership_ne_nil (hm : h.membership? mid = some m)
    (hlast : ¬ (m.entity.kind = .institution ∧ (h.tree.staff m.entity.id).length ≤ 1))
    (hkind : i.kind = .institution) (hi : h.Staffed i) :
    (h.dropMembership mid).2.tree.staff i.id ≠ [] := by
  obtain ⟨hentity, hstaff⟩ := hi
  by_cases hid : m.entity.id = i.id
  · obtain ⟨hmem, rfl⟩ := hc.membership?_eq_some_iff.1 hm
    obtain rfl : m.entity = i := by
      have hme := hc.entity_of_membership hmem
      rw [hid, hentity, Option.some.injEq] at hme
      exact hme.symm
    have hlen : ¬ (h.tree.staff m.entity.id).length ≤ 1 := fun hle => hlast ⟨hkind, hle⟩
    have herase := List.length_eraseP_of_mem (p := (·.id == m.id))
      (hc.mem_staff_of_membership hmem) (by simp)
    rw [tree_staff_dropMembership, if_pos (hc.index_of_membership hmem), ← List.length_pos_iff,
      herase]
    omega
  · rw [hc.staff_dropMembership_of_ne hm hid]
    exact hstaff

/-- A change that is carried out leaves an institution some of its staff, unless it is its deletion.
-/
theorem staffed_of_done {c : Change} {o : Outcome c.Value} (hd : h.Done c o h')
    (hkind : i.kind = .institution) (hi : h.Staffed i) (hne : c ≠ .deleteEntity i.id) :
    h'.Staffed i := by
  obtain ⟨hentity, hstaff⟩ := hi
  have hretained : (∀ j, c ≠ .deleteEntity j) → h'.tree.entity i.id = some i := fun hkept =>
    (hc.retains_of_done hd hkept hentity).1
  cases hd with
  | insertEntity hq =>
    obtain ⟨hnew, -⟩ := hc.placeFor_spec hq
    refine ⟨hretained (by simp), ?_⟩
    rw [tree_staff_attach, if_neg (ne_of_new hnew hentity)]
    exact hstaff
  | saveEntity | stay => exact ⟨hentity, hstaff⟩
  | moveEntity he =>
    refine ⟨hretained (by simp), ?_⟩
    rw [h.tree_staff_relink he]
    exact hstaff
  | @deleteEntity j e he =>
    obtain rfl := hc.linked.entity_id he
    -- nothing but the institution itself is at or above it
    have hkept : ¬ h.tree.AtOrAbove e.id i.id := fun hgone =>
      hne (by rw [hc.eq_of_atOrAbove_institution hentity hkind he hgone])
    have hw := (hc.dropSubtree he).2
    rw [Staffed, hw.entity_of_kept hkept, hw.staff_of_kept hkept]
    exact ⟨hentity, hstaff⟩
  | setAwarded =>
    refine ⟨hretained (by simp), ?_⟩
    rw [tree_staff_setAwarded]
    exact hstaff
  | insertMembership he =>
    exact ⟨hretained (by simp), staff_putMembership_ne_nil he hstaff⟩
  | updateMembership hm =>
    have he := hc.entity_of_membership (hc.membership?_eq_some_iff.1 hm).1
    exact ⟨hretained (by simp), staff_putMembership_ne_nil he hstaff⟩
  | removeMembership hm hlast =>
    exact ⟨hretained (by simp), hc.staff_dropMembership_ne_nil hm hlast hkind ⟨hentity, hstaff⟩⟩

/-- A change leaves an institution some of its staff, unless it is its deletion and carried out. -/
theorem staffed_change {c : Change} (hkind : i.kind = .institution) (hi : h.Staffed i)
    (hkept : ∀ o, c = .deleteEntity i.id → (h.deleteEntity i.id).answer ≠ .ok o) :
    (h.change c).Staffed i := by
  by_cases hdelete : c = .deleteEntity i.id
  · rw [← after_attempt]
    rcases attempt_meets (h := h) c with ⟨r, hr⟩ | ⟨o, after, ho, -⟩
    · rw [hr]
      exact hi
    · subst hdelete
      have hanswer : (h.deleteEntity i.id).answer = .ok o := congrArg Attempt.answer ho
      exact absurd hanswer (hkept o rfl)
  · exact change_of_done (P := (·.Staffed i)) hi fun hd => hc.staffed_of_done hd hkind hi hdelete

/-! ## Removing a membership -/

/-- The staff of the entity loses the membership, in its place; every other node is as before. -/
theorem node?_dropMembership_of_mem (hm : m ∈ h.memberships) :
    ∃ n pre post, h.node? m.entity.id = some n ∧ n.staff = pre ++ m :: post ∧
      ∀ j, (h.dropMembership m.id).2.node? j =
        if m.entity.id = j then some { n with staff := pre ++ post } else h.node? j := by
  obtain ⟨n, pre, post, hn, hsplit, hpre⟩ := hc.exists_staff_split hm
  have herase : n.staff.eraseP (·.id == m.id) = pre ++ post := by
    rw [hsplit, List.eraseP_append_right _ (by simpa using hpre),
      List.eraseP_cons_of_pos (by simp)]
  refine ⟨n, pre, post, hn, hsplit, fun j => ?_⟩
  simp only [Hierarchy.node?_dropMembership, hc.index_of_membership hm, Option.some.injEq]
  split
  · next hj => rw [← hj, hn, Option.map_some, herase]
  · rfl

/-- Of a staff that has the membership, at most one is that membership alone. -/
theorem length_staff_le_one_iff (hm : m ∈ h.memberships) :
    (h.tree.staff m.entity.id).length ≤ 1 ↔ h.tree.staff m.entity.id = [m] := by
  have hmem := hc.mem_staff_of_membership hm
  generalize h.tree.staff m.entity.id = ms at hmem ⊢
  constructor
  · intro hlen
    obtain ⟨x, rfl⟩ := List.length_eq_one_iff.1
      (Nat.le_antisymm hlen (List.length_pos_of_mem hmem))
    rw [List.mem_singleton.1 hmem]
  · rintro rfl
    exact Nat.le_refl 1

/-- What is not stored is not removed. -/
theorem removeMembership_of_unknown (hnone : ∀ m ∈ h.memberships, m.id ≠ mid) :
    h.removeMembership mid = .refuse .notFound h := by
  have hm : h.membership? mid = none :=
    hc.membership?_eq_none_iff.2 fun id m hm => hnone m (mem_memberships_iff.2 ⟨id, hm⟩)
  rw [removeMembership_eq, hm]

/-- The last membership on an institution stays. -/
theorem removeMembership_of_last (hm : m ∈ h.memberships) (hkind : m.entity.kind = .institution)
    (hlast : h.tree.staff m.entity.id = [m]) :
    h.removeMembership m.id = .refuse .lastMembership h := by
  simp only [removeMembership_eq, hc.membership?_eq_some_iff.2 ⟨hm, rfl⟩]
  rw [if_pos ⟨hkind, (hc.length_staff_le_one_iff hm).2 hlast⟩]

/-- Every other membership is removed. -/
theorem removeMembership_of_spare (hm : m ∈ h.memberships)
    (hspare : ¬ (m.entity.kind = .institution ∧ h.tree.staff m.entity.id = [m])) :
    h.removeMembership m.id = .done m [⟨m.entity⟩] (.user m.user) (h.dropMembership m.id).2 := by
  have hlook : h.membership? m.id = some m := hc.membership?_eq_some_iff.2 ⟨hm, rfl⟩
  have hdrop : h.dropMembership m.id = (some m, (h.dropMembership m.id).2) :=
    Prod.ext ((h.dropMembership_fst m.id).trans hlook) rfl
  simp only [removeMembership_eq, hlook, hc.length_staff_le_one_iff hm]
  rw [if_neg hspare, hdrop]

/-- Only what is not stored is answered as missing. -/
theorem removeMembership_eq_notFound_iff :
    (h.removeMembership mid).answer = .error .notFound ↔ ∀ m ∈ h.memberships, m.id ≠ mid := by
  constructor
  · intro ha m hm hid
    have hnone := removeMembership_missing ha
    rw [hc.membership?_eq_some_iff.2 ⟨hm, hid⟩] at hnone
    cases hnone
  · intro hnone
    rw [hc.removeMembership_of_unknown hnone]
    rfl

/-- Only a membership that is alone on an institution is answered as the last one. -/
theorem removeMembership_eq_lastMembership_iff :
    (h.removeMembership mid).answer = .error .lastMembership ↔
      ∃ m ∈ h.memberships, m.id = mid ∧ m.entity.kind = .institution ∧
        h.tree.staff m.entity.id = [m] := by
  constructor
  · intro ha
    by_contra hspare
    -- otherwise nothing is found, or the membership is removed
    by_cases hknown : ∃ m ∈ h.memberships, m.id = mid
    · obtain ⟨m, hm, rfl⟩ := hknown
      rw [hc.removeMembership_of_spare hm fun hlast => hspare ⟨m, hm, rfl, hlast⟩] at ha
      cases ha
    · rw [hc.removeMembership_of_unknown fun m hm hid => hknown ⟨m, hm, hid⟩] at ha
      cases ha
  · rintro ⟨m, hm, rfl, hkind, hlast⟩
    rw [hc.removeMembership_of_last hm hkind hlast]
    rfl

end Consistent

/-! ## Reachable hierarchies -/

/-- An institution with staff has some after every run in which it is not deleted. -/
theorem Reachable.staffed_run (hr : h.Reachable) (hkind : i.kind = .institution) (hi : h.Staffed i)
    {cs : List Change} (hkept : ∀ pre post o, cs = pre ++ .deleteEntity i.id :: post →
      ((h.run pre).deleteEntity i.id).answer ≠ .ok o) : (h.run cs).Staffed i := by
  induction cs generalizing h with
  | nil => exact hi
  | cons c cs ih =>
    have hi' : (h.change c).Staffed i :=
      hr.consistent.staffed_change hkind hi fun o hc => hkept [] cs o (by rw [hc]; rfl)
    refine ih (hr.changed c) hi' fun pre post o hsplit => ?_
    exact hkept (c :: pre) post o (by rw [hsplit]; rfl)

/-- Once somebody is on the staff of an institution, somebody is after every run of changes that
does not delete it. A removal finds nothing if no membership has the id; it spares the membership
that is the whole staff of an institution; and any other one it strikes from the staff of its entity
and from the index, and changes nothing else. -/
theorem Reachable.institution_stays_staffed (hr : h.Reachable) :
    (∀ i, i.kind = .institution → h.Staffed i → ∀ cs,
      (∀ pre post o, cs = pre ++ .deleteEntity i.id :: post →
        ((h.run pre).deleteEntity i.id).answer ≠ .ok o) → (h.run cs).Staffed i) ∧
    (∀ mid, (h.removeMembership mid).answer = .error .notFound ↔ ∀ m ∈ h.memberships, m.id ≠ mid) ∧
    (∀ mid, (h.removeMembership mid).answer = .error .lastMembership ↔
      ∃ m ∈ h.memberships, m.id = mid ∧ m.entity.kind = .institution ∧
        h.tree.staff m.entity.id = [m]) ∧
    ∀ m ∈ h.memberships, ¬ (m.entity.kind = .institution ∧ h.tree.staff m.entity.id = [m]) →
      ∃ h' n pre post, h.removeMembership m.id = .done m [⟨m.entity⟩] (.user m.user) h' ∧
        h.node? m.entity.id = some n ∧ n.staff = pre ++ m :: post ∧
        (∀ j, h'.node? j = if m.entity.id = j then some { n with staff := pre ++ post }
          else h.node? j) ∧
        h'.index = h.index.erase m.id := by
  have hc := hr.consistent
  refine ⟨fun i hkind hi cs => hr.staffed_run hkind hi,
    fun _ => hc.removeMembership_eq_notFound_iff,
    fun _ => hc.removeMembership_eq_lastMembership_iff, fun m hm hspare => ?_⟩
  obtain ⟨n, pre, post, hn, hsplit, hnode⟩ := hc.node?_dropMembership_of_mem hm
  exact ⟨_, n, pre, post, hc.removeMembership_of_spare hm hspare, hn, hsplit, hnode,
    h.index_dropMembership m.id⟩

/-- One of two memberships on an institution is removed, and the other is not, although somebody is
on the staff of its faculty. It goes with the institution. -/
theorem Reachable.institution_stays_staffed_of_two :
    let i : Entity := ⟨.institution, .ofNat 1⟩
    let m : Membership := ⟨.ofNat 3, .ofNat 4, i, .full, none⟩
    let h := (∅ : Hierarchy).run [.insertEntity i none,
      .insertEntity ⟨.faculty, .ofNat 2⟩ (some (.ofNat 1)), .insertMembership m,
      .insertMembership ⟨.ofNat 5, .ofNat 6, i, .full, none⟩,
      .insertMembership ⟨.ofNat 7, .ofNat 8, ⟨.faculty, .ofNat 2⟩, .full, none⟩]
    let cs : List Change := [.removeMembership (.ofNat 3), .removeMembership (.ofNat 7),
      .deleteEntity (.ofNat 2), .removeMembership (.ofNat 5)]
    (h.run cs).Staffed i ∧ (h.removeMembership (.ofNat 9)).answer = .error .notFound ∧
      ((h.run cs).removeMembership (.ofNat 5)).answer = .error .lastMembership ∧
      (∃ h' n pre post, h.removeMembership (.ofNat 3) = .done m [⟨i⟩] (.user (.ofNat 4)) h' ∧
        h.node? i.id = some n ∧ n.staff = pre ++ m :: post ∧
        (∀ j, h'.node? j = if i.id = j then some { n with staff := pre ++ post } else h.node? j) ∧
        h'.index = h.index.erase (.ofNat 3)) ∧
      (h.change (.deleteEntity (.ofNat 1))).size = 0 := by
  intro i m h cs
  have hr : h.Reachable := .run .empty _
  have hi : h.Staffed i := ⟨by decide +kernel, by decide +kernel⟩
  have hkept : ∀ c ∈ cs, c ≠ .deleteEntity i.id := by decide +kernel
  obtain ⟨hrun, hnotFound, -, hspare⟩ := institution_stays_staffed hr
  obtain ⟨-, -, hlast, -⟩ := institution_stays_staffed (hr.run cs)
  refine ⟨hrun i rfl hi cs fun pre post o hsplit => ?_, (hnotFound _).2 (by decide +kernel),
    (hlast _).2 ⟨⟨.ofNat 5, .ofNat 6, i, .full, none⟩, by decide +kernel⟩,
    hspare m (by decide +kernel) (by decide +kernel), by decide +kernel⟩
  exact absurd rfl (hkept _ (hsplit ▸ List.mem_append_right _ (List.mem_cons_self ..)))

end StaffRights.Hierarchy
