import StaffRights.Proofs.Hierarchy.Runs
import StaffRights.Proofs.Tree.Inheritance
import StaffRights.Tree.Listing

/-!
# Rights without recursion

Rights are resolved link by link, from an entity to its parent and on to the end of the chain. In
any tree, wherever the chain ends, this comes to one union: of the first membership of the user at
each id of the chain, and of reading, if the last id is that of the user's home. Where links agree,
the chain is what the walk upward lists, and the home is the institution that this ends in.
-/

namespace StaffRights

namespace Tree

variable {t : Tree} {id : EntityId} {e : Entity} {u : User} {above : List Entity}

/-! ## Any tree -/

/-- The first membership of the user decides what is granted locally. -/
theorem localRights_eq (t : Tree) (id : EntityId) (v : UserId) :
    t.localRights id v = (((t.staff id).find? (·.user == v)).map (·.permissions)).getD ∅ := by
  rw [localRights, memberOn]
  cases (t.staff id).find? (·.user == v) <;> rfl

/-- A teacher may read the home institution, if it is an institution; nobody else has home rights.
-/
theorem homeRights_eq (t : Tree) (id : EntityId) (u : User) :
    t.homeRights id u =
      if (t.entity id).any (fun e => e.kind == .institution && u.belongsTo e.id) then .single .read
      else ∅ := by
  rw [homeRights]
  cases t.entity id <;> simp

/-- Where the chain ends, rights are what is granted along it, and what a home at its end gives. -/
theorem Ancestry.rights_eq_union (h : t.Ancestry id above) :
    t.rights id u = .union ((id :: above.map (·.id)).map fun x => t.localRights x u.id) ∪
      t.homeRights ((id :: above.map (·.id)).getLast (List.cons_ne_nil _ _)) u := by
  induction h with
  | root hp => simp [rights_of_root hp]
  | link hp h ih =>
    rw [rights_of_parent hp h, ih, ← Permissions.union_assoc, ← Permissions.union_cons]
    rfl

namespace Linked

variable (ht : t.Linked)

include ht

/-! ## Trees whose links agree -/

/-- The rights on an entity are what is granted along its branch upward, and what is implicit. -/
theorem rights_eq_union_branch (he : t.entity id = some e) :
    t.rights id u = .union ((t.branch id .upward).map fun x => t.localRights x.id u.id) ∪
      t.implicitRights id u := by
  induction id using ht.induction_upward generalizing e with
  | root id hp =>
    obtain rfl := ht.entity_id he
    rw [ht.branch_upward he (.root hp), rights_of_root hp, ht.implicitRights_of_root hp]
    simp
  | link id p hp ih =>
    obtain rfl := ht.entity_id he
    obtain ⟨above, h⟩ := ht.exists_ancestry p.id
    have hpe := ht.entity_parent hp
    rw [ht.branch_upward he (.link hp h), List.map_cons, Permissions.union_cons,
      Permissions.union_assoc, ht.implicitRights_of_parent hp, ← ht.branch_upward hpe h, ← ih hpe,
      ht.rights_eq hp]

end Linked

end Tree

namespace Hierarchy

variable {h : Hierarchy} {id : EntityId} {u : User}

/-- On an unknown entity nobody holds anything. -/
theorem Consistent.rights_of_unknown (hc : h.Consistent) (hid : h.tree.entity id = none) :
    h.tree.rights id u = ∅ :=
  hc.linked.rights_of_unknown hid (hc.staff_of_unknown hid)

/-- The branch of an unknown id is empty, and so are the rights on it. -/
theorem Consistent.rights_eq_union_branch (hc : h.Consistent) (id : EntityId) (u : User) :
    h.tree.rights id u =
      .union ((h.tree.branch id .upward).map fun x => h.tree.localRights x.id u.id) ∪
        h.tree.implicitRights id u := by
  cases he : h.tree.entity id with
  | none =>
    rw [hc.rights_of_unknown he, Tree.Linked.branch_of_unknown h.tree he, Tree.implicitRights,
      Tree.Linked.institution?_of_unknown he]
    simp
  | some e => exact hc.linked.rights_eq_union_branch he

/-- In any tree, where the chain above an id ends, any more steps than it has links resolve the
rights: they are the union of the first membership of the user at each id of the chain, and of
reading, if the last id is that of the user's home. In a reachable hierarchy the chain is the branch
upward, and the home is the institution of the entity. Nobody has any rights on an unknown id, and
nothing is permitted there. What a user may do on an entity, the user may do on all below it. -/
theorem rights_are_those_of_chain :
    (∀ (t : Tree) (id : EntityId) (above : List Entity) (u : User), t.Ancestry id above →
      (∀ n, above.length < n → t.rightsWithin n id u = some (t.rights id u)) ∧
      t.rights id u =
        .union ((id :: above.map (·.id)).filterMap fun x =>
          ((t.staff x).find? (·.user == u.id)).map (·.permissions)) ∪
        if (t.entity ((id :: above.map (·.id)).getLast (List.cons_ne_nil _ _))).any
            (fun i => i.kind == .institution && u.belongsTo i.id) then .single .read else ∅) ∧
    ∀ h : Hierarchy, h.Reachable → ∀ u : User,
      (∀ id, h.tree.rights id u =
        .union ((h.tree.branch id .upward).map fun x => h.tree.localRights x.id u.id) ∪
          if (h.tree.institution? id).any (fun i => u.belongsTo i.id) then .single .read else ∅) ∧
      (∀ id, h.tree.entity id = none →
        h.tree.rights id u = ∅ ∧ ∀ required, h.tree.permits id u required = false) ∧
      ∀ a b, h.tree.AtOrAbove a b → (h.tree.rights b u).has (h.tree.rights a u) := by
  refine ⟨fun t id above u hchain => ⟨fun n hn => hchain.rightsWithin_eq hn, ?_⟩,
    fun h hr u => ⟨fun id => hr.consistent.rights_eq_union_branch id u, fun id hid => ?_,
      fun a b => hr.consistent.linked.rights_has_of_atOrAbove⟩⟩
  · simp only [hchain.rights_eq_union, Tree.homeRights_eq, Tree.localRights_eq,
      Permissions.union_filterMap]
  · refine ⟨hr.consistent.rights_of_unknown hid, fun required => ?_⟩
    rw [Tree.permits, hid]
    rfl

/-- On a listed tree whose links do not fit, the chain of a badge class leads through a hidden
entity to an institution, and the second membership on the hidden entity counts for nothing. In a
hierarchy a teacher awards for an issuer and reads the whole institution, and so does both on a
badge class. -/
theorem rights_are_those_of_chain_of_hidden :
    let u : User := .teacher (.ofNat 5) (.ofNat 1)
    let x : Entity := ⟨.institution, .ofNat 3⟩
    let t : Tree := .ofList [{ entity := ⟨.badgeClass, .ofNat 4⟩, parent := some x },
      { entity := x, parent := some ⟨.faculty, .ofNat 1⟩, hidden := true,
        staff := [⟨.ofNat 6, u.id, x, .single .award, none⟩, ⟨.ofNat 7, u.id, x, .full, none⟩] },
      { entity := ⟨.institution, .ofNat 1⟩ }]
    let h := (∅ : Hierarchy).run [.insertEntity ⟨.institution, .ofNat 1⟩ none,
      .insertEntity ⟨.faculty, .ofNat 2⟩ (some (.ofNat 1)),
      .insertEntity ⟨.issuer, .ofNat 3⟩ (some (.ofNat 2)),
      .insertEntity ⟨.badgeClass, .ofNat 4⟩ (some (.ofNat 3)),
      .insertMembership ⟨.ofNat 6, u.id, ⟨.issuer, .ofNat 3⟩, .single .award, none⟩]
    t.rightsWithin 3 (.ofNat 4) u = some (t.rights (.ofNat 4) u) ∧
      t.rights (.ofNat 4) u = .single .award ∪ .single .read ∧
      h.tree.rights (.ofNat 4) u = .single .award ∪ .single .read ∧
      h.tree.rights (.ofNat 9) u = ∅ ∧ h.tree.permits (.ofNat 9) u ∅ = false ∧
      (h.tree.rights (.ofNat 4) u).has (h.tree.rights (.ofNat 3) u) := by
  intro u x t h
  have hr : h.Reachable := .run .empty _
  have hchain : t.Ancestry (.ofNat 4) [x, ⟨.faculty, .ofNat 1⟩] :=
    .link (by decide +kernel) (.link (by decide +kernel) (.root (by decide +kernel)))
  have hbelow : h.tree.AtOrAbove (.ofNat 3) (.ofNat 4) :=
    .single ⟨⟨.issuer, .ofNat 3⟩, by decide +kernel, rfl⟩
  obtain ⟨hany, hreachable⟩ := rights_are_those_of_chain
  obtain ⟨hsteps, hunion⟩ := hany t (.ofNat 4) _ u hchain
  obtain ⟨hbranch, hunknown, hcontained⟩ := hreachable h hr u
  obtain ⟨hnone, hnothing⟩ := hunknown (.ofNat 9) (by decide +kernel)
  exact ⟨hsteps 3 (by decide), hunion.trans (by decide +kernel),
    (hbranch (.ofNat 4)).trans (by decide +kernel), hnone, hnothing ∅, hcontained _ _ hbelow⟩

end Hierarchy

end StaffRights
