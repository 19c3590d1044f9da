import StaffRights.Proofs.Hierarchy.Apart

/-!
# What a move does

A move compares the staff of what is moved with the staff above the new parent, and nothing else. No
other two entities get above one another, and where they were so before they have been compared
before; so the move is turned down exactly if the moved tree would hold memberships of one user
above one another. The new parent is of a less deep kind than the entity, so it is not below it, and
the move closes no cycle. A move that is carried out changes one parent and two lists of children.

Reference: `SPEC_FULL.md` 10.7 (`move_entity`).
-/

namespace StaffRights.Hierarchy

variable {h h' : Hierarchy} {a b id q : EntityId} {e old p : Entity}

/-- Some user has memberships on two entities of which one is above the other. -/
def Clashing (h : Hierarchy) : Prop :=
  ∃ m ∈ h.memberships, ∃ m' ∈ h.memberships,
    m.user = m'.user ∧ h.tree.Above m.entity.id m'.entity.id

/-- `h'` is `h` with the entity `e` moved from `old` below `p`. -/
structure Moved (h h' : Hierarchy) (e old p : Entity) : Prop where
  moved : h'.node? e.id = (h.node? e.id).map fun n => { n with parent := some p }
  /-- The other children keep their order. -/
  left : h'.node? old.id =
    (h.node? old.id).map fun n => { n with children := n.children.filter (·.id ≠ e.id) }
  entered : h'.node? p.id = (h.node? p.id).map fun n => { n with children := n.children ++ [e] }
  others : ∀ j, j ≠ e.id → j ≠ old.id → j ≠ p.id → h'.node? j = h.node? j
  /-- Neither parent is below the entity, so all that is below it is as it was. -/
  below : ∀ j, h.tree.Above e.id j → h'.node? j = h.node? j
  index : h'.index = h.index

namespace Consistent

variable (hc : h.Consistent)

include hc

/-! ## The moved tree -/

/-- An entity is not above what it may stand below. -/
theorem not_atOrAbove_of_kind (he : h.tree.entity e.id = some e) (hp : h.tree.entity p.id = some p)
    (hkind : e.kind.above = some p.kind) : ¬ h.tree.AtOrAbove e.id p.id := by
  intro habove
  obtain ⟨x, hx, hle⟩ := hc.linked.entity_of_atOrAbove habove hp
  rw [he, Option.some.injEq] at hx
  subst hx
  have hdepth := Kind.depth_of_above hkind
  omega

/-- Whatever was above the new parent is above whatever was below the entity. -/
theorem above_relink (he : h.tree.entity id = some e) (hcycle : ¬ h.tree.AtOrAbove id p.id)
    (hup : h.tree.AtOrAbove a p.id) (hdown : h.tree.AtOrAbove id b) :
    (h.relink id p).tree.Above a b := by
  have hlink : (h.relink id p).tree.ParentOf p.id id := by
    rw [h.parentOf_relink he, if_pos rfl]
  -- the chain above the new parent does not lead through the entity
  have hup' : (h.relink id p).tree.AtOrAbove a p.id := by
    refine (Tree.atOrAbove_congr (fun x (hx : ¬ h.tree.AtOrAbove id x) => ?_) ?_ hcycle).2 hup
    · rw [h.tree_parent_relink he, if_neg]
      rintro rfl
      exact hx (.refl _ _)
    · exact fun x q hq hx habove => hx (.below habove hq)
  refine Relation.TransGen.trans_left (Relation.TransGen.tail' hup' hlink) ?_
  -- nor does any link below the entity lead to it
  induction hdown with
  | refl => exact .refl
  | @tail c d hidc hcd ih =>
    refine .tail ih ?_
    rw [h.parentOf_relink he, if_neg]
    · exact hcd
    · rintro rfl
      exact hc.linked.not_above_self (.tail' hidc hcd)

/-- Relinking an entity moves it, and moves nothing else. -/
theorem moved_relink (he : h.tree.entity e.id = some e) (hp : h.tree.entity p.id = some p)
    (hkind : e.kind.above = some p.kind) (hold : h.tree.parent e.id = some old) (hne : old ≠ p) :
    h.Moved (h.relink e.id p) e old p := by
  obtain ⟨n, hn, hentity⟩ := h.exists_node? he
  have hparent : n.parent = some old := (h.parent_of_node? hn).symm.trans hold
  have hcycle := hc.not_atOrAbove_of_kind he hp hkind
  have hep : e.id ≠ p.id := fun hid => hcycle (hid ▸ .refl _ _)
  have heold : e.id ≠ old.id := fun hid =>
    hc.linked.not_atOrAbove_parent hold (hid ▸ .refl _ _)
  have holdp : old.id ≠ p.id := fun hid =>
    hne (Tree.eq_of_id_eq (hc.linked.entity_parent hold) hp hid)
  -- three different nodes are written: of the entity, of its old parent and of the new one
  have hnode := h.node?_relink hn p
  rw [hparent, hentity] at hnode
  have hothers : ∀ j, j ≠ e.id → j ≠ old.id → j ≠ p.id →
      (h.relink e.id p).node? j = h.node? j := by
    intro j hje hjold hjp
    simp [hnode, hje.symm, hjold.symm, hjp.symm]
  exact {
    moved := by simp [hnode, hep.symm, heold.symm]
    left := by simp [hnode, heold, holdp.symm]
    entered := by simp [hnode, hep, holdp]
    others := hothers
    below := by
      intro j hj
      refine hothers j ?_ ?_ ?_
      · rintro rfl
        exact hc.linked.not_above_self hj
      · rintro rfl
        exact hc.linked.not_atOrAbove_parent hold hj.atOrAbove
      · rintro rfl
        exact hcycle hj.atOrAbove
    index := h.index_relink e.id p }

/-! ## When it is turned down -/

/-- Where memberships are apart, nobody has two of them above one another. -/
theorem not_clashing_of_apart (hapart : h.tree.Apart) : ¬ h.Clashing := by
  rintro ⟨m, hm, m', hm', huser, habove⟩
  have hstaff := hc.mem_staff_of_membership hm
  have hstaff' := hc.mem_staff_of_membership hm'
  obtain rfl := hapart habove.atOrAbove hstaff hstaff' huser
  exact hc.linked.not_above_self habove

/-- The pairs that the check looks at decide whether the moved tree has clashing memberships. -/
theorem clashing_relink_iff (hapart : h.tree.Apart) (he : h.tree.entity e.id = some e)
    (hp : h.tree.entity p.id = some p) (hkind : e.kind.above = some p.kind) :
    (h.relink e.id p).Clashing ↔ h.clashesBelow e.id p.id = true := by
  constructor
  · intro hclash
    by_contra hfree
    rw [Bool.not_eq_true] at hfree
    have hapart' := hc.apart_relink hapart he hfree
    exact (hc.relink he hp hkind).not_clashing_of_apart hapart' hclash
  · intro hclash
    simp only [clashesBelow, List.any_eq_true, List.mem_flatMap, beq_iff_eq] at hclash
    obtain ⟨m', ⟨d, hd, hm'⟩, x, hx, m, hm, huser⟩ := hclash
    have hdown := (hc.linked.mem_branch_downward_iff.1 hd).2
    have hup := (hc.linked.mem_branch_upward_iff.1 hx).2
    have hcycle := hc.not_atOrAbove_of_kind he hp hkind
    -- what the check found gets above one another by the move
    have habove := hc.above_relink he hcycle hup hdown
    rw [← hc.id_of_mem_staff hm, ← hc.id_of_mem_staff hm'] at habove
    refine ⟨m, mem_memberships_iff.2 ⟨x.id, ?_⟩, m', mem_memberships_iff.2 ⟨d.id, ?_⟩, huser,
      habove⟩
    · rwa [h.tree_staff_relink he]
    · rwa [h.tree_staff_relink he]

end Consistent

/-! ## The answer, case by case -/

/-- Without the entity or the new parent there is no move. -/
theorem moveEntity_of_unknown (hid : h.tree.entity id = none ∨ h.tree.entity q = none) :
    h.moveEntity id q = .refuse .notFound h := by
  rw [moveEntity_eq]
  rcases hid with hid | hq
  · rw [hid]
  · rw [hq]
    cases h.tree.entity id <;> rfl

section Known

variable (he : h.tree.entity id = some e) (hp : h.tree.entity q = some p)

include he hp

/-- A parent of the wrong kind is refused by its kind. -/
theorem moveEntity_of_wrong_kind (hkind : e.kind.above ≠ some p.kind) :
    h.moveEntity id q = .refuse (.wrongParent e.kind p.kind) h := by
  simp only [moveEntity_eq, he, hp, checkKind, if_neg hkind]
  rfl

variable (hid : p.id = q)

include hid

/-- A parent in another institution is answered as missing. -/
theorem moveEntity_of_other_institution (hkind : e.kind.above = some p.kind)
    (hinst : h.tree.institution? id ≠ h.tree.institution? q) :
    h.moveEntity id q = .refuse .notFound h := by
  subst hid
  simp only [moveEntity_eq, he, hp, checkKind, if_pos hkind]
  exact if_pos hinst

/-- Between entities of fitting kinds in one institution a move is a matter of memberships. -/
theorem moveEntity_of_allowed (hkind : e.kind.above = some p.kind)
    (hinst : h.tree.institution? id = h.tree.institution? q) :
    h.moveEntity id q =
      if h.tree.parent id = some p then .done e [⟨p⟩] .nobody h
      else if h.clashesBelow id q then .refuse .conflictingMembership h
      else .done e (invalidateParent (h.tree.parent id) ++ [⟨p⟩]) .everyone (h.relink id p) := by
  subst hid
  simp only [moveEntity_eq, he, hp, checkKind, if_pos hkind]
  exact if_neg (not_not.2 hinst)

end Known

namespace Consistent

/-- A move that kinds and institutions allow, to another parent, is decided by the moved tree. -/
theorem moveEntity_cases (hc : h.Consistent) (hapart : h.tree.Apart)
    (he : h.tree.entity e.id = some e) (hp : h.tree.entity p.id = some p)
    (hkind : e.kind.above = some p.kind)
    (hinst : h.tree.institution? e.id = h.tree.institution? p.id)
    (hparent : h.tree.parent e.id ≠ some p) :
    ∃ old h', h.tree.parent e.id = some old ∧ h.Moved h' e old p ∧
      (h'.Clashing → h.moveEntity e.id p.id = .refuse .conflictingMembership h) ∧
      (¬ h'.Clashing → h.moveEntity e.id p.id = .done e [⟨old⟩, ⟨p⟩] .everyone h') := by
  have hroot := mt (hc.linked.parent_eq_none_iff he).1 (Kind.ne_institution_of_above hkind)
  obtain ⟨old, hold⟩ := Option.ne_none_iff_exists'.1 hroot
  have hne : old ≠ p := fun heq => hparent (heq ▸ hold)
  refine ⟨old, h.relink e.id p, hold, hc.moved_relink he hp hkind hold hne, ?_⟩
  rw [moveEntity_of_allowed he hp rfl hkind hinst, if_neg hparent,
    hc.clashing_relink_iff hapart he hp hkind]
  constructor
  · exact fun hclash => if_pos hclash
  · intro hfree
    rw [if_neg hfree, hold]
    rfl

end Consistent

/-! ## Reachable hierarchies -/

/-- A move finds nothing if either entity is unknown. It is turned down if the parent is not of the
kind above or not of the same institution. It changes nothing if the entity is below that parent
already. Otherwise it is turned down if memberships of one user would get above one another, and
else it moves the entity, with all that is below it, and nothing else. -/
theorem Reachable.move_relinks_one_entity (hr : h.Reachable) (id q : EntityId) :
    (h.tree.entity id = none ∨ h.tree.entity q = none →
      h.moveEntity id q = .refuse .notFound h) ∧
    ∀ e p, h.tree.entity id = some e → h.tree.entity q = some p →
      ((h.moveEntity id q).answer = .error (.wrongParent e.kind p.kind) ∨
          (h.moveEntity id q).answer = .error .notFound ↔
        e.kind.above ≠ some p.kind ∨ h.tree.institution? id ≠ h.tree.institution? q) ∧
      (e.kind.above ≠ some p.kind → h.tree.institution? id = h.tree.institution? q →
        h.moveEntity id q = .refuse (.wrongParent e.kind p.kind) h) ∧
      (e.kind.above = some p.kind → h.tree.institution? id ≠ h.tree.institution? q →
        h.moveEntity id q = .refuse .notFound h) ∧
      (e.kind.above = some p.kind → h.tree.institution? id = h.tree.institution? q →
        (h.tree.parent id = some p → h.moveEntity id q = .done e [⟨p⟩] .nobody h) ∧
        (h.tree.parent id ≠ some p → ∃ old h', h.tree.parent id = some old ∧
          h.Moved h' e old p ∧
          (h'.Clashing → h.moveEntity id q = .refuse .conflictingMembership h) ∧
          (¬ h'.Clashing → h.moveEntity id q = .done e [⟨old⟩, ⟨p⟩] .everyone h'))) := by
  obtain ⟨hc, hapart⟩ := hr.consistent_and_apart
  refine ⟨moveEntity_of_unknown, fun e p he hp => ?_⟩
  obtain rfl := hc.linked.entity_id he
  obtain rfl := hc.linked.entity_id hp
  refine ⟨⟨fun ha => ?_, fun hwrong => ?_⟩, fun hkind _ => moveEntity_of_wrong_kind he hp hkind,
    moveEntity_of_other_institution he hp rfl, fun hkind hinst => ⟨fun hparent => ?_,
      hc.moveEntity_cases hapart he hp hkind hinst⟩⟩
  · -- what is allowed is neither a wrong parent nor a missing one
    by_contra hright
    rw [not_or, not_not, not_not] at hright
    rw [moveEntity_of_allowed he hp rfl hright.1 hright.2] at ha
    split_ifs at ha <;> rcases ha with ha | ha <;> cases ha
  · by_cases hkind : e.kind.above = some p.kind
    · have hinst := hwrong.resolve_left (not_not.2 hkind)
      rw [moveEntity_of_other_institution he hp rfl hkind hinst]
      exact .inr rfl
    · rw [moveEntity_of_wrong_kind he hp hkind]
      exact .inl rfl
  · rw [moveEntity_of_allowed he hp rfl hkind hinst, if_pos hparent]

/-- Of two issuers of one faculty the first can move to another faculty, with its badge class. The
second cannot, as somebody is on the staff of both. Neither can move to the institution or to the
faculty of another one. -/
theorem Reachable.move_relinks_one_entity_of_faculties :
    let e : Entity := ⟨.issuer, .ofNat 4⟩
    let x : Entity := ⟨.issuer, .ofNat 5⟩
    let old : Entity := ⟨.faculty, .ofNat 2⟩
    let p : Entity := ⟨.faculty, .ofNat 3⟩
    let h := (∅ : Hierarchy).run [.insertEntity ⟨.institution, .ofNat 1⟩ none,
      .insertEntity old (some (.ofNat 1)), .insertEntity p (some (.ofNat 1)),
      .insertEntity e (some old.id), .insertEntity x (some old.id),
      .insertEntity ⟨.badgeClass, .ofNat 6⟩ (some e.id),
      .insertEntity ⟨.institution, .ofNat 7⟩ none,
      .insertEntity ⟨.faculty, .ofNat 8⟩ (some (.ofNat 7)),
      .insertMembership ⟨.ofNat 10, .ofNat 12, p, .full, none⟩,
      .insertMembership ⟨.ofNat 11, .ofNat 12, x, .full, none⟩]
    h.moveEntity e.id (.ofNat 9) = .refuse .notFound h ∧
      h.moveEntity e.id (.ofNat 1) = .refuse (.wrongParent .issuer .institution) h ∧
      h.moveEntity e.id (.ofNat 8) = .refuse .notFound h ∧
      h.moveEntity e.id old.id = .done e [⟨old⟩] .nobody h ∧
      (∃ h', h.Moved h' e old p ∧ ¬ h'.Clashing ∧
        h.moveEntity e.id p.id = .done e [⟨old⟩, ⟨p⟩] .everyone h') ∧
      ∃ h', h.Moved h' x old p ∧ h'.Clashing ∧
        h.moveEntity x.id p.id = .refuse .conflictingMembership h := by
  intro e x old p h
  have hr : h.Reachable := .run .empty _
  have he : h.tree.entity e.id = some e := by decide +kernel
  have hx : h.tree.entity x.id = some x := by decide +kernel
  have hp : h.tree.entity p.id = some p := by decide +kernel
  have hmoved : (h.moveEntity e.id p.id).answer = .ok ⟨e, [⟨old⟩, ⟨p⟩], .everyone⟩ := by
    decide +kernel
  have hrefused : (h.moveEntity x.id p.id).answer = .error .conflictingMembership := by
    decide +kernel
  obtain ⟨hunknown, -⟩ := hr.move_relinks_one_entity e.id (.ofNat 9)
  obtain ⟨-, hroot⟩ := hr.move_relinks_one_entity e.id (.ofNat 1)
  obtain ⟨-, hforeign⟩ := hr.move_relinks_one_entity e.id (.ofNat 8)
  obtain ⟨-, hstay⟩ := hr.move_relinks_one_entity e.id old.id
  obtain ⟨-, hmove⟩ := hr.move_relinks_one_entity e.id p.id
  obtain ⟨-, hclash⟩ := hr.move_relinks_one_entity x.id p.id
  obtain ⟨-, hwrong, -⟩ := hroot e ⟨.institution, .ofNat 1⟩ he (by decide +kernel)
  obtain ⟨-, -, hmissing, -⟩ := hforeign e ⟨.faculty, .ofNat 8⟩ he (by decide +kernel)
  obtain ⟨-, -, -, hsame⟩ := hstay e old he (by decide +kernel)
  obtain ⟨-, -, -, hother⟩ := hmove e p he hp
  obtain ⟨-, -, -, hother'⟩ := hclash x p hx hp
  obtain ⟨q, h', hq, hh', hcl, hfree⟩ :=
    (hother (by decide) (by decide +kernel)).2 (by decide +kernel)
  obtain ⟨q', h'', hq', hh'', hcl', hfree'⟩ :=
    (hother' (by decide) (by decide +kernel)).2 (by decide +kernel)
  have hparent : h.tree.parent e.id = some old := by decide +kernel
  have hparent' : h.tree.parent x.id = some old := by decide +kernel
  obtain rfl : old = q := Option.some.inj (hparent.symm.trans hq)
  obtain rfl : old = q' := Option.some.inj (hparent'.symm.trans hq')
  have hapart : ¬ h'.Clashing := fun hc => by
    rw [hcl hc] at hmoved
    cases hmoved
  have htogether : h''.Clashing := by
    by_contra hnone
    rw [hfree' hnone] at hrefused
    cases hrefused
  exact ⟨hunknown (.inr (by decide +kernel)), hwrong (by decide) (by decide +kernel),
    hmissing (by decide) (by decide +kernel),
    (hsame (by decide) (by decide +kernel)).1 hparent,
    ⟨h', hh', hapart, hfree hapart⟩, h'', hh'', htogether, hcl' htogether⟩

end StaffRights.Hierarchy
