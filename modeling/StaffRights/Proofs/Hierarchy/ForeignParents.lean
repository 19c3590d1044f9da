import StaffRights.Proofs.Hierarchy.Moves

/-!
# Moves below what is outside the institution

A move looks at the kind of the new parent before it looks at its institution. So an id that is
outside the institution of the moved entity is refused like one that does not exist, unless an
entity of another kind than the one just above has that id; then the refusal tells this kind.
Nothing else shows of what is outside, and nothing is changed.

Reference: `SPEC_FULL.md` 10.7 (`move_entity`, a parent in another institution).
-/

namespace StaffRights

namespace Tree

variable {t : Tree} {child k : Kind} {id : EntityId}

/-- The kind of the entity with the given id, if there is one and it is not the kind that `child`
may stand below. -/
def otherKind? (t : Tree) (child : Kind) (id : EntityId) : Option Kind :=
  ((t.entity id).map (·.kind)).filter (child.above ≠ some ·)

/-- The kind of a known entity is told if it is a wrong one. -/
theorem otherKind?_eq_some {p : Entity} (hp : t.entity id = some p)
    (hkind : child.above ≠ some p.kind) : t.otherKind? child id = some p.kind := by
  simp [otherKind?, hp, hkind]

/-- No kind is told just if the entity is unknown or has the right one. -/
theorem otherKind?_eq_none_iff :
    t.otherKind? child id = none ↔ ∀ p, t.entity id = some p → child.above = some p.kind := by
  simp [otherKind?, Option.filter_eq_none_iff]

/-- Of an unknown entity no kind is told. -/
theorem otherKind?_of_unknown (hid : t.entity id = none) : t.otherKind? child id = none := by
  rw [otherKind?, hid]
  rfl

end Tree

/-- The refusal of a parent that is missing, as far as can be told, or of the given other kind. -/
def Refusal.ofOtherKind (child : Kind) : Option Kind → Refusal
  | none => .notFound
  | some parent => .wrongParent child parent

/-- The refusal tells the kind. -/
theorem Refusal.ofOtherKind_injective (child : Kind) :
    Function.Injective (Refusal.ofOtherKind child) := by
  intro a b hab
  cases a <;> cases b <;> cases hab <;> rfl

namespace Hierarchy

variable {h : Hierarchy} {id q : EntityId} {e : Entity}

/-- Below what is outside the institution nothing is moved, and the refusal tells another kind. -/
theorem Consistent.moveEntity_of_outside (hc : h.Consistent) (he : h.tree.entity id = some e)
    (hq : h.tree.institution? q ≠ h.tree.institution? id) :
    h.moveEntity id q = .refuse (.ofOtherKind e.kind (h.tree.otherKind? e.kind q)) h := by
  cases hp : h.tree.entity q with
  | none =>
    rw [moveEntity_of_unknown (.inr hp), Tree.otherKind?_of_unknown hp]
    rfl
  | some p =>
    by_cases hkind : e.kind.above = some p.kind
    · have hnone : h.tree.otherKind? e.kind q = none := by
        refine Tree.otherKind?_eq_none_iff.2 fun p' hp' => ?_
        rwa [← Option.some.inj (hp.symm.trans hp')]
      rw [moveEntity_of_other_institution he hp (hc.linked.entity_id hp) hkind hq.symm, hnone]
      rfl
    · rw [moveEntity_of_wrong_kind he hp hkind, Tree.otherKind?_eq_some hp hkind]
      rfl

/-- Below an id outside the institution of an entity, a move changes nothing. It answers what it
answers for an id that does not exist, if there is no entity outside with that id or it is of the
kind just above; otherwise it names the kind. So what it answers in two hierarchies differs only if
the id is of another kind in one of them, and not of the same in both. -/
theorem Reachable.outside_told_by_other_kind (hr : h.Reachable) (he : h.tree.entity id = some e)
    (hq : h.tree.institution? q ≠ h.tree.institution? id) :
    (h.moveEntity id q).after = h ∧
    (∀ r, h.tree.entity r = none → h.moveEntity id r = .refuse .notFound h ∧
      (h.moveEntity id q = h.moveEntity id r ↔
        ∀ p, h.tree.entity q = some p → e.kind.above = some p.kind)) ∧
    (∀ p, h.tree.entity q = some p → e.kind.above ≠ some p.kind →
      h.moveEntity id q = .refuse (.wrongParent e.kind p.kind) h) ∧
    ∀ h' : Hierarchy, h'.Reachable → h'.tree.entity id = some e →
      h'.tree.institution? q ≠ h'.tree.institution? id →
      ((h'.moveEntity id q).answer = (h.moveEntity id q).answer ↔
        h'.tree.otherKind? e.kind q = h.tree.otherKind? e.kind q) := by
  have houtside := hr.consistent.moveEntity_of_outside he hq
  refine ⟨by rw [houtside]; rfl, fun r hr' => ?_,
    fun p hp hkind => moveEntity_of_wrong_kind he hp hkind, fun h' hr' he' hq' => ?_⟩
  · have hmissing : h.moveEntity id r = .refuse .notFound h := moveEntity_of_unknown (.inr hr')
    refine ⟨hmissing, ?_⟩
    rw [hmissing, houtside, ← Tree.otherKind?_eq_none_iff]
    constructor
    · intro heq
      have hrefusal := congrArg Attempt.answer heq
      simp only [Attempt.refuse, Except.error.injEq] at hrefusal
      -- the refusal tells which kind was found, if any
      exact Refusal.ofOtherKind_injective e.kind hrefusal
    · intro hnone
      rw [hnone]
      rfl
  · rw [hr'.consistent.moveEntity_of_outside he' hq', houtside]
    simp only [Attempt.refuse, Except.error.injEq]
    exact (Refusal.ofOtherKind_injective e.kind).eq_iff

/-- An issuer cannot tell the faculty of another institution from an id that does not exist, in this
hierarchy or in one without that faculty, but it can tell the institution. -/
theorem Reachable.outside_told_by_other_kind_of_issuer :
    let e : Entity := ⟨.issuer, .ofNat 3⟩
    let p : Entity := ⟨.faculty, .ofNat 5⟩
    let i : Entity := ⟨.institution, .ofNat 4⟩
    let h' := (∅ : Hierarchy).run [.insertEntity ⟨.institution, .ofNat 1⟩ none,
      .insertEntity ⟨.faculty, .ofNat 2⟩ (some (.ofNat 1)), .insertEntity e (some (.ofNat 2)),
      .insertEntity i none]
    let h := h'.run [.insertEntity p (some i.id)]
    h.tree.institution? p.id ≠ h.tree.institution? e.id ∧
      h.moveEntity e.id p.id = .refuse .notFound h ∧
      (h'.moveEntity e.id p.id).answer = (h.moveEntity e.id p.id).answer ∧
      h.moveEntity e.id i.id = .refuse (.wrongParent .issuer .institution) h := by
  intro e p i h' h
  have hr' : h'.Reachable := .run .empty _
  have hr : h.Reachable := .run hr' _
  have he : h.tree.entity e.id = some e := by decide +kernel
  have hp : h.tree.entity p.id = some p := by decide +kernel
  have houtside : h.tree.institution? p.id ≠ h.tree.institution? e.id := by decide +kernel
  obtain ⟨-, hmissing, -, htwo⟩ := hr.outside_told_by_other_kind he houtside
  obtain ⟨-, -, hother, -⟩ := hr.outside_told_by_other_kind (q := i.id) he (by decide +kernel)
  obtain ⟨hnone, hlike⟩ := hmissing (.ofNat 6) (by decide +kernel)
  refine ⟨houtside, ?_, ?_, hother i (by decide +kernel) (by decide)⟩
  · rw [hlike.2 fun p' hp' => ?_, hnone]
    obtain rfl := Option.some.inj (hp.symm.trans hp')
    rfl
  · exact (htwo h' hr' (by decide +kernel) (by decide +kernel)).2 (by decide +kernel)

/-- A faculty is told apart from an id that does not exist, by a move of the faculty of another
institution. -/
theorem foreign_parent_of_same_kind_told :
    let e : Entity := ⟨.faculty, .ofNat 2⟩
    let p : Entity := ⟨.faculty, .ofNat 4⟩
    let h := (∅ : Hierarchy).run [.insertEntity ⟨.institution, .ofNat 1⟩ none,
      .insertEntity e (some (.ofNat 1)), .insertEntity ⟨.institution, .ofNat 3⟩ none,
      .insertEntity p (some (.ofNat 3))]
    h.Reachable ∧ h.tree.entity e.id = some e ∧ h.tree.entity p.id = some p ∧
      h.tree.institution? e.id ≠ h.tree.institution? p.id ∧
      (h.moveEntity e.id p.id).answer = .error (.wrongParent .faculty .faculty) ∧
      (h.moveEntity e.id p.id).answer ≠ .error .notFound ∧
      h.tree.entity (.ofNat 9) = none ∧ (h.moveEntity e.id (.ofNat 9)).answer = .error .notFound :=
  ⟨.run .empty _, by decide +kernel, by decide +kernel, by decide +kernel, by decide +kernel,
    by decide +kernel, by decide +kernel, by decide +kernel⟩

end Hierarchy

end StaffRights
