import StaffRights.Proofs.Hierarchy.Persistence

/-!
# Awarded credentials protect from deletion

An entity for which credentials were awarded can be neither deleted nor lost with an entity above
it, wherever it is moved, until its count is set back to zero. A deletion looks for awards at and
below the entity to be deleted, and finds all that it would take along.

Reference: `SPEC_FULL.md` 4.4 and 8 (protected deletion).
-/

namespace StaffRights.Hierarchy

variable {h h' : Hierarchy} {id a : EntityId} {e : Entity}

namespace Consistent

variable (hc : h.Consistent)

include hc

/-- No change but setting its count to zero takes the awards from an entity. -/
theorem awarded_of_done {c : Change} {o : Outcome c.Value} (hd : h.Done c o h')
    (hzero : c ≠ .setAwarded id 0) (hawarded : h.tree.awarded id = true) :
    h'.tree.awarded id = true := by
  obtain ⟨n, hn, hpos⟩ := h.tree_awarded_iff.1 hawarded
  have he := h.entity_of_node? hn
  cases hd with
  | insertEntity hq =>
    obtain ⟨hnew, -⟩ := hc.placeFor_spec hq
    rw [tree_awarded_attach, if_neg (ne_of_new hnew he)]
    exact hawarded
  | saveEntity => exact hawarded
  | stay => exact hawarded
  | moveEntity hx =>
    rw [h.tree_awarded_relink hx]
    exact hawarded
  | @deleteEntity j x hx hnone =>
    obtain rfl := hc.linked.entity_id hx
    obtain ⟨-, hw⟩ := hc.dropSubtree hx
    -- what is at or below the deleted entity has no awards, so this one is kept
    have hkept : ¬ h.tree.AtOrAbove x.id id := by
      intro hgone
      rw [hc.awarded_eq_false_of_branch hnone hgone] at hawarded
      cases hawarded
    rw [hw.awarded_of_kept hkept]
    exact hawarded
  | @setAwarded j count =>
    rw [tree_awarded_setAwarded]
    split
    · next hj =>
      subst hj
      have hcount : count ≠ 0 := fun h => hzero (by rw [h])
      simp [he, hcount]
    · exact hawarded
  | insertMembership =>
    rw [tree_awarded_putMembership]
    exact hawarded
  | updateMembership =>
    rw [tree_awarded_putMembership]
    exact hawarded
  | removeMembership =>
    rw [tree_awarded_dropMembership]
    exact hawarded

/-- No change at all takes what is at or above an entity with awards. -/
theorem entity_of_awarded_below (hawarded : h.tree.awarded id = true) (ha : h.tree.AtOrAbove a id)
    (he : h.tree.entity a = some e) (c : Change) : (h.change c).tree.entity a = some e := by
  apply change_of_done (P := fun k => k.tree.entity a = some e) he
  intro o h' hd
  rcases hc.retained_or_removed hd he with ⟨hkept, -⟩ | ⟨-, -, hnone⟩
  · exact hkept
  · rw [hnone id ha] at hawarded
    cases hawarded

/-- An entity cannot be deleted while anything at or below it has awards. -/
theorem deleteEntity_of_awarded_below (hawarded : h.tree.awarded id = true)
    (ha : h.tree.AtOrAbove a id) (he : h.tree.entity a = some e) :
    h.deleteEntity a = .refuse (.awarded e.kind) h := by
  obtain ⟨n, hn, -⟩ := h.tree_awarded_iff.1 hawarded
  have hne := h.entity_of_node? hn
  have hid := hc.linked.entity_id hne
  subst hid
  have hany : (h.tree.branch a .downward).any (fun d => h.tree.awarded d.id) = true := by
    rw [List.any_eq_true]
    exact ⟨n.entity, hc.linked.mem_branch_downward_iff.2 ⟨hne, ha⟩, hawarded⟩
  simp only [deleteEntity_eq, he]
  rw [if_pos hany]

end Consistent

/-- A run that never sets the count to zero leaves an entity its awards. -/
theorem Reachable.awarded_run (hr : h.Reachable) {cs : List Change}
    (hzero : .setAwarded id 0 ∉ cs) (he : h.tree.entity id = some e)
    (hawarded : h.tree.awarded id = true) :
    (h.run cs).tree.entity id = some e ∧ (h.run cs).tree.awarded id = true := by
  induction cs generalizing h with
  | nil => exact ⟨he, hawarded⟩
  | cons c cs ih =>
    have hc := hr.consistent
    have hne : c ≠ .setAwarded id 0 := fun heq => hzero (heq ▸ List.mem_cons_self ..)
    apply ih (hr.changed c) fun hmem => hzero (List.mem_cons_of_mem _ hmem)
    · exact hc.entity_of_awarded_below hawarded (.refl _ _) he c
    · exact change_of_done (P := fun k => k.tree.awarded id = true) hawarded
        fun hd => hc.awarded_of_done hd hne hawarded

/-- Once credentials were awarded for an entity, then after every run of changes none of which sets
its count to zero the entity is there with a positive count. All that is at or above it then is
there as well, can be deleted neither by itself nor with what is above it, and is there after every
further change. -/
theorem Reachable.awarded_never_orphaned (hr : h.Reachable) {n : Node} (hn : h.node? id = some n)
    (hpos : 0 < n.awarded) {cs : List Change} (hzero : .setAwarded id 0 ∉ cs) :
    (∃ n', (h.run cs).node? id = some n' ∧ n'.entity = n.entity ∧ 0 < n'.awarded) ∧
      ∀ a, (h.run cs).tree.AtOrAbove a id → ∃ x, (h.run cs).tree.entity a = some x ∧
        (h.run cs).deleteEntity a = .refuse (.awarded x.kind) (h.run cs) ∧
        ∀ c, ((h.run cs).change c).tree.entity a = some x := by
  have he := h.entity_of_node? hn
  obtain ⟨he', hawarded⟩ := hr.awarded_run hzero he (h.tree_awarded_iff.2 ⟨n, hn, hpos⟩)
  have hc := (hr.run cs).consistent
  constructor
  · obtain ⟨n', hn', hpos'⟩ := (tree_awarded_iff _).1 hawarded
    refine ⟨n', hn', ?_, hpos'⟩
    rwa [tree_entity, hn', Option.map_some, Option.some.injEq] at he'
  · intro a ha
    obtain ⟨x, hx, -⟩ := hc.linked.entity_of_atOrAbove ha he'
    exact ⟨x, hx, hc.deleteEntity_of_awarded_below hawarded ha hx,
      hc.entity_of_awarded_below hawarded ha hx⟩

/-- Credentials are awarded for an issuer, which then moves to another faculty. The faculty that it
has left can be deleted, and its institution cannot. -/
theorem Reachable.awarded_never_orphaned_of_move :
    let h := (∅ : Hierarchy).run [.insertEntity ⟨.institution, .ofNat 1⟩ none,
      .insertEntity ⟨.faculty, .ofNat 2⟩ (some (.ofNat 1)),
      .insertEntity ⟨.faculty, .ofNat 3⟩ (some (.ofNat 1)),
      .insertEntity ⟨.issuer, .ofNat 4⟩ (some (.ofNat 2)), .setAwarded (.ofNat 4) 5]
    let cs : List Change := [.deleteEntity (.ofNat 2), .moveEntity (.ofNat 4) (.ofNat 3),
      .deleteEntity (.ofNat 2), .deleteEntity (.ofNat 3), .setAwarded (.ofNat 4) 1]
    (h.size = 4 ∧ (h.run cs).size = 3) ∧
      (∃ n, (h.run cs).node? (.ofNat 4) = some n ∧ n.entity = ⟨.issuer, .ofNat 4⟩ ∧
        0 < n.awarded) ∧
      (h.run cs).deleteEntity (.ofNat 1) = .refuse (.awarded .institution) (h.run cs) := by
  intro h cs
  have hr : h.Reachable := .run .empty _
  have hn : h.node? (.ofNat 4) =
      some ⟨⟨.issuer, .ofNat 4⟩, some ⟨.faculty, .ofNat 2⟩, [], [], 5⟩ := by decide +kernel
  have hzero : .setAwarded (.ofNat 4) 0 ∉ cs := by decide
  obtain ⟨hkept, habove⟩ := hr.awarded_never_orphaned hn (by decide) hzero
  have hfaculty : (h.run cs).tree.parent (.ofNat 4) = some ⟨.faculty, .ofNat 3⟩ := by
    decide +kernel
  have hinstitution : (h.run cs).tree.parent (.ofNat 3) = some ⟨.institution, .ofNat 1⟩ := by
    decide +kernel
  have hbelow : (h.run cs).tree.AtOrAbove (.ofNat 3) (.ofNat 4) := .below (.refl _ _) hfaculty
  obtain ⟨x, hx, hdelete, -⟩ := habove _ (.trans (.below (.refl _ _) hinstitution) hbelow)
  have hroot : (h.run cs).tree.entity (.ofNat 1) = some ⟨.institution, .ofNat 1⟩ := by
    decide +kernel
  rw [hx, Option.some.injEq] at hroot
  subst hroot
  exact ⟨by decide +kernel, hkept, hdelete⟩

end StaffRights.Hierarchy
