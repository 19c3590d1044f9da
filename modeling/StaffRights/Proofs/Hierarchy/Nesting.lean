import StaffRights.Proofs.Hierarchy.Runs
import StaffRights.Proofs.Tree.Nesting

/-!
# No more nested calls than levels

A deletion recurses over a tree that it takes apart on the way, and keeps no bound and no list of
what it has visited. It comes to an end all the same: what is left of a consistent hierarchy is
consistent, so that each nested call is about an entity one level down. With that, none of the
recursions over a reachable hierarchy nests more than four calls.
-/

namespace StaffRights.Hierarchy

mutual

/-- Dropping an entity and everything below it, the children first, takes a number of nested calls
and leaves a hierarchy behind, with what was removed. -/
inductive Drops : Entity → Hierarchy × Removed → Nat → Hierarchy × Removed → Prop
  | call {e : Entity} {s s' : Hierarchy × Removed} {calls : Nat} :
      DropsEach (s.1.tree.children e.id) s calls s' → Drops e s (calls + 1) (dropEntity e s')

/-- The same for several entities, each dropped from what the ones before it left. -/
inductive DropsEach : List Entity → Hierarchy × Removed → Nat → Hierarchy × Removed → Prop
  | nil {s : Hierarchy × Removed} : DropsEach [] s 0 s
  | cons {c : Entity} {cs : List Entity} {s s' s'' : Hierarchy × Removed} {calls more : Nat} :
      Drops c s calls s' → DropsEach cs s' more s'' → DropsEach (c :: cs) s (max calls more) s''

end

mutual

/-- How deep the calls nest and what they leave is determined. -/
theorem Drops.unique {e : Entity} {s s' s'' : Hierarchy × Removed} {k k' : Nat} :
    Drops e s k s' → Drops e s k' s'' → k = k' ∧ s' = s''
  | .call h, .call h' => by
    obtain ⟨rfl, rfl⟩ := h.unique h'
    exact ⟨rfl, rfl⟩

/-- The same for several entities. -/
theorem DropsEach.unique {cs : List Entity} {s s' s'' : Hierarchy × Removed} {k k' : Nat} :
    DropsEach cs s k s' → DropsEach cs s k' s'' → k = k' ∧ s' = s''
  | .nil, .nil => ⟨rfl, rfl⟩
  | .cons h hs, .cons h' hs' => by
    obtain ⟨rfl, rfl⟩ := h.unique h'
    obtain ⟨rfl, rfl⟩ := hs.unique hs'
    exact ⟨rfl, rfl⟩

end

variable {h : Hierarchy} {e : Entity} {n : Nat} {s s' : Hierarchy × Removed}

/-! ## Bounded and unbounded -/

/-- Siblings are dropped within `n` steps each just if the calls nest no deeper than that. -/
theorem foldlM_dropSubtreeWithin_eq_some_iff {cs : List Entity}
    (h : ∀ c s s', dropSubtreeWithin n c s = some s' ↔ ∃ calls ≤ n, Drops c s calls s') :
    cs.foldlM (fun s c => dropSubtreeWithin n c s) s = some s' ↔
      ∃ calls ≤ n, DropsEach cs s calls s' := by
  induction cs generalizing s with
  | nil =>
    constructor
    · rintro ⟨⟩
      exact ⟨0, Nat.zero_le n, .nil⟩
    · rintro ⟨-, -, ⟨⟩⟩
      rfl
  | cons c cs ih =>
    simp only [List.foldlM_cons, Option.bind_eq_bind, Option.bind_eq_some_iff, h, ih]
    constructor
    · rintro ⟨s₁, ⟨calls, hcalls, hc⟩, more, hmore, hcs⟩
      -- siblings nest as deep as the deepest of them
      exact ⟨max calls more, Nat.max_le.2 ⟨hcalls, hmore⟩, .cons hc hcs⟩
    · rintro ⟨k, hmax, hall⟩
      cases hall with | cons hc hcs =>
      obtain ⟨hcalls, hmore⟩ := Nat.max_le.1 hmax
      exact ⟨_, ⟨_, hcalls, hc⟩, _, hmore, hcs⟩

/-- Within `n` steps a subtree is dropped just if the calls nest no deeper than that. -/
theorem dropSubtreeWithin_eq_some_iff :
    dropSubtreeWithin n e s = some s' ↔ ∃ calls ≤ n, Drops e s calls s' := by
  induction n generalizing e s s' with
  | zero =>
    refine iff_of_false nofun ?_
    rintro ⟨calls, hcalls, ⟨⟩⟩
    omega
  | succ n ih =>
    simp only [dropSubtreeWithin_succ, Option.map_eq_some_iff,
      foldlM_dropSubtreeWithin_eq_some_iff fun c s s' => ih]
    constructor
    · rintro ⟨s₁, ⟨calls, hcalls, hchildren⟩, rfl⟩
      exact ⟨calls + 1, Nat.succ_le_succ hcalls, .call hchildren⟩
    · rintro ⟨-, hcalls, ⟨hchildren⟩⟩
      exact ⟨_, ⟨_, Nat.le_of_succ_le_succ hcalls, hchildren⟩, rfl⟩

/-! ## Levels -/

/-- Dropping a subtree nests at most a call for each level down to the last. -/
theorem Consistent.drops_iff (hc : h.Consistent) (he : h.tree.entity e.id = some e) :
    ∃ calls ≤ 4 - e.kind.depth, ∀ k s, Drops e (h, {}) k s ↔ k = calls ∧ s = h.dropSubtree e := by
  have hlevel := e.kind.depth_le_three
  obtain ⟨out, hout, -⟩ := hc.dropSubtreeWithin (n := 4 - e.kind.depth) {} he
    (by rw [Nat.sub_add_cancel (by omega)]; exact h.tree.depthBelow_four)
  obtain ⟨calls, hcalls, hdrops⟩ := dropSubtreeWithin_eq_some_iff.1 hout
  -- the steps that the hierarchy allows come to the same
  obtain ⟨out', hout', -⟩ := hc.dropSubtreeWithin (n := h.tree.bound) {} he
    fun hx => Nat.lt_add_right _ (hc.linked.depthBelow_bound hx)
  obtain ⟨calls', -, hdrops'⟩ := dropSubtreeWithin_eq_some_iff.1 hout'
  have hdropSubtree : out = h.dropSubtree e := by
    rw [dropSubtree_eq, hout', Option.getD_some, (hdrops.unique hdrops').2]
  subst hdropSubtree
  refine ⟨calls, hcalls, fun k s => ⟨fun h' => h'.unique hdrops, ?_⟩⟩
  rintro ⟨rfl, rfl⟩
  exact hdrops

/-- Nothing bounds the recursions over a reachable hierarchy, but each comes to one result. To
resolve the rights on an entity takes one call for each level from the top, and on an unknown id
one. To follow its branch nests so many calls upward, and downward no more than one for each level
to the last; nor does dropping its subtree, though the hierarchy shrinks on the way. So four nested
steps, or any greater number of them, come to the same. -/
theorem Reachable.recursions_end_within_levels (hr : h.Reachable) (id : EntityId) (u : User) :
    (h.tree.entity id = none → ∀ k r, h.tree.Resolves u id k r ↔
      k = 1 ∧ r = h.tree.rights id u) ∧
    (∀ n, 4 ≤ n → h.tree.rightsWithin n id u = some (h.tree.rights id u)) ∧
    ∀ e, h.tree.entity id = some e →
      (∀ k r, h.tree.Resolves u id k r ↔ k = e.kind.depth + 1 ∧ r = h.tree.rights id u) ∧
      (∀ reach,
        (∃ up ≤ (if reach.ancestors then e.kind.depth + 1 else 1),
          ∃ down ≤ (if reach.descendants then 4 - e.kind.depth else 1),
            ∀ w, h.tree.Walks e reach w ↔ w = ⟨up, down, h.tree.branch id reach⟩) ∧
        ∀ n, 4 ≤ n → h.tree.walkWithin n e reach = some (h.tree.branch id reach)) ∧
      (∃ calls ≤ 4 - e.kind.depth, ∀ k s, Drops e (h, {}) k s ↔ k = calls ∧ s = h.dropSubtree e) ∧
      ∀ n, 4 ≤ n → dropSubtreeWithin n e (h, {}) = some (h.dropSubtree e) := by
  have hc := hr.consistent
  have hresolves : ∀ k r, h.tree.Resolves u id k r ↔
      k = ((h.tree.entity id).map (·.kind.depth)).getD 0 + 1 ∧ r = h.tree.rights id u :=
    fun k r => hc.linked.resolves_iff
  refine ⟨fun hid => ?_, fun n hn => ?_, fun e he => ?_⟩
  · rw [hid] at hresolves
    exact hresolves
  · refine Tree.rightsWithin_eq_some_iff.2 ⟨_, ?_, (hresolves _ _).2 ⟨rfl, rfl⟩⟩
    cases h.tree.entity id with
    | none => exact Nat.le_trans (by decide) hn
    | some e => exact Nat.le_trans (Nat.succ_le_succ e.kind.depth_le_three) hn
  · have hlevel := e.kind.depth_le_three
    obtain rfl := hc.linked.entity_id he
    obtain ⟨calls, hcalls, hdrops⟩ := hc.drops_iff he
    rw [he] at hresolves
    refine ⟨hresolves, fun reach => ?_, ⟨calls, hcalls, hdrops⟩,
      fun n hn => dropSubtreeWithin_eq_some_iff.2 ⟨calls, by omega, (hdrops _ _).2 ⟨rfl, rfl⟩⟩⟩
    obtain ⟨down, hdown, hwalks⟩ := hc.linked.walks_iff he reach
    refine ⟨⟨_, Nat.le_refl _, down, hdown, hwalks⟩, fun n hn =>
      Tree.walkWithin_eq_some_iff.2 ⟨_, (hwalks _).2 rfl, ⟨?_, ?_⟩, rfl⟩⟩
    · simp only
      split <;> omega
    · simp only
      split at hdown <;> omega

/-- After an issuer was moved with its badge class, the rights of a teacher on the badge class take
four calls, and the institution is dropped with at most four. -/
theorem recursions_end_within_levels_of_moved :
    let u : User := .teacher (.ofNat 7) (.ofNat 1)
    let i : Entity := ⟨.institution, .ofNat 1⟩
    let h := (∅ : Hierarchy).run [.insertEntity i none,
      .insertEntity ⟨.faculty, .ofNat 2⟩ (some i.id),
      .insertEntity ⟨.faculty, .ofNat 3⟩ (some i.id),
      .insertEntity ⟨.issuer, .ofNat 4⟩ (some (.ofNat 2)),
      .insertEntity ⟨.badgeClass, .ofNat 5⟩ (some (.ofNat 4)),
      .moveEntity (.ofNat 4) (.ofNat 3)]
    h.tree.Resolves u (.ofNat 5) 4 (.single .read) ∧ h.tree.Resolves u (.ofNat 9) 1 ∅ ∧
      h.tree.walkWithin 4 i .downward = some (h.tree.branch i.id .downward) ∧
      (h.dropSubtree i).2.entities.map (·.id) = [.ofNat 2, .ofNat 5, .ofNat 4, .ofNat 3, i.id] ∧
      ∃ calls ≤ 4, Drops i (h, {}) calls (h.dropSubtree i) := by
  intro u i h
  have hr : h.Reachable := .run .empty _
  obtain ⟨-, -, hbadge⟩ := hr.recursions_end_within_levels (.ofNat 5) u
  obtain ⟨hunknown, -, -⟩ := hr.recursions_end_within_levels (.ofNat 9) u
  obtain ⟨-, -, htop⟩ := hr.recursions_end_within_levels i.id u
  obtain ⟨hresolves, -⟩ := hbadge ⟨.badgeClass, .ofNat 5⟩ (by decide +kernel)
  obtain ⟨-, hwalks, ⟨calls, hcalls, hdrops⟩, -⟩ := htop i (by decide +kernel)
  exact ⟨(hresolves _ _).2 ⟨rfl, by decide +kernel⟩,
    (hunknown (by decide +kernel) _ _).2 ⟨rfl, by decide +kernel⟩,
    (hwalks .downward).2 4 (by decide), by decide +kernel, calls, hcalls,
    (hdrops _ _).2 ⟨rfl, rfl⟩⟩

end StaffRights.Hierarchy
