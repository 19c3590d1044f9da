import StaffRights.Proofs.Hierarchy.Runs
import StaffRights.Proofs.Tree.Part

/-!
# What a branch lists

The branch of an entity lists the entity, the chain above it from its parent to its institution, and
what is below it: depth first, every entity followed by what is below it, and siblings in the order
of children. Upward and downward directions read different links. As these agree, an entity is met
going up from another exactly if that one is met going down from it, and none is met twice.

Reference: `SPEC_FULL.md` 4.3 (`branchOf`).
-/

namespace StaffRights

namespace Tree

variable {t : Tree} {id : EntityId} {e x : Entity} {es above : List Entity}

/-- `l` lists entities in turn, each with everything below it right behind it, children in order. -/
inductive Preorder (t : Tree) : List Entity → List Entity → Prop
  | nil : t.Preorder [] []
  | cons {e : Entity} {es below rest : List Entity} :
      t.Preorder (t.children e.id) below → t.Preorder es rest →
      t.Preorder (e :: es) (e :: (below ++ rest))

/-- Entities whose branches are listed one after the other are listed in turn. -/
theorem Preorder.flatMap {list : Entity → List Entity}
    (hlist : ∀ e ∈ es, ∃ below, t.Preorder (t.children e.id) below ∧ list e = e :: below) :
    t.Preorder es (es.flatMap list) := by
  induction es with
  | nil => exact .nil
  | cons e es ih =>
    obtain ⟨below, hbelow, heq⟩ := hlist e (List.mem_cons_self ..)
    rw [List.flatMap_cons, heq, List.cons_append]
    exact .cons hbelow (ih fun x hx => hlist x (List.mem_cons_of_mem _ hx))

namespace Linked

variable (ht : t.Linked)

include ht

/-- A subtree is the entity and a depth-first listing of its children. -/
theorem preorder_subtree (he : t.entity e.id = some e) :
    ∃ below, t.Preorder (t.children e.id) below ∧ t.subtree e = e :: below := by
  refine ht.induction_downward (P := fun e => ∃ below, t.Preorder (t.children e.id) below ∧
    t.subtree e = e :: below) ?_ e he
  intro e he ih
  exact ⟨_, .flatMap ih, ht.subtree_eq he⟩

/-- The branch of an entity: the entity, the chain above it, and a listing of what is below. -/
theorem branch_cases (he : t.entity e.id = some e) :
    ∃ above below, t.Ancestry e.id above ∧ t.Preorder (t.children e.id) below ∧
      ∀ reach, t.branch e.id reach = e :: ((if reach.ancestors then above else []) ++
        if reach.descendants then below else []) := by
  obtain ⟨above, habove⟩ := ht.exists_ancestry e.id
  obtain ⟨below, hbelow, hsubtree⟩ := ht.preorder_subtree he
  refine ⟨above, below, habove, hbelow, fun reach => ?_⟩
  rw [ht.branch_eq he habove, hsubtree, List.tail_cons]

/-- Nothing above an entity is listed in its subtree. -/
theorem disjoint_subtree (he : t.entity e.id = some e) (habove : t.Ancestry e.id above) :
    above.Disjoint (t.subtree e) := by
  intro x hxabove hxbelow
  have hup : t.AtOrAbove x.id e.id := habove.atOrAbove_iff.2 (.inr ⟨x, hxabove, rfl⟩)
  have hid := ht.atOrAbove_antisymm hup ((ht.mem_subtree_iff he).1 hxbelow).2
  exact habove.not_mem (hid ▸ List.mem_map_of_mem hxabove)

/-- In one direction a part of the full branch is listed. -/
theorem branch_sublist_full (id : EntityId) (reach : Reach) :
    (t.branch id reach).Sublist (t.branch id .full) := by
  cases he : t.entity id with
  | none => rw [branch_of_unknown t he, branch_of_unknown t he]
  | some e =>
    obtain ⟨above, habove⟩ := ht.exists_ancestry id
    rw [ht.branch_eq he habove, ht.branch_full he habove]
    refine .cons_cons e (.append ?_ ?_)
    · split <;> simp
    · split <;> simp

/-- Whatever a branch lists is an entity. -/
theorem entity_of_mem_branch {reach : Reach} (hx : x ∈ t.branch id reach) :
    t.entity x.id = some x :=
  (ht.mem_branch_full_iff.1 ((ht.branch_sublist_full id reach).subset hx)).1

/-- No entity is listed twice in a branch. -/
theorem nodup_branch (id : EntityId) (reach : Reach) : (t.branch id reach).Nodup := by
  refine List.Nodup.sublist (ht.branch_sublist_full id reach) ?_
  cases he : t.entity id with
  | none =>
    rw [branch_of_unknown t he]
    exact List.nodup_nil
  | some e =>
    obtain rfl := ht.entity_id he
    obtain ⟨above, habove⟩ := ht.exists_ancestry e.id
    have hchain : (e :: above).Nodup := List.Nodup.of_map _ habove.nodup
    -- the chain is without repetition, the subtree is, and they share the entity alone
    have hsubtree := ht.nodup_subtree he
    have hdisjoint := ht.disjoint_subtree he habove
    rw [ht.subtree_eq he] at hsubtree hdisjoint
    obtain ⟨hself, hbelow⟩ := List.nodup_cons.1 hsubtree
    rw [ht.branch_full he habove, ht.subtree_eq he, List.tail_cons, ← List.cons_append,
      List.nodup_append']
    refine ⟨hchain, hbelow, List.disjoint_cons_left.2 ⟨hself, ?_⟩⟩
    exact List.disjoint_of_disjoint_cons_right hdisjoint

/-- The chain upward has one entity for each level down to the kind of its first. -/
theorem length_branch_upward (he : t.entity e.id = some e) :
    (t.branch e.id .upward).length = e.kind.depth + 1 := by
  obtain ⟨above, habove, hlength⟩ := ht.exists_ancestry_of_entity he
  rw [ht.branch_upward he habove, List.length_cons, hlength]

/-- The chain upward ends in the institution. -/
theorem getLast?_branch_upward (he : t.entity e.id = some e) :
    ∃ i, (t.branch e.id .upward).getLast? = some i ∧ i.kind = .institution ∧
      t.institution? e.id = some i := by
  obtain ⟨i, hi⟩ := ht.exists_institution he
  have hlast := hi
  rw [institution?, Option.filter_eq_some_iff, beq_iff_eq] at hlast
  exact ⟨i, hlast.1, hlast.2, hi⟩

/-- The full branch holds the entity, its ancestors and its descendants. -/
theorem mem_branch_full_iff_above (he : t.entity e.id = some e) :
    x ∈ t.branch e.id .full ↔
      t.entity x.id = some x ∧ (x = e ∨ t.Above x.id e.id ∨ t.Above e.id x.id) := by
  rw [ht.mem_branch_full_iff]
  refine and_congr_right fun hx => ?_
  have hxe : x.id = e.id ↔ x = e := ⟨eq_of_id_eq hx he, congrArg Entity.id⟩
  rw [atOrAbove_iff_eq_or_above, atOrAbove_iff_eq_or_above, hxe, eq_comm (a := e.id), hxe]
  tauto

end Linked

end Tree

namespace Hierarchy

variable {h : Hierarchy}

/-- The branch of an unknown id is empty. That of an entity is the entity, then the chain above it,
and then what is below it in depth-first order, in as far as these are asked for; no id stands in it
twice. The chain is as long as the kind is deep and ends in the institution, which is that of the
entity. The full branch holds what is above and what is below, so that of two entities each is in
the branch of the other or neither is, and what is met going down meets the entity going up. -/
theorem Reachable.branch_lists_chain_and_subtree (hr : h.Reachable) :
    (∀ id reach, h.tree.entity id = none → h.tree.branch id reach = []) ∧
    (∀ id reach, ((h.tree.branch id reach).map (·.id)).Nodup) ∧
    ∀ e, h.tree.entity e.id = some e →
      (∃ above below, h.tree.Ancestry e.id above ∧
        h.tree.Preorder (h.tree.children e.id) below ∧
        ∀ reach, h.tree.branch e.id reach = e :: ((if reach.ancestors then above else []) ++
          if reach.descendants then below else [])) ∧
      (h.tree.branch e.id .upward).length = e.kind.depth + 1 ∧
      (∃ i, (h.tree.branch e.id .upward).getLast? = some i ∧ i.kind = .institution ∧
        h.tree.institution? e.id = some i) ∧
      (∀ x, x ∈ h.tree.branch e.id .full ↔ h.tree.entity x.id = some x ∧
        (x = e ∨ h.tree.Above x.id e.id ∨ h.tree.Above e.id x.id)) ∧
      ∀ x, h.tree.entity x.id = some x →
        (x ∈ h.tree.branch e.id .full ↔ e ∈ h.tree.branch x.id .full) ∧
        (x ∈ h.tree.branch e.id .downward ↔ e ∈ h.tree.branch x.id .upward) := by
  have ht := hr.consistent.linked
  refine ⟨fun id reach => Tree.Linked.branch_of_unknown h.tree,
    fun id reach => Tree.nodup_map_id (ht.nodup_branch id reach) fun x => ht.entity_of_mem_branch,
    fun e he => ⟨ht.branch_cases he, ht.length_branch_upward he, ht.getLast?_branch_upward he,
      fun x => ht.mem_branch_full_iff_above he, fun x hx => ⟨?_, ?_⟩⟩⟩
  · rw [ht.mem_branch_full_iff, ht.mem_branch_full_iff, and_iff_right hx, and_iff_right he, or_comm]
  · rw [ht.mem_branch_downward_iff, ht.mem_branch_upward_iff, and_iff_right hx, and_iff_right he]

/-- An issuer has left its faculty and come back, so it is now listed behind its sibling, and its
badge class behind it. A badge class of another faculty is not in the branch. -/
theorem Reachable.branch_lists_chain_and_subtree_of_return :
    let h := (∅ : Hierarchy).run [.insertEntity ⟨.institution, .ofNat 1⟩ none,
      .insertEntity ⟨.faculty, .ofNat 2⟩ (some (.ofNat 1)),
      .insertEntity ⟨.faculty, .ofNat 3⟩ (some (.ofNat 1)),
      .insertEntity ⟨.issuer, .ofNat 4⟩ (some (.ofNat 2)),
      .insertEntity ⟨.issuer, .ofNat 5⟩ (some (.ofNat 2)),
      .insertEntity ⟨.badgeClass, .ofNat 6⟩ (some (.ofNat 4)),
      .moveEntity (.ofNat 4) (.ofNat 3), .moveEntity (.ofNat 4) (.ofNat 2)]
    let e : Entity := ⟨.faculty, .ofNat 2⟩
    let x : Entity := ⟨.badgeClass, .ofNat 6⟩
    h.tree.branch e.id .full =
        [e, ⟨.institution, .ofNat 1⟩, ⟨.issuer, .ofNat 5⟩, ⟨.issuer, .ofNat 4⟩, x] ∧
      h.tree.branch (.ofNat 7) .full = [] ∧
      ((h.tree.branch e.id .full).map (·.id)).Nodup ∧
      (∃ above below, h.tree.Ancestry e.id above ∧ h.tree.Preorder (h.tree.children e.id) below ∧
        h.tree.branch e.id .full = e :: (above ++ below)) ∧
      (h.tree.branch e.id .upward).length = 2 ∧
      (∃ i, (h.tree.branch e.id .upward).getLast? = some i ∧ i.kind = .institution ∧
        h.tree.institution? e.id = some i) ∧
      (h.tree.Above x.id e.id ∨ h.tree.Above e.id x.id) ∧
      e ∈ h.tree.branch x.id .full ∧ e ∈ h.tree.branch x.id .upward := by
  intro h e x
  have hr : h.Reachable := .run .empty _
  have he : h.tree.entity e.id = some e := by decide +kernel
  have hx : h.tree.entity x.id = some x := by decide +kernel
  have hfull : x ∈ h.tree.branch e.id .full := by decide +kernel
  have hdown : x ∈ h.tree.branch e.id .downward := by decide +kernel
  obtain ⟨hunknown, hnodup, hentity⟩ := branch_lists_chain_and_subtree hr
  obtain ⟨⟨above, below, habove, hbelow, hbranch⟩, hlength, hlast, hmem, hdual⟩ := hentity e he
  exact ⟨by decide +kernel, hunknown _ _ (by decide +kernel), hnodup _ _,
    ⟨above, below, habove, hbelow, hbranch .full⟩, hlength, hlast,
    ((hmem x).1 hfull).2.resolve_left (by decide), (hdual x hx).1.1 hfull,
    (hdual x hx).2.1 hdown⟩

end Hierarchy

end StaffRights
