import StaffRights.Proofs.Tree.Linked

/-!
# Subtrees from the leaves up

The entities of a subtree in the order in which a deletion takes them: each of them after everything
below it.
-/

namespace StaffRights.Tree

variable {t t' : Tree} {e x : Entity}

/-- What stands at most `n` links below an entity, in depth-first order, and then the entity. -/
def ascend (t : Tree) : Nat → Entity → List Entity
  | 0, e => [e]
  | n + 1, e => (t.children e.id).flatMap (t.ascend n) ++ [e]

/-- Everything below an entity, each before what is above it, and then the entity. -/
def leavesFirst (t : Tree) (e : Entity) : List Entity := t.ascend (3 - e.kind.depth) e

namespace Linked

variable (ht : t.Linked) (he : t.entity e.id = some e)

include ht he

/-- What is listed is what is listed for the children, and then the entity. -/
theorem leavesFirst_eq : t.leavesFirst e = (t.children e.id).flatMap t.leavesFirst ++ [e] := by
  rcases ht.level_cases he with ⟨hnil, hlevel⟩ | ⟨k, hlevel, hchildren⟩
  · rw [leavesFirst, hlevel, ascend, hnil]
    rfl
  · rw [leavesFirst, hlevel, ascend]
    congr 1
    refine List.flatMap_congr fun c hc => ?_
    rw [leavesFirst, hchildren c hc]

/-- The entities of the subtree are listed in another order. -/
theorem leavesFirst_perm : (t.leavesFirst e).Perm (t.subtree e) := by
  refine ht.induction_downward (P := fun e => (t.leavesFirst e).Perm (t.subtree e)) ?_ e he
  intro e he ih
  rw [ht.leavesFirst_eq he, ht.subtree_eq he]
  exact (List.perm_append_singleton e _).trans (.cons e (.flatMap_left _ ih))

/-- The entities that the entity is at or above are listed. -/
theorem mem_leavesFirst_iff :
    x ∈ t.leavesFirst e ↔ t.entity x.id = some x ∧ t.AtOrAbove e.id x.id := by
  rw [(ht.leavesFirst_perm he).mem_iff, ht.mem_subtree_iff he]

/-- No entity is listed twice. -/
theorem nodup_leavesFirst : ((t.leavesFirst e).map (·.id)).Nodup := by
  refine nodup_map_id ?_ fun x hx => ((ht.mem_leavesFirst_iff he).1 hx).1
  exact (ht.leavesFirst_perm he).nodup_iff.2 (ht.nodup_subtree he)

/-- What is listed before an entity is not above it. -/
theorem pairwise_leavesFirst : (t.leavesFirst e).Pairwise fun x y => ¬ t.Above x.id y.id := by
  refine ht.induction_downward
    (P := fun e => (t.leavesFirst e).Pairwise fun x y => ¬ t.Above x.id y.id) ?_ e he
  intro e he ih
  have hbelow : ∀ c ∈ t.children e.id, ∀ x ∈ t.leavesFirst c, t.AtOrAbove c.id x.id :=
    fun c hc x hx => ((ht.mem_leavesFirst_iff (ht.entity_child hc)).1 hx).2
  rw [ht.leavesFirst_eq he, List.pairwise_append, List.pairwise_flatMap]
  refine ⟨⟨ih, ?_⟩, List.pairwise_singleton _ _, fun x hx y hy => ?_⟩
  · -- what is below one child is not above what is below another
    exact (ht.pairwise_children he).imp_of_mem fun {c d} hc hd hcd x hx y hy hxy =>
      hcd y.id ((hbelow c hc x hx).trans hxy.atOrAbove) (hbelow d hd y hy)
  · obtain ⟨c, hc, hx⟩ := List.mem_flatMap.1 hx
    rw [List.mem_singleton.1 hy]
    intro hxe
    exact ht.not_atOrAbove_parent (ht.parent_child he hc)
      ((hbelow c hc x hx).trans hxe.atOrAbove)

/-- The entity itself is listed last. -/
theorem getLast?_leavesFirst : (t.leavesFirst e).getLast? = some e := by
  rw [ht.leavesFirst_eq he, List.getLast?_concat]

/-- The listing depends on nothing but the children of what is listed. -/
theorem leavesFirst_congr
    (hchildren : ∀ y, t.AtOrAbove e.id y → t'.children y = t.children y) :
    t'.leavesFirst e = t.leavesFirst e := by
  rw [leavesFirst, leavesFirst]
  generalize 3 - e.kind.depth = n
  induction n generalizing e with
  | zero => rfl
  | succ n ih =>
    rw [ascend, ascend, hchildren e.id (.refl t e.id)]
    congr 1
    refine List.flatMap_congr fun c hc => ih (ht.entity_child hc) fun y hy => ?_
    exact hchildren y (.trans (.below (.refl t e.id) (ht.parent_child he hc)) hy)

end Linked

end StaffRights.Tree
