import Mathlib.Data.List.Perm.Subperm
import Mathlib.Logic.Relation
import StaffRights.Tree.Branch
import StaffRights.Tree.Rights

/-!
# Ancestors

The chain of links above an id, as a relation and as a list. A chain that comes to an end never
repeats an entity, so it fits into the number of steps that a tree allows: on such a chain the walk
upward and the resolution of rights are the plain recursions along the links.
-/

namespace StaffRights.Tree

variable {t t' : Tree} {a b x id : EntityId} {p : Entity} {above : List Entity}

/-! ## The relations -/

/-- The entity `a` stands directly above `x`. -/
def ParentOf (t : Tree) (a x : EntityId) : Prop := ∃ p, t.parent x = some p ∧ p.id = a

/-- The entity `a` is an ancestor of `x`. -/
def Above (t : Tree) : EntityId → EntityId → Prop := Relation.TransGen t.ParentOf

/-- The entity `a` is `x` itself or an ancestor of it. -/
def AtOrAbove (t : Tree) : EntityId → EntityId → Prop := Relation.ReflTransGen t.ParentOf

/-- Nothing has two parents. -/
theorem ParentOf.unique (ha : t.ParentOf a x) (hb : t.ParentOf b x) : a = b := by
  obtain ⟨p, hp, rfl⟩ := ha
  obtain ⟨q, hq, rfl⟩ := hb
  rw [hp, Option.some.injEq] at hq
  rw [hq]

@[refl] theorem AtOrAbove.refl (t : Tree) (x : EntityId) : t.AtOrAbove x x :=
  Relation.ReflTransGen.refl

theorem AtOrAbove.trans (hab : t.AtOrAbove a b) (hbx : t.AtOrAbove b x) : t.AtOrAbove a x :=
  Relation.ReflTransGen.trans hab hbx

/-- What is at or above the parent is above the entity. -/
theorem AtOrAbove.below (h : t.AtOrAbove a p.id) (hp : t.parent x = some p) : t.AtOrAbove a x :=
  Relation.ReflTransGen.tail h ⟨p, hp, rfl⟩

theorem Above.atOrAbove (h : t.Above a x) : t.AtOrAbove a x :=
  Relation.TransGen.to_reflTransGen h

/-- At or above is what is the same or above. -/
theorem atOrAbove_iff_eq_or_above : t.AtOrAbove a x ↔ x = a ∨ t.Above a x :=
  Relation.reflTransGen_iff_eq_or_transGen

/-- What is at or above an entity with a parent is the entity or at or above the parent. -/
theorem atOrAbove_iff_of_parent (hp : t.parent x = some p) :
    t.AtOrAbove a x ↔ a = x ∨ t.AtOrAbove a p.id := by
  constructor
  · intro h
    rcases Relation.ReflTransGen.cases_tail h with rfl | ⟨b, hab, hbx⟩
    · exact .inl rfl
    · rw [hbx.unique ⟨p, hp, rfl⟩] at hab
      exact .inr hab
  · rintro (rfl | h)
    · rfl
    · exact h.below hp

/-- Nothing but itself is at or above an entity without parent. -/
theorem atOrAbove_iff_of_root (hp : t.parent x = none) : t.AtOrAbove a x ↔ a = x := by
  constructor
  · intro h
    rcases Relation.ReflTransGen.cases_tail h with rfl | ⟨b, -, q, hq, -⟩
    · rfl
    · rw [hp] at hq
      cases hq
  · rintro rfl
    rfl

/-- Of two entities at or above a third, one is at or above the other. -/
theorem AtOrAbove.total (ha : t.AtOrAbove a x) (hb : t.AtOrAbove b x) :
    t.AtOrAbove a b ∨ t.AtOrAbove b a := by
  induction ha with
  | refl => exact .inr hb
  | @tail c x hac hcx ih =>
    obtain ⟨p, hp, rfl⟩ := hcx
    rcases (atOrAbove_iff_of_parent hp).1 hb with rfl | hb
    · exact .inl (AtOrAbove.below hac hp)
    · exact ih hb

/-- A tree with fewer links has fewer ancestors. -/
theorem AtOrAbove.mono (h : t'.AtOrAbove a x)
    (hpar : ∀ x p, t'.parent x = some p → t.parent x = some p) : t.AtOrAbove a x :=
  Relation.ReflTransGen.mono (fun _ _ ⟨p, hp, hpa⟩ => ⟨p, hpar _ p hp, hpa⟩) _ _ h

/-- Where parents are the same all the way up, ancestors are the same. -/
theorem atOrAbove_congr {kept : EntityId → Prop} (hpar : ∀ x, kept x → t'.parent x = t.parent x)
    (hup : ∀ x p, t.parent x = some p → kept x → kept p.id) (hx : kept x) :
    t'.AtOrAbove a x ↔ t.AtOrAbove a x := by
  constructor
  · intro h
    induction h with
    | refl => rfl
    | tail _ hlink ih =>
      obtain ⟨p, hp, rfl⟩ := hlink
      rw [hpar _ hx] at hp
      exact (ih (hup _ p hp hx)).below hp
  · intro h
    induction h with
    | refl => rfl
    | tail _ hlink ih =>
      obtain ⟨p, hp, rfl⟩ := hlink
      have hab := ih (hup _ p hp hx)
      rw [← hpar _ hx] at hp
      exact hab.below hp

/-! ## Chains that come to an end -/

/-- The entities above `id`, the nearest first; nothing stands above the last one. -/
inductive Ancestry (t : Tree) : EntityId → List Entity → Prop
  | root {id : EntityId} : t.parent id = none → t.Ancestry id []
  | link {id : EntityId} {p : Entity} {above : List Entity} :
      t.parent id = some p → t.Ancestry p.id above → t.Ancestry id (p :: above)

namespace Ancestry

/-- There is one chain above an entity. -/
theorem unique {above' : List Entity} (h : t.Ancestry id above) (h' : t.Ancestry id above') :
    above = above' := by
  induction h generalizing above' with
  | root hp =>
    cases h' with
    | root => rfl
    | link hp' => rw [hp] at hp'; cases hp'
  | link hp _ ih =>
    cases h' with
    | root hp' => rw [hp] at hp'; cases hp'
    | link hp' h' =>
      rw [hp, Option.some.injEq] at hp'
      subst hp'
      rw [ih h']

/-- What is at or above the id is the id itself or listed. -/
theorem atOrAbove_iff (h : t.Ancestry id above) :
    t.AtOrAbove a id ↔ a = id ∨ ∃ p ∈ above, p.id = a := by
  induction h with
  | root hp => simp [atOrAbove_iff_of_root hp]
  | link hp _ ih =>
    simp [atOrAbove_iff_of_parent hp, ih, eq_comm (a := a)]

/-- Each listed entity has a shorter chain. -/
theorem shorter (h : t.Ancestry id above) (hp : p ∈ above) :
    ∃ rest, t.Ancestry p.id rest ∧ rest.length < above.length := by
  induction h with
  | root => cases hp
  | @link _ q above _ hq ih =>
    rcases List.mem_cons.1 hp with rfl | hp
    · exact ⟨above, hq, Nat.lt_succ_self _⟩
    · obtain ⟨rest, hrest, hlt⟩ := ih hp
      exact ⟨rest, hrest, Nat.lt_succ_of_lt hlt⟩

/-- A chain that ends does not come back to where it began. -/
theorem not_mem (h : t.Ancestry id above) : id ∉ above.map (·.id) := by
  intro hid
  obtain ⟨p, hp, rfl⟩ := List.mem_map.1 hid
  -- it would be its own, shorter chain
  obtain ⟨rest, hrest, hlt⟩ := h.shorter hp
  rw [h.unique hrest] at hlt
  exact Nat.lt_irrefl _ hlt

/-- No entity stands twice on a chain, and the one at its lower end does not stand on it. -/
theorem nodup (h : t.Ancestry id above) : (id :: above.map (·.id)).Nodup := by
  induction h with
  | root => simp
  | @link id p above hp h ih =>
    exact List.nodup_cons.2 ⟨(Ancestry.link hp h).not_mem, ih⟩

/-- Everything on a chain but its end has a parent, and is therefore among the ids of the tree. -/
theorem subset_ids (h : t.Ancestry id above) :
    (id :: above.map (·.id)).dropLast ⊆ t.ids := by
  induction h with
  | root => simp
  | @link id p above hp _ ih =>
    rw [List.map_cons, List.dropLast_cons_cons]
    refine List.cons_subset.2 ⟨?_, ih⟩
    by_contra hid
    rw [t.parent_eq_none id hid] at hp
    cases hp

/-- A chain fits into the number of steps that the tree allows. -/
theorem length_lt_bound (h : t.Ancestry id above) : above.length < t.bound := by
  -- all but the end of the chain are different ids of the tree
  have hnodup : (id :: above.map (·.id)).dropLast.Nodup :=
    h.nodup.sublist (List.dropLast_sublist _)
  have hlen := (hnodup.subperm h.subset_ids).length_le
  rw [List.length_dropLast, List.length_cons, List.length_map] at hlen
  exact Nat.lt_succ_of_le hlen

end Ancestry

/-! ## Walking upward -/

/-- The walk upward lists the entity and its chain. -/
theorem Ancestry.walkWithin {n : Nat} {e : Entity} (h : t.Ancestry e.id above)
    (hn : above.length < n) : t.walkWithin n e .upward = some (e :: above) := by
  generalize hid : e.id = id at h
  induction h generalizing n e with
  | root hp =>
    obtain ⟨n, rfl⟩ := Nat.exists_eq_add_of_lt hn
    simp [Tree.walkWithin, Reach.upward, hid, hp]
  | @link id p above hp _ ih =>
    obtain ⟨n, rfl⟩ : ∃ m, n = m + 1 := ⟨n - 1, by omega⟩
    have hrest := ih (n := n) (by simpa using hn) rfl
    rw [Reach.upward] at hrest
    simp [Tree.walkWithin, Reach.upward, hid, hp, hrest]

/-! ## Resolving rights -/

variable {n m : Nat} {u : User} {r : Permissions}

/-- More steps do not change rights that were resolved. -/
theorem rightsWithin_mono (h : t.rightsWithin n id u = some r) (hnm : n ≤ m) :
    t.rightsWithin m id u = some r := by
  induction n generalizing m id r with
  | zero => cases h
  | succ n ih =>
    obtain ⟨m, rfl⟩ : ∃ k, m = k + 1 := ⟨m - 1, by omega⟩
    rw [rightsWithin] at h ⊢
    split at h
    · obtain ⟨q, hq, rfl⟩ := Option.map_eq_some_iff.1 h
      rw [ih hq (Nat.le_of_succ_le_succ hnm), Option.map_some]
    · exact h

/-- On a chain that ends, as many steps as it has links resolve the rights. -/
theorem Ancestry.rightsWithin_isSome (h : t.Ancestry id above) (hn : above.length < n) :
    (t.rightsWithin n id u).isSome := by
  induction h generalizing n with
  | root hp =>
    obtain ⟨n, rfl⟩ : ∃ k, n = k + 1 := ⟨n - 1, by omega⟩
    simp [Tree.rightsWithin, hp]
  | link hp _ ih =>
    obtain ⟨n, rfl⟩ : ∃ k, n = k + 1 := ⟨n - 1, by omega⟩
    simpa [Tree.rightsWithin, hp] using ih (by simpa using hn)

/-- With a step for each link and one more, rights are resolved to the end. -/
theorem Ancestry.rightsWithin_eq (h : t.Ancestry id above) (hn : above.length < n) :
    t.rightsWithin n id u = some (t.rights id u) := by
  obtain ⟨r, hr⟩ := Option.isSome_iff_exists.1 (h.rightsWithin_isSome (u := u) hn)
  have hbound := h.rightsWithin_isSome (u := u) h.length_lt_bound
  obtain ⟨q, hq⟩ := Option.isSome_iff_exists.1 hbound
  -- both counts of steps suffice, so the smaller one has resolved the rights already
  have hrq : r = q := by
    rcases Nat.le_total n t.bound with hle | hle
    · exact Option.some.inj ((rightsWithin_mono hr hle).symm.trans hq)
    · exact Option.some.inj (hr.symm.trans (rightsWithin_mono hq hle))
  rw [hr, hrq, rights, hq, Option.getD_some]

/-- At the end of a chain a user has what the entity itself grants, and what a home grants. -/
theorem rights_of_root (hp : t.parent id = none) :
    t.rights id u = t.localRights id u.id ∪ t.homeRights id u := by
  simp [rights, bound, rightsWithin, hp]

/-- Below a parent a user has what the entity itself grants and all rights on the parent. -/
theorem rights_of_parent (hp : t.parent id = some p) (h : t.Ancestry p.id above) :
    t.rights id u = t.localRights id u.id ∪ t.rights p.id u := by
  have hchain : t.Ancestry id (p :: above) := .link hp h
  have hlen : above.length < t.ids.length := by
    simpa [bound] using hchain.length_lt_bound
  rw [rights, bound, rightsWithin]
  simp [hp, h.rightsWithin_eq hlen]

/-- Rights depend on nothing but the chain, what is granted on it and the home at its end. -/
theorem Ancestry.rights_congr (h : t.Ancestry id above)
    (hpar : ∀ x, t.AtOrAbove x id → t'.parent x = t.parent x)
    (hlocal : ∀ x, t.AtOrAbove x id → t'.localRights x u.id = t.localRights x u.id)
    (hhome : ∀ x, t.AtOrAbove x id → t'.homeRights x u = t.homeRights x u) :
    t'.Ancestry id above ∧ t'.rights id u = t.rights id u := by
  induction h with
  | @root id hp =>
    have hp' : t'.parent id = none := (hpar id (.refl t id)).trans hp
    refine ⟨.root hp', ?_⟩
    rw [rights_of_root hp', rights_of_root hp, hlocal id (.refl t id), hhome id (.refl t id)]
  | @link id p above hp h ih =>
    have hp' : t'.parent id = some p := (hpar id (.refl t id)).trans hp
    obtain ⟨hchain, hrights⟩ := ih (fun x hx => hpar x (hx.below hp))
      (fun x hx => hlocal x (hx.below hp)) (fun x hx => hhome x (hx.below hp))
    refine ⟨.link hp' hchain, ?_⟩
    rw [rights_of_parent hp' hchain, rights_of_parent hp h, hlocal id (.refl t id), hrights]

end StaffRights.Tree
