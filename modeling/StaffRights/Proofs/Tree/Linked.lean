import Mathlib.Data.List.Nodup
import Mathlib.Tactic.Tauto
import StaffRights.Proofs.Tree.Ancestry

/-!
# Trees whose links agree

In a `Linked` tree the links upward and downward tell the same story, and every link leads from a
kind to the kind just above it. So every chain of links ends after as many steps as the kind is
deep: walks and rights need no bound, and the branch of an entity is what the relation "at or above"
says it is.

Reference: `SPEC_FULL.md` 3 (the invariant on parent chains).
-/

namespace StaffRights.Tree

variable {t : Tree} {a b id : EntityId} {e p c x : Entity} {n : Nat}

/-- The links of a tree agree with one another and with the kinds of its entities. -/
structure Linked (t : Tree) : Prop where
  /-- An entity is found under its own id. -/
  entity_id : ∀ {id : EntityId} {e : Entity}, t.entity id = some e → e.id = id
  /-- Exactly the institutions have nothing above them. -/
  parent_eq_none_iff : ∀ {id : EntityId} {e : Entity}, t.entity id = some e →
    (t.parent id = none ↔ e.kind = .institution)
  /-- Only an entity has a parent, and the parent is an entity of the kind just above. -/
  parent_entity : ∀ {id : EntityId} {p : Entity}, t.parent id = some p →
    ∃ e, t.entity id = some e ∧ t.entity p.id = some p ∧ e.kind.above = some p.kind
  /-- The children of an entity are the entities whose parent it is. -/
  mem_children_iff : ∀ {id : EntityId} {c : Entity},
    c ∈ t.children id ↔ t.entity c.id = some c ∧ t.ParentOf id c.id
  /-- No child is listed twice. -/
  children_nodup : ∀ id : EntityId, (t.children id).Nodup

/-- Two trees have the same entities with the same links between them. -/
structure SameLinks (t t' : Tree) : Prop where
  entity : ∀ id, t'.entity id = t.entity id
  parent : ∀ id, t'.parent id = t.parent id
  children : ∀ id, t'.children id = t.children id

theorem SameLinks.parentOf_iff {t' : Tree} (h : t.SameLinks t') :
    t'.ParentOf a b ↔ t.ParentOf a b := by
  simp only [ParentOf, h.parent]

theorem SameLinks.atOrAbove_iff {t' : Tree} (h : t.SameLinks t') :
    t'.AtOrAbove a b ↔ t.AtOrAbove a b :=
  ⟨fun hab => hab.mono fun x p hp => by rwa [h.parent] at hp,
    fun hab => hab.mono fun x p hp => by rwa [h.parent]⟩

/-- There are at most `d` levels of entities. -/
def DepthBelow (t : Tree) (d : Nat) : Prop :=
  ∀ {id : EntityId} {e : Entity}, t.entity id = some e → e.kind.depth < d

/-- Nothing is deeper than the last of four levels. -/
theorem depthBelow_four (t : Tree) : t.DepthBelow 4 :=
  fun {_ e} _ => Nat.lt_succ_of_le e.kind.depth_le_three

/-- Entities that are found under the same id are the same. -/
theorem eq_of_id_eq (he : t.entity e.id = some e) (hx : t.entity x.id = some x)
    (hid : e.id = x.id) : e = x := by
  rw [hid, hx, Option.some.injEq] at he
  exact he.symm

/-- Different entities have different ids. -/
theorem nodup_map_id {es : List Entity} (hes : es.Nodup)
    (hentity : ∀ x ∈ es, t.entity x.id = some x) : (es.map (·.id)).Nodup :=
  List.Nodup.map_on (fun x hx y hy => eq_of_id_eq (hentity x hx) (hentity y hy)) hes

namespace Linked

/-- Links in order are so in any tree that has the same. -/
theorem of_sameLinks {t' : Tree} (ht : t.Linked) (h : t.SameLinks t') : t'.Linked where
  entity_id he := ht.entity_id (by rwa [h.entity] at he)
  parent_eq_none_iff he := by
    rw [h.entity] at he
    rw [h.parent, ht.parent_eq_none_iff he]
  parent_entity hp := by
    rw [h.parent] at hp
    simpa only [h.entity] using ht.parent_entity hp
  mem_children_iff := by simp only [h.children, h.entity, h.parentOf_iff, ht.mem_children_iff,
    implies_true]
  children_nodup id := by
    rw [h.children]
    exact ht.children_nodup id

/-! ## Chains upward -/

/-- The chain above an entity ends, and its length is the depth of the entity's kind. -/
theorem exists_ancestry_of_entity (ht : t.Linked) (he : t.entity id = some e) :
    ∃ above, t.Ancestry id above ∧ above.length = e.kind.depth := by
  -- a parent is one less deep
  generalize hd : e.kind.depth = d
  induction d generalizing id e with
  | zero =>
    have hroot : e.kind = .institution := by
      cases hk : e.kind <;> simp [hk, Kind.depth] at hd
      rfl
    exact ⟨[], .root ((ht.parent_eq_none_iff he).2 hroot), rfl⟩
  | succ d ih =>
    cases hp : t.parent id with
    | none =>
      rw [(ht.parent_eq_none_iff he).1 hp] at hd
      cases hd
    | some p =>
      obtain ⟨e', he', hpe, hkind⟩ := ht.parent_entity hp
      rw [he, Option.some.injEq] at he'
      subst he'
      have hdepth := Kind.depth_of_above hkind
      obtain ⟨above, habove, hlen⟩ := ih hpe (by omega)
      exact ⟨p :: above, .link hp habove, by simpa using hlen⟩

/-- No entity is deeper than there are ids. -/
theorem depth_le_length_ids (ht : t.Linked) (he : t.entity id = some e) :
    e.kind.depth ≤ t.ids.length := by
  obtain ⟨above, habove, hlen⟩ := ht.exists_ancestry_of_entity he
  have hbound := habove.length_lt_bound
  rw [bound] at hbound
  omega

/-- Nothing is deeper than the bound of a tree. -/
theorem depthBelow_bound (ht : t.Linked) : t.DepthBelow t.bound :=
  fun he => Nat.lt_succ_of_le (ht.depth_le_length_ids he)

/-- An id without entity has no parent. -/
theorem parent_eq_none_of_unknown (ht : t.Linked) (hid : t.entity id = none) :
    t.parent id = none := by
  cases hp : t.parent id with
  | none => rfl
  | some p =>
    obtain ⟨e, he, -⟩ := ht.parent_entity hp
    rw [hid] at he
    cases he

/-- Every chain ends. -/
theorem exists_ancestry (ht : t.Linked) (id : EntityId) : ∃ above, t.Ancestry id above := by
  cases he : t.entity id with
  | none => exact ⟨[], .root (ht.parent_eq_none_of_unknown he)⟩
  | some e =>
    obtain ⟨above, habove, -⟩ := ht.exists_ancestry_of_entity he
    exact ⟨above, habove⟩

/-- What holds at the roots and passes from parents to children holds everywhere. -/
theorem induction_upward (ht : t.Linked) {P : EntityId → Prop}
    (root : ∀ id, t.parent id = none → P id)
    (link : ∀ id p, t.parent id = some p → P p.id → P id) (id : EntityId) : P id := by
  obtain ⟨above, h⟩ := ht.exists_ancestry id
  induction h with
  | root hp => exact root _ hp
  | link hp _ ih => exact link _ _ hp ih

/-- A parent is found under its id. -/
theorem entity_parent (ht : t.Linked) (hp : t.parent id = some p) : t.entity p.id = some p := by
  obtain ⟨e, -, hpe, -⟩ := ht.parent_entity hp
  exact hpe

/-- An entity is one level below its parent. -/
theorem depth_of_parent (ht : t.Linked) (he : t.entity id = some e) (hp : t.parent id = some p) :
    e.kind.depth = p.kind.depth + 1 := by
  obtain ⟨e', he', -, hkind⟩ := ht.parent_entity hp
  rw [he, Option.some.injEq] at he'
  subst he'
  exact Kind.depth_of_above hkind

/-- Whatever is at or above an entity is an entity. -/
theorem entity_of_atOrAbove (ht : t.Linked) (h : t.AtOrAbove a id) (he : t.entity id = some e) :
    ∃ x, t.entity a = some x ∧ x.kind.depth ≤ e.kind.depth := by
  induction h generalizing e with
  | refl => exact ⟨e, he, Nat.le_refl _⟩
  | tail _ hlink ih =>
    obtain ⟨p, hp, rfl⟩ := hlink
    obtain ⟨x, hx, hle⟩ := ih (ht.entity_parent hp)
    exact ⟨x, hx, by have := ht.depth_of_parent he hp; omega⟩

/-- Whatever is listed on a chain is an entity. -/
theorem entity_of_mem_ancestry (ht : t.Linked) {above : List Entity} (h : t.Ancestry id above)
    (hx : x ∈ above) : t.entity x.id = some x := by
  induction h with
  | root => cases hx
  | link hp _ ih =>
    rcases List.mem_cons.1 hx with rfl | hx
    · exact ht.entity_parent hp
    · exact ih hx

/-- Entities strictly above others are of a kind strictly less deep. -/
theorem depth_lt_of_above (ht : t.Linked) (h : t.Above a id) (ha : t.entity a = some x)
    (he : t.entity id = some e) : x.kind.depth < e.kind.depth := by
  obtain ⟨b, hab, p, hp, rfl⟩ := Relation.TransGen.tail'_iff.1 h
  obtain ⟨y, hy, hle⟩ := ht.entity_of_atOrAbove hab (ht.entity_parent hp)
  rw [ha, Option.some.injEq] at hy
  subst hy
  have := ht.depth_of_parent he hp
  omega

/-- No entity is its own ancestor. -/
theorem not_above_self (ht : t.Linked) : ¬ t.Above id id := by
  intro h
  obtain ⟨b, hab, p, hp, rfl⟩ := Relation.TransGen.tail'_iff.1 h
  obtain ⟨e, he, -⟩ := ht.parent_entity hp
  exact Nat.lt_irrefl _ (ht.depth_lt_of_above h he he)

/-- Of two different entities, only one is above the other. -/
theorem atOrAbove_antisymm (ht : t.Linked) (hab : t.AtOrAbove a b) (hba : t.AtOrAbove b a) :
    a = b := by
  rcases atOrAbove_iff_eq_or_above.1 hab with rfl | habove
  · rfl
  · exact absurd (Relation.TransGen.trans_left habove hba) ht.not_above_self

/-- An entity is not at or above its parent. -/
theorem not_atOrAbove_parent (ht : t.Linked) (hp : t.parent a = some p) :
    ¬ t.AtOrAbove a p.id := by
  intro h
  exact ht.not_above_self (Relation.TransGen.tail' h ⟨p, hp, rfl⟩)

/-- Of two entities with the same parent, neither is above the other. -/
theorem eq_of_siblings (ht : t.Linked) (ha : t.parent a = some p) (hb : t.parent b = some p)
    (h : t.AtOrAbove a b) : a = b := by
  rcases (atOrAbove_iff_of_parent hb).1 h with rfl | h
  · rfl
  · exact absurd h (ht.not_atOrAbove_parent ha)

/-- Nothing is below two entities with the same parent. -/
theorem not_below_sibling (ht : t.Linked) {y : EntityId} (ha : t.parent a = some p)
    (hb : t.parent b = some p) (hab : a ≠ b) (hay : t.AtOrAbove a y) : ¬ t.AtOrAbove b y := by
  intro hby
  rcases hay.total hby with h | h
  · exact hab (ht.eq_of_siblings ha hb h)
  · exact hab (ht.eq_of_siblings hb ha h).symm

/-! ## Rights -/

/-- Below a parent a user has what the entity itself grants and all rights on the parent. -/
theorem rights_eq (ht : t.Linked) {u : User} (hp : t.parent id = some p) :
    t.rights id u = t.localRights id u.id ∪ t.rights p.id u := by
  obtain ⟨above, h⟩ := ht.exists_ancestry p.id
  exact rights_of_parent hp h

end Linked

/-! ## Walks downward -/

private theorem mapM_eq_map {α β : Type} {f : α → Option β} {g : α → β} {l : List α}
    (h : ∀ a ∈ l, f a = some (g a)) : l.mapM f = some (l.map g) := by
  induction l with
  | nil => rfl
  | cons a l ih =>
    have ha := h a (List.mem_cons_self ..)
    have hl := ih fun b hb => h b (List.mem_cons_of_mem _ hb)
    simp [List.mapM_cons, ha, hl]

/-- An entity and what stands at most `n` links below it, in depth-first order. -/
def descend (t : Tree) : Nat → Entity → List Entity
  | 0, e => [e]
  | n + 1, e => e :: (t.children e.id).flatMap (t.descend n)

/-- An entity and everything below it: no badge class is more than three links below. -/
def subtree (t : Tree) (e : Entity) : List Entity := t.descend (3 - e.kind.depth) e

namespace Linked

/-- Children are known. -/
theorem entity_child (ht : t.Linked) (hc : c ∈ t.children id) : t.entity c.id = some c :=
  (ht.mem_children_iff.1 hc).1

/-- Children have the entity for a parent. -/
theorem parent_child (ht : t.Linked) (he : t.entity id = some e) (hc : c ∈ t.children id) :
    t.parent c.id = some e := by
  obtain ⟨-, p, hp, rfl⟩ := ht.mem_children_iff.1 hc
  rw [ht.entity_parent hp, Option.some.injEq] at he
  rw [hp, he]

/-- Children are one level below the entity. -/
theorem depth_child (ht : t.Linked) (he : t.entity id = some e) (hc : c ∈ t.children id) :
    c.kind.depth = e.kind.depth + 1 :=
  ht.depth_of_parent (ht.entity_child hc) (ht.parent_child he hc)

/-- An entity has no children, or they are all one link nearer to the deepest level. -/
theorem level_cases (ht : t.Linked) (he : t.entity e.id = some e) :
    t.children e.id = [] ∧ 3 - e.kind.depth = 0 ∨
      ∃ k, 3 - e.kind.depth = k + 1 ∧ ∀ c ∈ t.children e.id, 3 - c.kind.depth = k := by
  by_cases hd : e.kind.depth = 3
  · refine .inl ⟨List.eq_nil_iff_forall_not_mem.2 fun c hc => ?_, by omega⟩
    have hdepth := ht.depth_child he hc
    have := c.kind.depth_le_three
    omega
  · have := e.kind.depth_le_three
    refine .inr ⟨2 - e.kind.depth, by omega, fun c hc => ?_⟩
    have hdepth := ht.depth_child he hc
    omega

/-- The subtree of an entity is the entity and the subtrees of its children. -/
theorem subtree_eq (ht : t.Linked) (he : t.entity e.id = some e) :
    t.subtree e = e :: (t.children e.id).flatMap t.subtree := by
  rcases ht.level_cases he with ⟨hnil, hlevel⟩ | ⟨k, hlevel, hchildren⟩
  · rw [subtree, hlevel, descend, hnil]
    rfl
  · rw [subtree, hlevel, descend]
    congr 1
    refine List.flatMap_congr fun c hc => ?_
    rw [subtree, hchildren c hc]

/-- What holds of an entity once it holds of its children holds of every entity. -/
theorem induction_downward (ht : t.Linked) {P : Entity → Prop}
    (step : ∀ e, t.entity e.id = some e → (∀ c ∈ t.children e.id, P c) → P e)
    (e : Entity) (he : t.entity e.id = some e) : P e := by
  -- children are nearer to the deepest kind
  generalize hd : 3 - e.kind.depth = d
  induction d generalizing e with
  | zero =>
    refine step e he fun c hc => ?_
    have hdepth := ht.depth_child he hc
    have := c.kind.depth_le_three
    omega
  | succ d ih =>
    refine step e he fun c hc => ih c (ht.entity_child hc) ?_
    have hdepth := ht.depth_child he hc
    omega

/-- What an entity is at or above is the entity itself or below one of its children. -/
theorem atOrAbove_iff_children (ht : t.Linked) (he : t.entity id = some e) :
    t.AtOrAbove id a ↔ id = a ∨ ∃ c ∈ t.children id, t.AtOrAbove c.id a := by
  constructor
  · intro h
    rcases Relation.ReflTransGen.cases_head h with rfl | ⟨b, ⟨p, hp, hpid⟩, hba⟩
    · exact .inl rfl
    · obtain ⟨c, hc, -⟩ := ht.parent_entity hp
      have hcb : c.id = b := ht.entity_id hc
      subst hcb
      exact .inr ⟨c, ht.mem_children_iff.2 ⟨hc, p, hp, hpid⟩, hba⟩
  · rintro (rfl | ⟨c, hc, hca⟩)
    · rfl
    · have hid := ht.entity_id he
      subst hid
      exact .trans (.below (.refl t _) (ht.parent_child he hc)) hca

/-- What is not at or above an entity is at or above its children only where it is one of them. -/
theorem atOrAbove_child_iff (ht : t.Linked) (hc : c ∈ t.children id) (ha : ¬ t.AtOrAbove a id) :
    t.AtOrAbove a c.id ↔ a = c.id := by
  obtain ⟨-, p, hp, rfl⟩ := ht.mem_children_iff.1 hc
  rw [atOrAbove_iff_of_parent hp, or_iff_left ha]

/-- The subtree of an entity holds the entities that it is at or above. -/
theorem mem_subtree_iff (ht : t.Linked) (he : t.entity e.id = some e) :
    x ∈ t.subtree e ↔ t.entity x.id = some x ∧ t.AtOrAbove e.id x.id := by
  refine ht.induction_downward (P := fun e => x ∈ t.subtree e ↔
    t.entity x.id = some x ∧ t.AtOrAbove e.id x.id) ?_ e he
  intro e he ih
  rw [ht.subtree_eq he, List.mem_cons, List.mem_flatMap, ht.atOrAbove_iff_children he]
  constructor
  · rintro (rfl | ⟨c, hc, hx⟩)
    · exact ⟨he, .inl rfl⟩
    · obtain ⟨hxe, hcx⟩ := (ih c hc).1 hx
      exact ⟨hxe, .inr ⟨c, hc, hcx⟩⟩
  · rintro ⟨hxe, hid | ⟨c, hc, hcx⟩⟩
    · exact .inl (eq_of_id_eq hxe he hid.symm)
    · exact .inr ⟨c, hc, (ih c hc).2 ⟨hxe, hcx⟩⟩

/-- Nothing is below two children of one entity. -/
theorem pairwise_children (ht : t.Linked) (he : t.entity id = some e) :
    (t.children id).Pairwise fun c d => ∀ y, t.AtOrAbove c.id y → ¬ t.AtOrAbove d.id y := by
  refine (ht.children_nodup id).imp_of_mem fun {c d} hc hd hcd y => ?_
  refine ht.not_below_sibling (ht.parent_child he hc) (ht.parent_child he hd) fun hid => hcd ?_
  exact eq_of_id_eq (ht.entity_child hc) (ht.entity_child hd) hid

/-- No entity is listed twice in a subtree. -/
theorem nodup_subtree (ht : t.Linked) (he : t.entity e.id = some e) : (t.subtree e).Nodup := by
  refine ht.induction_downward (P := fun e => (t.subtree e).Nodup) ?_ e he
  intro e he ih
  have hbelow : ∀ c ∈ t.children e.id, ∀ x ∈ t.subtree c, t.AtOrAbove c.id x.id :=
    fun c hc x hx => ((ht.mem_subtree_iff (ht.entity_child hc)).1 hx).2
  rw [ht.subtree_eq he, List.nodup_cons, List.nodup_flatMap]
  refine ⟨fun hmem => ?_, ih, ?_⟩
  · obtain ⟨c, hc, hx⟩ := List.mem_flatMap.1 hmem
    exact ht.not_atOrAbove_parent (ht.parent_child he hc) (hbelow c hc e hx)
  · exact (ht.pairwise_children he).imp_of_mem fun {c d} hc hd hcd x hxc hxd =>
      hcd x.id (hbelow c hc x hxc) (hbelow d hd x hxd)

/-- A walk downward that has a step for each level lists the subtree. -/
theorem walkWithin_downward (ht : t.Linked) (he : t.entity e.id = some e)
    (hn : t.ids.length < n + e.kind.depth) : t.walkWithin n e .downward = some (t.subtree e) := by
  induction n generalizing e with
  | zero =>
    -- there is always a step left, as no entity is deeper than there are ids
    have hdepth := ht.depth_le_length_ids he
    omega
  | succ n ih =>
    have hchildren : ∀ c ∈ t.children e.id, t.walkWithin n c .downward = some (t.subtree c) := by
      intro c hc
      refine ih (ht.entity_child hc) ?_
      have hdepth := ht.depth_child he hc
      omega
    have hmap := mapM_eq_map hchildren
    rw [Reach.downward] at hmap
    simp [walkWithin, Reach.downward, hmap, ht.subtree_eq he, List.flatMap_def]

/-! ## Branches -/

/-- The branch upward is the entity and then the chain above it. -/
theorem branch_upward (ht : t.Linked) (he : t.entity id = some e) {above : List Entity}
    (h : t.Ancestry id above) : t.branch id .upward = e :: above := by
  have hid := ht.entity_id he
  subst hid
  rw [branch, he]
  simp [h.walkWithin h.length_lt_bound]

/-- The branch downward is the subtree. -/
theorem branch_downward (ht : t.Linked) (he : t.entity id = some e) :
    t.branch id .downward = t.subtree e := by
  have hid := ht.entity_id he
  subst hid
  rw [branch, he]
  simp [ht.walkWithin_downward he (n := t.bound) (by rw [bound]; omega)]

/-- The full branch: the entity, its chain, and everything below it. -/
theorem branch_full (ht : t.Linked) (he : t.entity id = some e) {above : List Entity}
    (h : t.Ancestry id above) : t.branch id .full = e :: (above ++ (t.subtree e).tail) := by
  have hid := ht.entity_id he
  subst hid
  have hchildren : ∀ c ∈ t.children e.id,
      t.walkWithin t.ids.length c .downward = some (t.subtree c) := by
    intro c hc
    have hdepth := ht.depth_child he hc
    exact ht.walkWithin_downward (ht.entity_child hc) (by omega)
  have hmap := mapM_eq_map hchildren
  have htail : (t.subtree e).tail = ((t.children e.id).map t.subtree).flatten := by
    rw [ht.subtree_eq he, List.tail_cons, List.flatMap_def]
  simp only [branch, he, bound, walkWithin]
  cases h with
  | root hp => simp [Reach.full, hp, hmap, htail]
  | @link _ p above hp h =>
    have hlen : above.length < t.ids.length := by
      simpa [bound] using (Ancestry.link hp h).length_lt_bound
    simp [Reach.full, hp, h.walkWithin hlen, hmap, htail]

/-- There is no branch of what is unknown. -/
theorem branch_of_unknown (t : Tree) {reach : Reach} (hid : t.entity id = none) :
    t.branch id reach = [] := by
  rw [branch, hid]

/-- The branch upward holds the entities at or above the id. -/
theorem mem_branch_upward_iff (ht : t.Linked) :
    x ∈ t.branch id .upward ↔ t.entity x.id = some x ∧ t.AtOrAbove x.id id := by
  cases he : t.entity id with
  | none =>
    rw [branch_of_unknown t he, atOrAbove_iff_of_root (ht.parent_eq_none_of_unknown he)]
    refine ⟨fun h => (List.not_mem_nil h).elim, ?_⟩
    rintro ⟨hx, rfl⟩
    rw [he] at hx
    cases hx
  | some e =>
    have hid := ht.entity_id he
    subst hid
    obtain ⟨above, h⟩ := ht.exists_ancestry e.id
    rw [ht.branch_upward he h, List.mem_cons, h.atOrAbove_iff]
    constructor
    · rintro (rfl | hx)
      · exact ⟨he, .inl rfl⟩
      · exact ⟨ht.entity_of_mem_ancestry h hx, .inr ⟨x, hx, rfl⟩⟩
    · rintro ⟨hx, heq | ⟨p, hp, hpx⟩⟩
      · exact .inl (eq_of_id_eq hx he heq)
      · obtain rfl := eq_of_id_eq (ht.entity_of_mem_ancestry h hp) hx hpx
        exact .inr hp

/-- The branch downward holds the entities that the id is at or above. -/
theorem mem_branch_downward_iff (ht : t.Linked) :
    x ∈ t.branch id .downward ↔ t.entity x.id = some x ∧ t.AtOrAbove id x.id := by
  cases he : t.entity id with
  | none =>
    rw [branch_of_unknown t he]
    refine ⟨fun h => (List.not_mem_nil h).elim, ?_⟩
    rintro ⟨hx, h⟩
    obtain ⟨y, hy, -⟩ := ht.entity_of_atOrAbove h hx
    rw [he] at hy
    cases hy
  | some e =>
    have hid := ht.entity_id he
    subst hid
    rw [ht.branch_downward he, ht.mem_subtree_iff he]

/-- The full branch holds the entities above and below, and the entity itself. -/
theorem mem_branch_full_iff (ht : t.Linked) :
    x ∈ t.branch id .full ↔
      t.entity x.id = some x ∧ (t.AtOrAbove x.id id ∨ t.AtOrAbove id x.id) := by
  rw [and_or_left, ← ht.mem_branch_upward_iff, ← ht.mem_branch_downward_iff]
  cases he : t.entity id with
  | none => simp [branch_of_unknown t he]
  | some e =>
    obtain ⟨above, h⟩ := ht.exists_ancestry id
    rw [ht.branch_full he h, ht.branch_upward he h, ht.branch_downward he]
    have hid := ht.entity_id he
    subst hid
    rw [ht.subtree_eq he]
    simp only [List.tail_cons, List.mem_cons, List.mem_append]
    tauto

end Linked

end StaffRights.Tree
