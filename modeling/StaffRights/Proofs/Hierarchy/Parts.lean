import StaffRights.Proofs.Hierarchy.Deletion
import StaffRights.Proofs.Tree.Part

/-!
# Parts of a hierarchy

One hierarchy is a part of another if it has the nodes of a closed set of ids and no others. What
the operations on links and staff do to ids of the set, they do to the part in the same way, and
outside of the set they do nothing.
-/

namespace StaffRights.Hierarchy

variable {own : EntityId → Prop} {h h' k k' : Hierarchy} {id : EntityId} {e p : Entity}
  {m : Membership} {mid : MembershipId}

/-- `k` has the nodes of `h` with ids in the set, and no others. -/
structure IsPart (own : EntityId → Prop) (h k : Hierarchy) : Prop where
  inside : ∀ {id : EntityId}, own id → k.node? id = h.node? id
  outside : ∀ {id : EntityId}, ¬ own id → k.node? id = none

/-- `h` and `h'` have the same nodes outside of the set. -/
def KeptOutside (own : EntityId → Prop) (h h' : Hierarchy) : Prop :=
  ∀ ⦃id : EntityId⦄, ¬ own id → h'.node? id = h.node? id

theorem KeptOutside.refl (own : EntityId → Prop) (h : Hierarchy) : KeptOutside own h h :=
  fun _ _ => rfl

namespace IsPart

variable (hp : IsPart own h k)

include hp

/-- The tree of a part is the same on the set. -/
theorem sameOn : h.tree.SameOn own k.tree where
  entity hid := by rw [tree_entity, hp.inside hid, tree_entity]
  parent hid := by rw [tree_parent, hp.inside hid, tree_parent]
  children hid := by rw [tree_children, hp.inside hid, tree_children]
  staff hid := by rw [tree_staff, hp.inside hid, tree_staff]
  awarded hid := by rw [tree_awarded, hp.inside hid, tree_awarded]

/-- Everything in a part is in the set. -/
theorem own_of_node? {n : Node} (hn : k.node? id = some n) : own id := by
  by_contra hid
  rw [hp.outside hid] at hn
  cases hn

/-- What a part knows is in the set. -/
theorem own_of_entity (he : k.tree.entity id = some e) : own id := by
  obtain ⟨n, hn, -⟩ := k.exists_node? he
  exact hp.own_of_node? hn

/-- What has a parent in a part is in the set. -/
theorem own_of_parent (hpar : k.tree.parent id = some p) : own id := by
  obtain ⟨n, hn, -⟩ := Option.bind_eq_some_iff.1 hpar
  exact hp.own_of_node? hn

/-- What has staff in a part is in the set. -/
theorem own_of_staff (hm : m ∈ k.tree.staff id) : own id := by
  rw [tree_staff] at hm
  cases hn : k.node? id with
  | none =>
    rw [hn] at hm
    cases hm
  | some n => exact hp.own_of_node? hn

/-! ## Consistency -/

/-- A part without links to the rest is consistent if its index is that of its staff. -/
theorem consistent (hc : h.Consistent) (hown : h.tree.Closed own)
    (hindex : ∀ {mid : MembershipId} {id : EntityId},
      k.index[mid]? = some id ↔ h.index[mid]? = some id ∧ own id) : k.Consistent where
  linked := by
    have hs := hp.sameOn
    refine ⟨fun he => ?_, fun he => ?_, fun {id p} hpar => ?_, fun {id c} => ?_, fun id => ?_⟩
    · exact hc.linked.entity_id (hs.entity (hp.own_of_entity he) ▸ he)
    · have hid := hp.own_of_entity he
      rw [hs.parent hid]
      exact hc.linked.parent_eq_none_iff (hs.entity hid ▸ he)
    · have hid := hp.own_of_parent hpar
      rw [hs.parent hid] at hpar
      rw [hs.entity hid, hs.entity ((hown hpar).2 hid)]
      exact hc.linked.parent_entity hpar
    · by_cases hid : own id
      · rw [hs.children hid, hc.linked.mem_children_iff]
        constructor
        · rintro ⟨hce, q, hq, rfl⟩
          have hcid := (hown hq).1 hid
          exact ⟨(hs.entity hcid).trans hce, q, (hs.parent hcid).trans hq, rfl⟩
        · rintro ⟨hce, q, hq, rfl⟩
          have hcid := hp.own_of_parent hq
          exact ⟨(hs.entity hcid).symm.trans hce, q, (hs.parent hcid).symm.trans hq, rfl⟩
      · -- outside there are neither children nor a parent
        constructor
        · intro hmem
          rw [tree_children, hp.outside hid] at hmem
          cases hmem
        · rintro ⟨-, q, hq, rfl⟩
          have hcid := hp.own_of_parent hq
          exact absurd ((hown ((hs.parent hcid).symm.trans hq)).2 hcid) hid
    · by_cases hid : own id
      · rw [hs.children hid]
        exact hc.linked.children_nodup id
      · rw [tree_children, hp.outside hid]
        exact List.nodup_nil
  staff_entity {id m} hm := by
    have hid := hp.own_of_staff hm
    rw [hp.sameOn.staff hid] at hm
    rw [hp.sameOn.entity hid]
    exact hc.staff_entity hm
  staff_nodup id := by
    by_cases hid : own id
    · rw [hp.sameOn.staff hid]
      exact hc.staff_nodup id
    · rw [tree_staff, hp.outside hid]
      exact List.nodup_nil
  index_iff {mid id} := by
    rw [hindex, hc.index_iff]
    constructor
    · rintro ⟨⟨m, hm, hmid⟩, hid⟩
      exact ⟨m, (hp.sameOn.staff hid).symm ▸ hm, hmid⟩
    · rintro ⟨m, hm, hmid⟩
      have hid := hp.own_of_staff hm
      exact ⟨⟨m, hp.sameOn.staff hid ▸ hm, hmid⟩, hid⟩

/-- If a part is consistent and nothing outside was changed, no link has come to lead outside. -/
theorem closed (hown : h'.tree.Closed own) (hkept : KeptOutside own h' h) (hk : k.Consistent) :
    h.tree.Closed own := by
  intro id p hpar
  by_cases hid : own id
  · rw [← hp.sameOn.parent hid] at hpar
    exact iff_of_true (hp.own_of_entity (hk.linked.entity_parent hpar)) hid
  · rw [tree_parent, hkept hid] at hpar
    exact hown hpar

/-! ## Operations -/

/-- Modifying a node of the set does the same to the part. -/
theorem modify (hid : own id) (f : Node → Node) :
    IsPart own (h.modify id f) (k.modify id f) ∧ KeptOutside own h (h.modify id f) := by
  have hne : ∀ {j}, ¬ own j → id ≠ j := fun hj heq => hj (heq ▸ hid)
  refine ⟨⟨fun {j} hj => ?_, fun {j} hj => ?_⟩, fun j hj => ?_⟩
  · rw [node?_modify, node?_modify, hp.inside hj]
  · rw [node?_modify, if_neg (hne hj), hp.outside hj]
  · rw [node?_modify, if_neg (hne hj)]

/-- Attaching an entity of the set below one of the set does the same to the part. -/
theorem attach {q : Option Entity} (he : own e.id) (hq : ∀ p, q = some p → own p.id) :
    IsPart own (h.attach e q) (k.attach e q) ∧ KeptOutside own h (h.attach e q) := by
  have hne : ∀ {j}, ¬ own j → e.id ≠ j := fun hj heq => hj (heq ▸ he)
  have hqne : ∀ {j}, ¬ own j → q.map (·.id) ≠ some j := by
    intro j hj heq
    obtain ⟨p, hp, rfl⟩ := Option.map_eq_some_iff.1 heq
    exact hj (hq p hp)
  refine ⟨⟨fun {j} hj => ?_, fun {j} hj => ?_⟩, fun j hj => ?_⟩
  · rw [node?_attach, node?_attach, hp.inside hj]
  · rw [node?_attach, if_neg (hne hj), if_neg (hqne hj), hp.outside hj]
  · rw [node?_attach, if_neg (hne hj), if_neg (hqne hj)]

/-- Relinking inside of the set does the same to the part, as the old parent is in the set as well.
-/
theorem relink (hown : h.tree.Closed own) (he : h.tree.entity id = some e) (hid : own id)
    (hpid : own p.id) :
    IsPart own (h.relink id p) (k.relink id p) ∧ KeptOutside own h (h.relink id p) := by
  obtain ⟨n, hn, rfl⟩ := h.exists_node? he
  have hk : k.node? id = some n := (hp.inside hid).trans hn
  refine ⟨⟨fun {j} hj => ?_, fun {j} hj => ?_⟩, fun j hj => ?_⟩
  · rw [h.node?_relink hn, k.node?_relink hk, hp.inside hj]
  · rw [k.node?_relink hk, hp.outside hj, Option.map_none]
  · have hidj : id ≠ j := fun heq => hj (heq ▸ hid)
    have hpj : p.id ≠ j := fun heq => hj (heq ▸ hpid)
    have holdj : n.parent.map (·.id) ≠ some j := by
      intro heq
      obtain ⟨q, hq, rfl⟩ := Option.map_eq_some_iff.1 heq
      have hpar : h.tree.parent id = some q := by rw [h.parent_of_node? hn, hq]
      exact hj ((hown hpar).2 hid)
    rw [h.node?_relink hn]
    cases h.node? j <;> simp [hidj, hpj, holdj]

/-- Putting a membership on an entity of the set does the same to the part. -/
theorem putMembership (hm : own m.entity.id) :
    IsPart own (h.putMembership m) (k.putMembership m) ∧ KeptOutside own h (h.putMembership m) := by
  have hne : ∀ {j}, ¬ own j → m.entity.id ≠ j := fun hj heq => hj (heq ▸ hm)
  refine ⟨⟨fun {j} hj => ?_, fun {j} hj => ?_⟩, fun j hj => ?_⟩
  · rw [node?_putMembership, node?_putMembership, hp.inside hj]
  · rw [node?_putMembership, if_neg (hne hj), hp.outside hj]
  · rw [node?_putMembership, if_neg (hne hj)]

section

variable (hc : h.Consistent) (hk : k.Consistent)

include hc hk

/-- Dropping a membership that is not outside of the set does the same to the part. -/
theorem dropMembership (hmid : ∀ id, h.index[mid]? = some id → own id) :
    IsPart own (h.dropMembership mid).2 (k.dropMembership mid).2 ∧
      KeptOutside own h (h.dropMembership mid).2 := by
  refine ⟨⟨fun {j} hj => ?_, fun {j} hj => ?_⟩, fun j hj => ?_⟩
  · rw [hc.node?_dropMembership, hk.node?_dropMembership, hp.inside hj]
  · rw [hk.node?_dropMembership, hp.outside hj, Option.map_none]
  · rw [Hierarchy.node?_dropMembership, if_neg fun hindex => hj (hmid j hindex)]

open Classical in
/-- The same subtree is dropped, and the same is reported. -/
theorem dropSubtree (hown : h.tree.Closed own) (he : h.tree.entity e.id = some e)
    (heid : own e.id) :
    (k.dropSubtree e).2 = (h.dropSubtree e).2 ∧
      IsPart own (h.dropSubtree e).1 (k.dropSubtree e).1 ∧
      KeptOutside own h (h.dropSubtree e).1 := by
  have hs := hp.sameOn
  have hke : k.tree.entity e.id = some e := (hs.entity heid).trans he
  obtain ⟨-, hw⟩ := hc.dropSubtree he
  obtain ⟨-, hkw⟩ := hk.dropSubtree hke
  have hbelow : ∀ {y}, h.tree.AtOrAbove e.id y → own y := fun hy => (hown.atOrAbove_iff hy).1 heid
  -- links do not lead out of the set, so parent and child are both in it or neither is
  have hchild : ∀ {j n c}, h.node? j = some n → c ∈ n.children → (own c.id ↔ own j) := by
    intro j n c hn hmem
    have hmem : c ∈ h.tree.children j := by rwa [tree_children, hn]
    obtain ⟨-, q, hq, rfl⟩ := hc.linked.mem_children_iff.1 hmem
    exact (hown hq).symm
  refine ⟨?_, ⟨fun {j} hj => ?_, fun {j} hj => ?_⟩, fun j hj => ?_⟩
  · have hlist : k.tree.leavesFirst e = h.tree.leavesFirst e :=
      hc.linked.leavesFirst_congr he fun y hy => hs.children (hbelow hy)
    rw [hc.dropSubtree_removed he, hk.dropSubtree_removed hke, hlist]
    refine Removed.add_congr _ fun x hx => hs.staff ?_
    rw [hc.linked.mem_leavesFirst_iff he] at hx
    exact hbelow hx.2
  · rw [hw j, hkw j, hs.atOrAbove_iff hown hj, hp.inside hj]
    cases hn : h.node? j with
    | none => rfl
    | some n =>
      have hfilter : (n.children.filter fun c => decide ¬ k.tree.AtOrAbove e.id c.id) =
          n.children.filter fun c => decide ¬ h.tree.AtOrAbove e.id c.id := by
        refine List.filter_congr fun c hmem => ?_
        rw [hs.atOrAbove_iff hown ((hchild hn hmem).2 hj)]
      rw [Option.map_some, Option.map_some, hfilter]
  · rw [hkw j, hp.outside hj]
    simp
  · have hgone : ¬ h.tree.AtOrAbove e.id j := fun hgone => hj (hbelow hgone)
    rw [hw j, if_neg hgone]
    cases hn : h.node? j with
    | none => rfl
    | some n =>
      have hfilter : (n.children.filter fun c => decide ¬ h.tree.AtOrAbove e.id c.id) =
          n.children := by
        refine List.filter_eq_self.2 fun c hmem => decide_eq_true fun hgone => ?_
        exact hj ((hchild hn hmem).1 (hbelow hgone))
      rw [Option.map_some, hfilter]

/-- A membership of the set is looked up in the part as in the whole. -/
theorem membership? (hmid : ∀ id, h.index[mid]? = some id → own id) :
    k.membership? mid = h.membership? mid := by
  refine Option.ext fun m => ?_
  rw [hc.membership?_eq_some_iff, hk.membership?_eq_some_iff, mem_memberships_iff,
    mem_memberships_iff]
  constructor
  · rintro ⟨⟨id, hm⟩, hid⟩
    exact ⟨⟨id, hp.sameOn.staff (hp.own_of_staff hm) ▸ hm⟩, hid⟩
  · rintro ⟨⟨id, hm⟩, rfl⟩
    have hid : own id := hmid id (hc.index_iff.2 ⟨m, hm, rfl⟩)
    exact ⟨⟨id, (hp.sameOn.staff hid).symm ▸ hm⟩, rfl⟩

end

end IsPart

end StaffRights.Hierarchy
