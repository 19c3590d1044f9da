import StaffRights.Proofs.Hierarchy.Apart
import StaffRights.Proofs.Hierarchy.Order
import StaffRights.Proofs.Permissions

/-!
# What the records of a snapshot make

Replaying records one after the other makes a hierarchy in which every node can be read off the
records: its children are the records that name it as their parent, in the order of the records, and
its staff are the memberships that name it. `Replayed` says so of the records that were replayed so
far, and each further record that is taken keeps it.
-/

namespace StaffRights

/-- Where no key stands twice, the search for a key finds the element that has it. -/
theorem find?_key_eq_some_iff {α κ : Type} [BEq κ] [LawfulBEq κ] {key : α → κ} {l : List α}
    (hl : (l.map key).Nodup) {k : κ} {a : α} :
    l.find? (key · == k) = some a ↔ a ∈ l ∧ key a = k := by
  constructor
  · intro ha
    exact ⟨List.mem_of_find?_eq_some ha, by simpa using List.find?_some ha⟩
  · rintro ⟨ha, rfl⟩
    cases hfound : l.find? (key · == key a) with
    | none => simpa using List.find?_eq_none.1 hfound a ha
    | some b =>
      have hb : key b = key a := by simpa using List.find?_some hfound
      rw [List.inj_on_of_nodup_map hl (List.mem_of_find?_eq_some hfound) ha hb]

/-- Nothing is found under a key just if no element has it. -/
theorem find?_key_eq_none_iff {α κ : Type} [BEq κ] [LawfulBEq κ] {key : α → κ} {l : List α}
    {k : κ} :
    l.find? (key · == k) = none ↔ k ∉ l.map key := by
  simp

/-! ## Records -/

/-- The membership of a record, on the given entity. -/
def MembershipRecord.on (r : MembershipRecord) (e : Entity) : Membership :=
  ⟨r.id, r.user, e, r.permissions.permissions, r.grantedBy⟩

/-- The membership that a record describes has that record. -/
theorem MembershipRecord.ofMembership_on {r : MembershipRecord} {e : Entity}
    (he : e.id = r.entity) : ofMembership (r.on e) = r := by
  simp [ofMembership, on, he]

namespace EntityRecord

variable {r x : EntityRecord} {es es' : List EntityRecord} {ms : List MembershipRecord}

/-- The record has a place among others: it is of an institution without a parent, or its parent is
recorded among them and of the kind just above. -/
def PlacedIn (r : EntityRecord) (es : List EntityRecord) : Prop :=
  r.kind = .institution ∧ r.parent = none ∨
    ∃ p ∈ es, r.parent = some p.id ∧ r.kind.above = some p.kind

/-- An institution is placed without a parent, and anything else below a record of the kind just
above. -/
theorem placedIn_iff :
    r.PlacedIn es ↔ (r.kind = .institution → r.parent = none) ∧
      (r.kind ≠ .institution → ∃ p ∈ es, r.parent = some p.id ∧ r.kind.above = some p.kind) := by
  constructor
  · rintro (⟨hroot, hnone⟩ | hparent)
    · exact ⟨fun _ => hnone, fun hne => absurd hroot hne⟩
    · have ⟨p, _, _, hkind⟩ := hparent
      exact ⟨fun hroot => absurd hroot (Kind.ne_institution_of_above hkind), fun _ => hparent⟩
  · rintro ⟨hroot, hparent⟩
    by_cases hk : r.kind = .institution
    · exact .inl ⟨hk, hroot hk⟩
    · exact .inr (hparent hk)

/-- What is placed among some records is placed among more. -/
theorem PlacedIn.mono (hr : r.PlacedIn es) (hes : es ⊆ es') : r.PlacedIn es' := by
  rcases hr with hroot | ⟨p, hp, hparent⟩
  · exact .inl hroot
  · exact .inr ⟨p, hes hp, hparent⟩

/-- The node of a record, among the records of a whole hierarchy. -/
def node (es : List EntityRecord) (ms : List MembershipRecord) (r : EntityRecord) : Node where
  entity := r.entity
  parent := r.parent.bind fun p => (es.find? (·.id == p)).map (·.entity)
  children := (es.filter (·.parent == some r.id)).map (·.entity)
  staff := (ms.filter (·.entity == r.id)).map (·.on r.entity)
  awarded := r.awarded

/-- The entity records fit together. -/
structure Sound (es : List EntityRecord) : Prop where
  /-- No id stands twice. -/
  nodup : (es.map (·.id)).Nodup
  /-- Institutions name no parent. -/
  institution : ∀ r ∈ es, r.kind = .institution → r.parent = none
  /-- Everything else names a recorded parent of the kind just above. -/
  parent : ∀ r ∈ es, r.kind ≠ .institution →
    ∃ p ∈ es, r.parent = some p.id ∧ r.kind.above = some p.kind

@[simp] theorem entity_id (r : EntityRecord) : r.entity.id = r.id := rfl

/-- The record of `a` is named as the parent by the record of `x`. -/
def ParentOf (es : List EntityRecord) (a x : EntityId) : Prop :=
  ∃ r ∈ es, r.id = x ∧ r.parent = some a

/-- The record of `a` is that of `x` or of an ancestor of it. -/
def AtOrAbove (es : List EntityRecord) : EntityId → EntityId → Prop :=
  Relation.ReflTransGen (ParentOf es)

namespace Sound

/-- Among records that fit together each one is placed. -/
theorem placed (hs : Sound es) (hr : r ∈ es) : r.PlacedIn es :=
  placedIn_iff.2 ⟨hs.institution r hr, hs.parent r hr⟩

/-- Records with different ids fit together if each one is placed. -/
theorem of_placed (hes : (es.map (·.id)).Nodup) (hplaced : ∀ r ∈ es, r.PlacedIn es) : Sound es where
  nodup := hes
  institution r hr := (placedIn_iff.1 (hplaced r hr)).1
  parent r hr := (placedIn_iff.1 (hplaced r hr)).2

/-- Whatever is named as a parent is recorded. -/
theorem exists_parent (hs : Sound es) (hr : r ∈ es) {p : EntityId} (hp : r.parent = some p) :
    ∃ q ∈ es, q.id = p ∧ r.kind.above = some q.kind := by
  rcases hs.placed hr with ⟨-, hnone⟩ | ⟨q, hq, hparent, hkind⟩
  · rw [hnone] at hp
    cases hp
  · rw [hparent, Option.some.injEq] at hp
    exact ⟨q, hq, hp, hkind⟩

/-- Records with the same parent are of the same level. -/
theorem depth_eq_of_parent_eq (hs : Sound es) (hr : r ∈ es) (hx : x ∈ es) {p : EntityId}
    (hrp : r.parent = some p) (hxp : x.parent = some p) : r.kind.depth = x.kind.depth := by
  obtain ⟨q, hq, rfl, hkind⟩ := hs.exists_parent hr hrp
  obtain ⟨q', hq', hid, hkind'⟩ := hs.exists_parent hx hxp
  obtain rfl := List.inj_on_of_nodup_map hs.nodup hq hq' hid.symm
  rw [Kind.depth_of_above hkind, Kind.depth_of_above hkind']

/-- One record more fits if its id is new and it is placed among the others. -/
theorem snoc (hs : Sound es) (hnew : r.id ∉ es.map (·.id)) (hplaced : r.PlacedIn es) :
    Sound (es ++ [r]) := by
  refine of_placed ?_ fun x hx => ?_
  · rw [List.map_append, List.nodup_append]
    refine ⟨hs.nodup, List.nodup_singleton _, fun a ha b hb => ?_⟩
    rw [List.map_singleton, List.mem_singleton] at hb
    rintro rfl
    exact hnew (hb ▸ ha)
  · rcases List.mem_append.1 hx with hx | hx
    · exact (hs.placed hx).mono (List.subset_append_left ..)
    · rw [List.mem_singleton.1 hx]
      exact hplaced.mono (List.subset_append_left ..)

/-- The node of a record is linked to the entity of its parent's record. -/
theorem node_parent (hs : Sound es) {p : EntityRecord} (hp : p ∈ es) (hr : r.parent = some p.id) :
    (r.node es ms).parent = some p.entity := by
  rw [node, hr, Option.bind_some, (find?_key_eq_some_iff hs.nodup).2 ⟨hp, rfl⟩, Option.map_some]

/-- The parent of a node is the one that its record names. -/
theorem map_id_node_parent (hs : Sound es) (hr : r.PlacedIn es) :
    (r.node es ms).parent.map (·.id) = r.parent := by
  rcases hr with ⟨-, hnone⟩ | ⟨p, hp, hparent, -⟩
  · simp [node, hnone]
  · rw [hs.node_parent hp hparent, hparent]
    rfl

/-- The node of a record has that record. -/
theorem ofNode_node (hs : Sound es) (hr : r ∈ es) : ofNode (r.node es ms) = r := by
  rw [ofNode, hs.map_id_node_parent (hs.placed hr)]
  rfl

/-- The node of a record is linked just where its parent's record is. -/
theorem node_parent_eq_some_iff (hs : Sound es) {p : Entity} :
    (r.node es ms).parent = some p ↔ ∃ q ∈ es, r.parent = some q.id ∧ q.entity = p := by
  constructor
  · intro hp
    obtain ⟨i, hi, hp⟩ := Option.bind_eq_some_iff.1 hp
    obtain ⟨q, hfound, rfl⟩ := Option.map_eq_some_iff.1 hp
    obtain ⟨hq, rfl⟩ := (find?_key_eq_some_iff hs.nodup).1 hfound
    exact ⟨q, hq, hi, rfl⟩
  · rintro ⟨q, hq, hparent, rfl⟩
    exact hs.node_parent hq hparent

/-- A further record gives its parent a child, and changes no other node. -/
theorem node_snoc (hs : Sound es) (hs' : Sound (es ++ [r])) (hx : x ∈ es) :
    x.node (es ++ [r]) ms = { x.node es ms with
      children := (x.node es ms).children ++ if r.parent = some x.id then [r.entity] else [] } := by
  have hparent : (x.node (es ++ [r]) ms).parent = (x.node es ms).parent := by
    rcases hs.placed hx with ⟨-, hnone⟩ | ⟨p, hp, hp', -⟩
    · simp [node, hnone]
    · rw [hs.node_parent hp hp', hs'.node_parent (List.mem_append_left _ hp) hp']
  have hchildren : (x.node (es ++ [r]) ms).children =
      (x.node es ms).children ++ if r.parent = some x.id then [r.entity] else [] := by
    by_cases hr : r.parent = some x.id <;> simp [node, hr]
  simp only [node] at hparent hchildren ⊢
  rw [hparent, hchildren]

/-- A record that has just been taken is named by none as the parent. -/
theorem node_last (hs : Sound es) (hnew : r.id ∉ es.map (·.id)) (hplaced : r.PlacedIn es) :
    r.node (es ++ [r]) [] =
      { entity := r.entity, parent := (r.node (es ++ [r]) []).parent, awarded := r.awarded } := by
  have hnone : ∀ y ∈ es ++ [r], y.parent ≠ some r.id := by
    intro y hy hparent
    have hplaced : y.PlacedIn es := by
      rcases List.mem_append.1 hy with hy | hy
      · exact hs.placed hy
      · rwa [List.mem_singleton.1 hy]
    rcases hplaced with ⟨-, hnone⟩ | ⟨p, hp, hp', -⟩
    · rw [hnone] at hparent
      cases hparent
    · rw [hp', Option.some.injEq] at hparent
      exact hnew (List.mem_map.2 ⟨p, hp, hparent⟩)
  have hchildren : (r.node (es ++ [r]) []).children = [] := by
    rw [node, List.map_eq_nil_iff, List.filter_eq_nil_iff]
    simpa using hnone
  rw [← hchildren]
  rfl

/-- In an order that puts higher levels first, each record finds its parent before it. -/
theorem placed_before {done todo : List EntityRecord} (hs : Sound (done ++ r :: todo))
    (hsorted : (done ++ r :: todo).Pairwise fun a b => a.kind.depth ≤ b.kind.depth) :
    r.id ∉ done.map (·.id) ∧ r.PlacedIn done := by
  have hnodup := hs.nodup
  rw [List.map_append, List.map_cons, List.nodup_append] at hnodup
  refine ⟨fun hr => hnodup.2.2 r.id hr r.id (List.mem_cons_self ..) rfl, ?_⟩
  rcases hs.placed (r := r) (by simp) with hroot | ⟨p, hp, hparent, hkind⟩
  · exact .inl hroot
  · -- what comes after the record is at least as deep as the record, and its parent is not
    have hdepth := Kind.depth_of_above hkind
    have hafter := (List.pairwise_append.1 hsorted).2.1
    rw [List.pairwise_cons] at hafter
    refine .inr ⟨p, ?_, hparent, hkind⟩
    rcases List.mem_append.1 hp with hp | hp
    · exact hp
    rcases List.mem_cons.1 hp with rfl | hp
    · omega
    · have hle := hafter.1 p hp
      omega

/-- In such an order, what comes first fits together on its own. -/
theorem of_append {done todo : List EntityRecord} (hs : Sound (done ++ todo))
    (hsorted : (done ++ todo).Pairwise fun a b => a.kind.depth ≤ b.kind.depth) : Sound done := by
  refine of_placed (hs.nodup.sublist ((List.sublist_append_left done todo).map _)) fun x hx => ?_
  obtain ⟨before, after, rfl⟩ := List.append_of_mem hx
  rw [List.append_assoc, List.cons_append] at hs hsorted
  exact (hs.placed_before hsorted).2.mono (List.subset_append_left ..)

theorem nil : Sound [] := of_placed List.nodup_nil fun _ hr => absurd hr List.not_mem_nil

end Sound

end EntityRecord

/-! ## Hierarchies made of records -/

namespace Snapshot

open EntityRecord (Sound ParentOf AtOrAbove)

variable {es : List EntityRecord} {ms : List MembershipRecord} {h h' : Hierarchy}
  {r : EntityRecord} {id a x : EntityId} {e p : Entity} {m : Membership}

/-- The hierarchy that the records make when they are replayed in this order. -/
structure Replayed (es : List EntityRecord) (ms : List MembershipRecord) (h : Hierarchy) :
    Prop where
  node : ∀ id, h.node? id = (es.find? (·.id == id)).map (EntityRecord.node es ms)
  index : ∀ mid : MembershipId, h.index[mid]? = (ms.find? (·.id == mid)).map (·.entity)

/-- Records determine the hierarchy. -/
theorem Replayed.unique (hr : Replayed es ms h) (hr' : Replayed es ms h') : h = h' := by
  refine Hierarchy.ext_of_node? (fun id => ?_) fun mid => ?_
  · rw [hr.node, hr'.node]
  · rw [hr.index, hr'.index]

theorem Replayed.empty : Replayed [] [] ∅ where
  node id := Hierarchy.node?_empty id
  index mid := by simp

namespace Replayed

variable (hr : Replayed es ms h)

include hr

/-- An entity is known by the record with its id. -/
theorem tree_entity : h.tree.entity id = (es.find? (·.id == id)).map (·.entity) := by
  rw [Hierarchy.tree_entity, hr.node, Option.map_map]
  rfl

/-- Unknown is what no record names. -/
theorem tree_entity_eq_none_iff : h.tree.entity id = none ↔ id ∉ es.map (·.id) := by
  rw [hr.tree_entity, Option.map_eq_none_iff, find?_key_eq_none_iff]

/-- Known is what some record names. -/
theorem exists_tree_entity_iff : (∃ e, h.tree.entity id = some e) ↔ id ∈ es.map (·.id) := by
  rw [← Option.isSome_iff_exists, Option.isSome_iff_ne_none, ne_eq, hr.tree_entity_eq_none_iff,
    not_not]

variable (hs : Sound es)

include hs

/-- Each node is that of a record. -/
theorem node?_eq_some_iff {n : Node} :
    h.node? id = some n ↔ ∃ r ∈ es, r.id = id ∧ r.node es ms = n := by
  simp only [hr.node, Option.map_eq_some_iff, find?_key_eq_some_iff hs.nodup, and_assoc]

/-- Each entity is that of a record. -/
theorem tree_entity_eq_some_iff :
    h.tree.entity id = some e ↔ ∃ r ∈ es, r.id = id ∧ r.entity = e := by
  simp only [hr.tree_entity, Option.map_eq_some_iff, find?_key_eq_some_iff hs.nodup, and_assoc]

/-- The links of the hierarchy are the links that the records name. -/
theorem parentOf_iff : h.tree.ParentOf a x ↔ ParentOf es a x := by
  simp only [Tree.ParentOf, Hierarchy.tree_parent, Option.bind_eq_some_iff, hr.node?_eq_some_iff hs]
  constructor
  · rintro ⟨p, ⟨-, ⟨r, hr, rfl, rfl⟩, hp⟩, rfl⟩
    obtain ⟨q, hq, hparent, rfl⟩ := hs.node_parent_eq_some_iff.1 hp
    exact ⟨r, hr, rfl, hparent⟩
  · rintro ⟨r, hr, rfl, hparent⟩
    obtain ⟨q, hq, rfl, -⟩ := hs.exists_parent hr hparent
    exact ⟨q.entity, ⟨_, ⟨r, hr, rfl, rfl⟩, hs.node_parent hq hparent⟩, rfl⟩

/-- What is above what is told by records. -/
theorem atOrAbove_iff : h.tree.AtOrAbove a x ↔ AtOrAbove es a x := by
  have hlinks : h.tree.ParentOf = ParentOf es :=
    funext₂ fun a x => propext (hr.parentOf_iff hs)
  rw [Tree.AtOrAbove, hlinks, AtOrAbove]

/-- The staff of an entity are the memberships that name it. -/
theorem mem_staff_iff :
    m ∈ h.tree.staff id ↔ ∃ r ∈ ms, r.entity = id ∧
      ∃ e, h.tree.entity id = some e ∧ r.on e = m := by
  simp only [Hierarchy.tree_staff, hr.tree_entity_eq_some_iff hs]
  cases hn : h.node? id with
  | none =>
    have hnone : ∀ y ∈ es, y.id ≠ id := by
      intro y hy hid
      rw [(hr.node?_eq_some_iff hs).2 ⟨y, hy, hid, rfl⟩] at hn
      cases hn
    constructor
    · intro hm
      cases hm
    · rintro ⟨-, -, -, -, ⟨y, hy, hid, -⟩, -⟩
      exact absurd hid (hnone y hy)
  | some n =>
    obtain ⟨y, hy, rfl, rfl⟩ := (hr.node?_eq_some_iff hs).1 hn
    simp only [Option.map_some, Option.getD_some, EntityRecord.node, List.mem_map, List.mem_filter,
      beq_iff_eq, and_assoc]
    constructor
    · rintro ⟨r, hr, hid, rfl⟩
      exact ⟨r, hr, hid, y.entity, ⟨y, hy, rfl, rfl⟩, rfl⟩
    · rintro ⟨r, hr, hid, e, ⟨z, hz, hzid, rfl⟩, rfl⟩
      rw [List.inj_on_of_nodup_map hs.nodup hz hy hzid]
      exact ⟨r, hr, hid, rfl⟩

/-- Each membership is that of a record. -/
theorem mem_memberships_iff :
    m ∈ h.memberships ↔ ∃ r ∈ ms, ∃ e, h.tree.entity r.entity = some e ∧ r.on e = m := by
  simp only [Hierarchy.mem_memberships_iff, hr.mem_staff_iff hs]
  constructor
  · rintro ⟨id, r, hr, rfl, he⟩
    exact ⟨r, hr, he⟩
  · rintro ⟨r, hr, he⟩
    exact ⟨r.entity, r, hr, rfl, he⟩

end Replayed

end Snapshot

end StaffRights
