import StaffRights.Proofs.Snapshot.Acceptance

/-!
# What a snapshot tells of a hierarchy

The snapshot of a hierarchy holds a record of every node and of every membership. It tells nothing
of the way in which they were listed, nor of the order of children and staff, as its own order is
that of levels and ids, and nothing of permissions without a name. All else it tells: hierarchies
with the same records are the same otherwise. The records of a consistent hierarchy whose
memberships are apart fit together.
-/

namespace StaffRights

/-! ## Sorted lists -/

section Sorted

variable {α : Type} {cmp : α → α → Ordering} [Std.TransCmp cmp] {l l' : List α}

/-- What is sorted is in order. -/
theorem pairwise_mergeSort_cmp (l : List α) :
    (l.mergeSort fun a b => (cmp a b).isLE).Pairwise fun a b => (cmp a b).isLE := by
  refine List.pairwise_mergeSort (fun a b c => Std.TransCmp.isLE_trans) (fun a b => ?_) l
  have hswap : cmp b a = (cmp a b).swap := Std.OrientedCmp.eq_swap
  rw [hswap]
  cases cmp a b <;> rfl

variable {κ : Type} {key : α → κ} (hkey : ∀ {a b}, cmp a b = .eq → key a = key b)
  (hl : (l.map key).Nodup)

include hkey hl

/-- Where only elements with the same key compare as equal, and no key stands twice, the order in
which elements stand is lost by sorting. -/
theorem mergeSort_cmp_perm (hp : l.Perm l') :
    (l.mergeSort fun a b => (cmp a b).isLE) = l'.mergeSort fun a b => (cmp a b).isLE := by
  refine List.Perm.eq_of_pairwise (fun a b ha hb hab hba => ?_) (pairwise_mergeSort_cmp l)
    (pairwise_mergeSort_cmp l')
    (((List.mergeSort_perm ..).trans hp).trans (List.mergeSort_perm ..).symm)
  rw [List.mem_mergeSort] at ha hb
  exact List.inj_on_of_nodup_map hl ha (hp.mem_iff.2 hb)
    (hkey (Std.OrientedCmp.isLE_antisymm hab hba))

/-- Where no key stands twice, what is sorted is strictly in order. -/
theorem pairwise_lt_mergeSort_cmp :
    (l.mergeSort fun a b => (cmp a b).isLE).Pairwise fun a b => cmp a b = .lt := by
  have hnodup := ((List.mergeSort_perm l fun a b => (cmp a b).isLE).map key).nodup_iff.2 hl
  refine ((pairwise_mergeSort_cmp l).and (List.pairwise_map.1 hnodup)).imp fun ⟨hle, hne⟩ => ?_
  exact (Ordering.isLE_iff_eq_lt_or_eq_eq.1 hle).resolve_right fun heq => hne (hkey heq)

end Sorted

/-- Entities by their level, and by their id on each level. -/
def EntityRecord.cmp : EntityRecord → EntityRecord → Ordering :=
  compareLex (compareOn (·.kind.depth)) (compareOn (·.id))

/-- Memberships by their id. -/
def MembershipRecord.cmp : MembershipRecord → MembershipRecord → Ordering := compareOn (·.id)

instance : Std.TransCmp EntityRecord.cmp :=
  inferInstanceAs (Std.TransCmp (compareLex (compareOn _) (compareOn _)))

instance : Std.TransCmp MembershipRecord.cmp := inferInstanceAs (Std.TransCmp (compareOn _))

/-- Only records of the same entity compare as equal. -/
theorem EntityRecord.id_eq_of_cmp {a b : EntityRecord} (hab : cmp a b = .eq) : a.id = b.id := by
  rw [cmp, compareLex_eq_eq] at hab
  exact Std.LawfulEqOrd.eq_of_compare hab.2

/-- The order is that of levels first. -/
theorem EntityRecord.depth_le_of_cmp {a b : EntityRecord} (hab : cmp a b = .lt) :
    a.kind.depth ≤ b.kind.depth := by
  have hle : (compare a.kind.depth b.kind.depth).isLE :=
    Ordering.isLE_left_of_isLE_then (Ordering.isLE_of_eq_lt hab)
  exact Nat.isLE_compare.1 hle

/-- On one level, the order is that of the ids. -/
theorem EntityRecord.compare_id_of_cmp {a b : EntityRecord} (hab : cmp a b = .lt)
    (hdepth : a.kind.depth = b.kind.depth) : compare a.id b.id = .lt := by
  have hthen : (compare a.kind.depth b.kind.depth).then (compare a.id b.id) = .lt := hab
  rwa [hdepth, Std.compare_self] at hthen

/-- Only records of the same membership compare as equal. -/
theorem MembershipRecord.id_eq_of_cmp {a b : MembershipRecord} (hab : cmp a b = .eq) :
    a.id = b.id :=
  Std.LawfulEqOrd.eq_of_compare hab

/-! ## Permissions without a name -/

/-- The membership without unnamed permission bits. -/
def Membership.named (m : Membership) : Membership :=
  { m with permissions := m.permissions ∩ .full }

@[simp] theorem Membership.named_id (m : Membership) : m.named.id = m.id := rfl

/-- Records tell all named permissions, and no others. -/
theorem Permissions.record_eq_record_iff {p q : Permissions} :
    p.record = q.record ↔ p ∩ .full = q ∩ .full := by
  constructor
  · intro hpq
    rw [← permissions_record, hpq, permissions_record]
  · intro hpq
    rw [← p.record.record_permissions, permissions_record, hpq, ← permissions_record,
      PermissionRecord.record_permissions]

/-- The node without unnamed permission bits. -/
def Node.named (n : Node) : Node := { n with staff := n.staff.map .named }

/-- No record tells the order of children and staff. -/
theorem Node.Reordered.ofNode_eq {n n' : Node} (hn : n.Reordered n') :
    EntityRecord.ofNode n' = .ofNode n := by
  simp only [EntityRecord.ofNode, hn.entity, hn.parent, hn.awarded]

/-- No record tells unnamed permissions. -/
@[simp] theorem MembershipRecord.ofMembership_named (m : Membership) :
    ofMembership m.named = ofMembership m := by
  simp [ofMembership, Membership.named, Permissions.record_eq_record_iff]

namespace Hierarchy

variable {h h' : Hierarchy} {id : EntityId} {e : Entity} {n : Node} {m : Membership}

/-- The hierarchy without unnamed permission bits. -/
def named (h : Hierarchy) : Hierarchy := { h with nodes := h.nodes.map fun _ n => n.named }

/-- Nodes are stripped of unnamed permissions one by one. -/
theorem node?_named (h : Hierarchy) (id : EntityId) :
    h.named.node? id = (h.node? id).map .named := by
  simp only [named, node?, Std.ExtTreeMap.getElem?_map]

/-- Entities are the same without unnamed permissions. -/
@[simp] theorem tree_entity_named (h : Hierarchy) : h.named.tree.entity id = h.tree.entity id := by
  rw [tree_entity, node?_named, tree_entity, Option.map_map]
  rfl

/-- Links are the same without unnamed permissions. -/
@[simp] theorem tree_parent_named (h : Hierarchy) : h.named.tree.parent id = h.tree.parent id := by
  rw [tree_parent, node?_named, tree_parent]
  cases h.node? id <;> rfl

/-- Each staff is stripped of unnamed permissions. -/
@[simp] theorem tree_staff_named (h : Hierarchy) :
    h.named.tree.staff id = (h.tree.staff id).map .named := by
  rw [tree_staff, node?_named, tree_staff]
  cases h.node? id <;> rfl

/-- Where every permission has a name, nothing is lost. -/
theorem named_eq_self (hnamed : ∀ m ∈ h.memberships, m.permissions ∩ .full = m.permissions) :
    h.named = h := by
  refine ext_of_node? (fun id => ?_) fun _ => rfl
  rw [node?_named]
  cases hn : h.node? id with
  | none => rfl
  | some n =>
    have hstaff : n.staff.map .named = n.staff := by
      refine (List.map_congr_left fun m hm => ?_).trans (List.map_id _)
      have hmem : m ∈ h.memberships :=
        mem_memberships_iff.2 ⟨id, by simpa [tree_staff, hn] using hm⟩
      rw [Membership.named, hnamed m hmem, id_eq]
    rw [Option.map_some, Node.named, hstaff]

/-! ## The same records -/

/-- Both hierarchies have the same records. -/
structure SameRecords (h h' : Hierarchy) : Prop where
  entities : (h.toList.map EntityRecord.ofNode).Perm (h'.toList.map EntityRecord.ofNode)
  memberships : (h.memberships.map MembershipRecord.ofMembership).Perm
    (h'.memberships.map MembershipRecord.ofMembership)

theorem SameRecords.symm (hs : h.SameRecords h') : h'.SameRecords h :=
  ⟨hs.entities.symm, hs.memberships.symm⟩

namespace Consistent

section

variable (hc : h.Consistent)

include hc

/-- A record is listed just if it is that of the node under its id. -/
theorem mem_records_iff {r : EntityRecord} :
    r ∈ h.toList.map EntityRecord.ofNode ↔
      ∃ n, h.node? r.id = some n ∧ EntityRecord.ofNode n = r := by
  simp only [List.mem_map, mem_toList]
  constructor
  · rintro ⟨n, ⟨id, hn⟩, rfl⟩
    obtain rfl := hc.id_of_node? hn
    exact ⟨n, hn, rfl⟩
  · rintro ⟨n, hn, rfl⟩
    exact ⟨n, ⟨_, hn⟩, rfl⟩

/-- A record is listed just if it is that of a membership on its entity. -/
theorem mem_membershipRecords_iff {r : MembershipRecord} :
    r ∈ h.memberships.map MembershipRecord.ofMembership ↔
      ∃ m ∈ h.tree.staff r.entity, MembershipRecord.ofMembership m = r := by
  simp only [List.mem_map, mem_memberships_iff]
  constructor
  · rintro ⟨m, ⟨id, hm⟩, rfl⟩
    obtain rfl := hc.id_of_mem_staff hm
    exact ⟨m, hm, rfl⟩
  · rintro ⟨m, hm, rfl⟩
    exact ⟨m, ⟨_, hm⟩, rfl⟩

/-- On one staff, no two memberships are the same without unnamed permissions. -/
theorem nodup_named_staff (id : EntityId) : ((h.tree.staff id).map Membership.named).Nodup := by
  refine List.Nodup.of_map (·.id) ?_
  rw [List.map_map]
  exact hc.staff_nodup id

/-- A parent is known by its id. -/
theorem parent_eq_bind : h.tree.parent id = ((h.tree.parent id).map (·.id)).bind h.tree.entity := by
  cases hp : h.tree.parent id with
  | none => rfl
  | some p => rw [Option.map_some, Option.bind_some, hc.linked.entity_parent hp]

end

end Consistent

namespace SameRecords

variable (hs : h.SameRecords h') (hc : h.Consistent) (hc' : h'.Consistent)

include hs hc hc'

/-- To each node there is one with the same record. -/
theorem exists_node? (hn : h.node? id = some n) :
    ∃ n', h'.node? id = some n' ∧ EntityRecord.ofNode n' = EntityRecord.ofNode n := by
  obtain rfl := hc.id_of_node? hn
  exact hc'.mem_records_iff.1 (hs.entities.mem_iff.1 (hc.mem_records_iff.2 ⟨n, hn, rfl⟩))

/-- To each membership there is one with the same record on the same entity. -/
theorem exists_membership (hm : m ∈ h.tree.staff id) :
    ∃ m' ∈ h'.tree.staff id, MembershipRecord.ofMembership m' = .ofMembership m := by
  obtain rfl := hc.id_of_mem_staff hm
  exact hc'.mem_membershipRecords_iff.1
    (hs.memberships.mem_iff.1 (hc.mem_membershipRecords_iff.2 ⟨m, hm, rfl⟩))

/-- What one hierarchy knows, the other knows. -/
theorem tree_entity_eq_some (he : h.tree.entity id = some e) : h'.tree.entity id = some e := by
  obtain ⟨n, hn, rfl⟩ := h.exists_node? he
  obtain ⟨n', hn', hrec⟩ := hs.exists_node? hc hc' hn
  simp only [EntityRecord.ofNode, EntityRecord.mk.injEq] at hrec
  have hentity : n'.entity = n.entity :=
    congrArg₂ Entity.mk hrec.2.1 hrec.1
  rw [Hierarchy.tree_entity, hn', Option.map_some, hentity]

/-- Hierarchies with the same records know the same entities. -/
theorem tree_entity (id : EntityId) : h'.tree.entity id = h.tree.entity id :=
  Option.ext fun _ => ⟨hs.symm.tree_entity_eq_some hc' hc, hs.tree_entity_eq_some hc hc'⟩

/-- Hierarchies with the same records have the same links upward. -/
theorem tree_parent (id : EntityId) : h'.tree.parent id = h.tree.parent id := by
  have hentity : h'.tree.entity = h.tree.entity := funext (hs.tree_entity hc hc')
  rw [hc.parent_eq_bind, hc'.parent_eq_bind, hentity]
  congr 1
  -- the record of a node tells the id of its parent
  cases hn : h.node? id with
  | none =>
    have hnone : h'.tree.entity id = none := by
      rw [hs.tree_entity hc hc' id, Hierarchy.tree_entity, hn, Option.map_none]
    rw [hc'.linked.parent_eq_none_of_unknown hnone, Hierarchy.tree_parent, hn]
    rfl
  | some n =>
    obtain ⟨n', hn', hrec⟩ := hs.exists_node? hc hc' hn
    rw [Hierarchy.tree_parent, Hierarchy.tree_parent, hn, hn']
    exact congrArg EntityRecord.parent hrec

/-- Hierarchies with the same records have the same links downward, in some order. -/
theorem tree_children_perm (id : EntityId) : (h'.tree.children id).Perm (h.tree.children id) := by
  refine (List.perm_ext_iff_of_nodup (hc'.linked.children_nodup id)
    (hc.linked.children_nodup id)).2 fun c => ?_
  simp only [hc.linked.mem_children_iff, hc'.linked.mem_children_iff, Tree.ParentOf,
    hs.tree_entity hc hc', hs.tree_parent hc hc']

/-- Named permissions of one hierarchy are those of the other. -/
theorem named_staff_subset (id : EntityId) :
    (h.tree.staff id).map Membership.named ⊆ (h'.tree.staff id).map Membership.named := by
  intro x hx
  obtain ⟨m, hm, rfl⟩ := List.mem_map.1 hx
  obtain ⟨m', hm', hrec⟩ := hs.exists_membership hc hc' hm
  have hentity : h'.tree.entity id = h.tree.entity id := hs.tree_entity hc hc' id
  rw [hc.staff_entity hm, hc'.staff_entity hm', Option.some.injEq] at hentity
  simp only [MembershipRecord.ofMembership, MembershipRecord.mk.injEq,
    Permissions.record_eq_record_iff] at hrec
  refine List.mem_map.2 ⟨m', hm', ?_⟩
  simp [Membership.named, hrec, hentity]

/-- Hierarchies with the same records have the same staff, but for order and unnamed permissions. -/
theorem tree_staff_perm (id : EntityId) :
    ((h'.tree.staff id).map Membership.named).Perm ((h.tree.staff id).map Membership.named) :=
  (List.perm_ext_iff_of_nodup (hc'.nodup_named_staff id) (hc.nodup_named_staff id)).2 fun _ =>
    ⟨fun hx => hs.symm.named_staff_subset hc' hc id hx,
      fun hx => hs.named_staff_subset hc hc' id hx⟩

/-- Hierarchies with the same records have the same index, as each index is that of the staff. -/
theorem index_eq : h'.index = h.index := by
  refine Std.ExtTreeMap.ext_getElem? fun mid => Option.ext fun id => ?_
  have hids : ((h'.tree.staff id).map (·.id)).Perm ((h.tree.staff id).map (·.id)) := by
    simpa [List.map_map, Function.comp_def] using (hs.tree_staff_perm hc hc' id).map (·.id)
  rw [hc.index_iff, hc'.index_iff, ← List.mem_map, ← List.mem_map, hids.mem_iff]

/-- Hierarchies with the same records are the same, but for what no record tells. -/
theorem reordered : h.named.Reordered h'.named where
  node id := by
    rw [node?_named, node?_named]
    cases hn : h.node? id with
    | none =>
      have hnone := hs.tree_entity hc hc' id
      rw [Hierarchy.tree_entity, Hierarchy.tree_entity, hn, Option.map_none,
        Option.map_eq_none_iff] at hnone
      rw [hnone]
      exact .none
    | some n =>
      obtain ⟨n', hn', hrec⟩ := hs.exists_node? hc hc' hn
      have hentity := hs.tree_entity hc hc' id
      have hparent := hs.tree_parent hc hc' id
      have hchildren := hs.tree_children_perm hc hc' id
      have hstaff := hs.tree_staff_perm hc hc' id
      simp only [Hierarchy.tree_entity, Hierarchy.tree_parent, tree_children, tree_staff, hn, hn',
        Option.map_some, Option.bind_some, Option.getD_some, Option.some.injEq]
        at hentity hparent hchildren hstaff
      rw [hn']
      exact .some ⟨hentity, hparent, congrArg EntityRecord.awarded hrec, hchildren, hstaff⟩
  index := hs.index_eq hc hc'

end SameRecords

namespace Reordered

variable (hr : h.named.Reordered h'.named) (hc : h.Consistent) (hc' : h'.Consistent)

include hr hc hc'

/-- Records of nodes are the same whatever the order of children and staff. -/
theorem records_subset :
    h.toList.map EntityRecord.ofNode ⊆ h'.toList.map EntityRecord.ofNode := by
  intro r hmem
  obtain ⟨n, hn, rfl⟩ := hc.mem_records_iff.1 hmem
  have hnode := hr.node_cases (EntityRecord.ofNode n).id
  rw [node?_named, node?_named, hn] at hnode
  obtain ⟨hnone, -⟩ | ⟨x, x', hx, hx', hsame⟩ := hnode
  · cases hnone
  · cases hx
    obtain ⟨n', hn', rfl⟩ := Option.map_eq_some_iff.1 hx'
    exact hc'.mem_records_iff.2 ⟨n', hn', hsame.ofNode_eq⟩

/-- Records of memberships are the same whatever the order of children and staff. -/
theorem membershipRecords_subset :
    h.memberships.map MembershipRecord.ofMembership ⊆
      h'.memberships.map MembershipRecord.ofMembership := by
  intro r hmem
  obtain ⟨m, hm, rfl⟩ := hc.mem_membershipRecords_iff.1 hmem
  have hperm := hr.tree_staff_perm (MembershipRecord.ofMembership m).entity
  rw [tree_staff_named, tree_staff_named] at hperm
  obtain ⟨m', hm', hnamed⟩ := List.mem_map.1 (hperm.mem_iff.2 (List.mem_map_of_mem hm))
  refine hc'.mem_membershipRecords_iff.2 ⟨m', hm', ?_⟩
  rw [← MembershipRecord.ofMembership_named, hnamed, MembershipRecord.ofMembership_named]

/-- What no record tells makes no difference to the records. -/
theorem sameRecords : h.SameRecords h' where
  entities :=
    (List.perm_ext_iff_of_nodup hc.nodup_records.of_map hc'.nodup_records.of_map).2 fun _ =>
      ⟨fun hmem => hr.records_subset hc hc' hmem, fun hmem => hr.symm.records_subset hc' hc hmem⟩
  memberships :=
    (List.perm_ext_iff_of_nodup hc.nodup_membershipRecords.of_map
      hc'.nodup_membershipRecords.of_map).2 fun _ =>
        ⟨fun hmem => hr.membershipRecords_subset hc hc' hmem,
          fun hmem => hr.symm.membershipRecords_subset hc' hc hmem⟩

end Reordered

end Hierarchy

/-! ## The captured records -/

namespace Snapshot

variable {h h' : Hierarchy} {l : h.Listing} {l' : h'.Listing} {users : List User}

theorem ofListing_entities (l : h.Listing) (users : List User) :
    (ofListing l users).entities =
      (l.nodes.map EntityRecord.ofNode).mergeSort fun a b => (EntityRecord.cmp a b).isLE := rfl

theorem ofListing_memberships (l : h.Listing) (users : List User) :
    (ofListing l users).memberships =
      (l.memberships.map MembershipRecord.ofMembership).mergeSort
        fun a b => (MembershipRecord.cmp a b).isLE := rfl

/-- Every entity is captured, and nothing else. -/
theorem ofListing_entities_perm (l : h.Listing) (users : List User) :
    (ofListing l users).entities.Perm (h.toList.map EntityRecord.ofNode) :=
  (List.mergeSort_perm ..).trans (l.nodes_perm.map _)

/-- Every membership is captured, and nothing else. -/
theorem ofListing_memberships_perm (l : h.Listing) (users : List User) :
    (ofListing l users).memberships.Perm (h.memberships.map MembershipRecord.ofMembership) :=
  (List.mergeSort_perm ..).trans (l.memberships_perm.map _)

/-- No entity is listed twice. -/
theorem nodup_listed_entities (hc : h.Consistent) (l : h.Listing) :
    ((l.nodes.map EntityRecord.ofNode).map (·.id)).Nodup :=
  ((l.nodes_perm.map EntityRecord.ofNode).map (·.id)).nodup_iff.2 hc.nodup_records

/-- No membership is listed twice. -/
theorem nodup_listed_memberships (hc : h.Consistent) (l : h.Listing) :
    ((l.memberships.map MembershipRecord.ofMembership).map (·.id)).Nodup :=
  ((l.memberships_perm.map MembershipRecord.ofMembership).map (·.id)).nodup_iff.2
    hc.nodup_membershipRecords

/-- Hierarchies with the same records have the same snapshots, in whatever way they are listed. -/
theorem ofListing_eq_of_sameRecords (hs : h.SameRecords h') (hc : h.Consistent) :
    ofListing l users = ofListing l' users := by
  have hentities : (ofListing l users).entities = (ofListing l' users).entities := by
    rw [ofListing_entities, ofListing_entities]
    exact mergeSort_cmp_perm EntityRecord.id_eq_of_cmp (nodup_listed_entities hc l)
      ((l.nodes_perm.map _).trans (hs.entities.trans (l'.nodes_perm.map _).symm))
  have hmemberships : (ofListing l users).memberships = (ofListing l' users).memberships := by
    rw [ofListing_memberships, ofListing_memberships]
    exact mergeSort_cmp_perm MembershipRecord.id_eq_of_cmp (nodup_listed_memberships hc l)
      ((l.memberships_perm.map _).trans (hs.memberships.trans (l'.memberships_perm.map _).symm))
  exact congrArg₂ (Snapshot.mk users) hentities hmemberships

/-- Hierarchies that have one snapshot in common have the same records. -/
theorem sameRecords_of_ofListing_eq (hs : ofListing l users = ofListing l' users) :
    h.SameRecords h' where
  entities := (ofListing_entities_perm l users).symm.trans (hs ▸ ofListing_entities_perm l' users)
  memberships :=
    (ofListing_memberships_perm l users).symm.trans (hs ▸ ofListing_memberships_perm l' users)

section

variable (hc : h.Consistent) (l users)

include hc

/-- What no record tells is all that a snapshot loses. -/
theorem ofListing_eq_iff (l' : h'.Listing) (hc' : h'.Consistent) :
    ofListing l users = ofListing l' users ↔ h.named.Reordered h'.named := by
  constructor
  · exact fun hs => (sameRecords_of_ofListing_eq hs).reordered hc hc'
  · exact fun hr => ofListing_eq_of_sameRecords (hr.sameRecords hc hc') hc

/-- The captured entities stand in order of their level and, on each level, of their id. -/
theorem pairwise_ofListing_entities :
    (ofListing l users).entities.Pairwise fun a b => EntityRecord.cmp a b = .lt := by
  rw [ofListing_entities]
  exact pairwise_lt_mergeSort_cmp EntityRecord.id_eq_of_cmp (nodup_listed_entities hc l)

/-- The captured memberships stand in order of their id. -/
theorem pairwise_ofListing_memberships :
    (ofListing l users).memberships.Pairwise fun a b => MembershipRecord.cmp a b = .lt := by
  rw [ofListing_memberships]
  exact pairwise_lt_mergeSort_cmp MembershipRecord.id_eq_of_cmp (nodup_listed_memberships hc l)

/-- An entity is captured just if its record is that of the node under its id. -/
theorem mem_ofListing_entities_iff {r : EntityRecord} :
    r ∈ (ofListing l users).entities ↔ ∃ n, h.node? r.id = some n ∧ EntityRecord.ofNode n = r := by
  rw [(ofListing_entities_perm l users).mem_iff, hc.mem_records_iff]

/-- A membership is captured just if its record is that of one on its entity. -/
theorem mem_ofListing_memberships_iff {r : MembershipRecord} :
    r ∈ (ofListing l users).memberships ↔
      ∃ m ∈ h.tree.staff r.entity, MembershipRecord.ofMembership m = r := by
  rw [(ofListing_memberships_perm l users).mem_iff, hc.mem_membershipRecords_iff]

/-- Captured entities fit together, because the links of a consistent hierarchy do. -/
theorem sound_ofListing : EntityRecord.Sound (ofListing l users).entities := by
  refine .of_placed ?_ fun r hr => ?_
  · exact ((ofListing_entities_perm l users).map (·.id)).nodup_iff.2 hc.nodup_records
  · obtain ⟨n, hn, rfl⟩ := (mem_ofListing_entities_iff l users hc).1 hr
    have he : h.tree.entity (EntityRecord.ofNode n).id = some n.entity := h.entity_of_node? hn
    have hparent : h.tree.parent (EntityRecord.ofNode n).id = n.parent := h.parent_of_node? hn
    cases hp : n.parent with
    | none =>
      rw [hp, hc.linked.parent_eq_none_iff he] at hparent
      exact .inl ⟨hparent, by simp [EntityRecord.ofNode, hp]⟩
    | some p =>
      rw [hp] at hparent
      obtain ⟨e, he', hpe, hkind⟩ := hc.linked.parent_entity hparent
      rw [he, Option.some.injEq] at he'
      subst he'
      obtain ⟨np, hnp, rfl⟩ := h.exists_node? hpe
      exact .inr ⟨.ofNode np, (mem_ofListing_entities_iff l users hc).2 ⟨np, hnp, rfl⟩,
        by simp [EntityRecord.ofNode, hp], hkind⟩

/-- What is captured is in the same order of descent. -/
theorem atOrAbove_ofListing_iff {a x : EntityId} :
    EntityRecord.AtOrAbove (ofListing l users).entities a x ↔ h.tree.AtOrAbove a x := by
  have hlinks : EntityRecord.ParentOf (ofListing l users).entities = h.tree.ParentOf := by
    funext a x
    simp only [EntityRecord.ParentOf, mem_ofListing_entities_iff l users hc, Tree.ParentOf,
      Hierarchy.tree_parent, eq_iff_iff, Option.bind_eq_some_iff]
    constructor
    · rintro ⟨-, ⟨n, hn, rfl⟩, rfl, ha⟩
      obtain ⟨p, hp, rfl⟩ := Option.map_eq_some_iff.1 ha
      exact ⟨p, ⟨n, hn, hp⟩, rfl⟩
    · rintro ⟨p, ⟨n, hn, hp⟩, rfl⟩
      obtain rfl := hc.id_of_node? hn
      exact ⟨.ofNode n, ⟨n, hn, rfl⟩, rfl, by simp [EntityRecord.ofNode, hp]⟩
  rw [EntityRecord.AtOrAbove, hlinks, Tree.AtOrAbove]

/-- What is captured can be loaded. -/
theorem consistent_ofListing (hapart : h.tree.Apart) : (ofListing l users).Consistent := by
  have hnodup := ((ofListing_memberships_perm l users).map (·.id)).nodup_iff.2
    hc.nodup_membershipRecords
  refine ⟨sound_ofListing l users hc, ⟨hnodup, fun r hr => ?_, ?_⟩⟩
  · obtain ⟨m, hm, rfl⟩ := (mem_ofListing_memberships_iff l users hc).1 hr
    obtain ⟨n, hn, hne⟩ := h.exists_node? (hc.staff_entity hm)
    have hid := hc.id_of_node? hn
    rw [← hid] at hn
    exact List.mem_map.2 ⟨.ofNode n, (mem_ofListing_entities_iff l users hc).2 ⟨n, hn, rfl⟩, hid⟩
  · -- memberships with different ids are different, and so they are apart
    refine (List.pairwise_map.1 hnodup).imp_of_mem fun {a b} ha hb hab huser => ?_
    obtain ⟨m, hm, rfl⟩ := (mem_ofListing_memberships_iff l users hc).1 ha
    obtain ⟨m', hm', rfl⟩ := (mem_ofListing_memberships_iff l users hc).1 hb
    rw [atOrAbove_ofListing_iff l users hc, atOrAbove_ofListing_iff l users hc]
    refine ⟨fun habove => hab ?_, fun habove => hab ?_⟩
    · rw [hapart habove hm hm' huser]
    · rw [hapart habove hm' hm huser.symm]

end

end Snapshot

end StaffRights
