import StaffRights.Proofs.Hierarchy.Gains
import StaffRights.Proofs.Snapshot.Capture

/-!
# Capturing a hierarchy and loading it again

Whatever has become of a hierarchy, and in whatever order its nodes and memberships are listed, it
can be captured and loaded again. What is loaded is the same hierarchy in a normal form: without
unnamed permissions, and with children and staff in the order of their ids. A snapshot is therefore
one of its own hierarchy, and the only one.
-/

namespace StaffRights

namespace Tree

variable {t : Tree} {id : EntityId} {u : User}

/-- Home rights have names. -/
theorem homeRights_inter_full : t.homeRights id u ∩ .full = t.homeRights id u := by
  rw [homeRights]
  split
  · split <;> rfl
  · rfl

end Tree

namespace Hierarchy

variable {h h' : Hierarchy} {id : EntityId} {u : User} {users : List User}

/-! ## Rights -/

namespace Reordered

variable (hr : h.named.Reordered h') (hapart : h.tree.Apart) (hapart' : h'.tree.Apart)

include hr hapart hapart'

/-- What is granted on an entity is the same but for unnamed permissions. -/
theorem localRights_named (id : EntityId) (v : UserId) :
    h'.tree.localRights id v = h.tree.localRights id v ∩ .full := by
  have hmember : h'.tree.memberOn id v = (h.tree.memberOn id v).map .named := by
    refine Option.ext fun m => ?_
    have hperm := hr.tree_staff_perm id
    rw [tree_staff_named] at hperm
    simp only [Option.map_eq_some_iff, hapart.memberOn_eq_some_iff, hapart'.memberOn_eq_some_iff,
      hperm.mem_iff, List.mem_map]
    constructor
    · rintro ⟨⟨m, hm, rfl⟩, huser⟩
      exact ⟨m, ⟨hm, huser⟩, rfl⟩
    · rintro ⟨m, ⟨hm, huser⟩, rfl⟩
      exact ⟨⟨m, hm, rfl⟩, huser⟩
  rw [Tree.localRights, Tree.localRights, hmember]
  cases h.tree.memberOn id v <;> rfl

/-- The named rights are the same. -/
theorem rights_named (hc : h.Consistent) (hc' : h'.Consistent) (id : EntityId) (u : User) :
    h'.tree.rights id u = h.tree.rights id u ∩ .full := by
  have hentity : ∀ id, h'.tree.entity id = h.tree.entity id := fun id => by
    rw [hr.tree_entity, tree_entity_named]
  have hparent : ∀ id, h'.tree.parent id = h.tree.parent id := fun id => by
    rw [hr.tree_parent, tree_parent_named]
  induction id using hc.linked.induction_upward with
  | root id hp =>
    rw [Tree.rights_of_root hp, Tree.rights_of_root ((hparent id).trans hp),
      Permissions.union_inter_full, hr.localRights_named hapart hapart',
      Tree.homeRights_congr (hentity id), Tree.homeRights_inter_full]
  | link id p hp ih =>
    rw [hc.linked.rights_eq hp, hc'.linked.rights_eq ((hparent id).trans hp),
      Permissions.union_inter_full, hr.localRights_named hapart hapart', ih]

end Reordered

/-! ## Order -/

/-- Children and staff stand in the order of their ids. -/
structure Ascending (h : Hierarchy) : Prop where
  children : ∀ id, (h.tree.children id).Pairwise fun a b => compare a.id b.id = .lt
  staff : ∀ id, (h.tree.staff id).Pairwise fun a b => compare a.id b.id = .lt

end Hierarchy

namespace Snapshot

variable {h h' : Hierarchy} {es : List EntityRecord} {ms : List MembershipRecord}

/-- Records in the order of a snapshot make children and staff stand in the order of their ids. -/
theorem Replayed.ascending (hr : Replayed es ms h) (hs : EntityRecord.Sound es)
    (hes : es.Pairwise fun a b => EntityRecord.cmp a b = .lt)
    (hms : ms.Pairwise fun a b => MembershipRecord.cmp a b = .lt) : h.Ascending where
  children id := by
    rw [Hierarchy.tree_children]
    cases hn : h.node? id with
    | none => exact .nil
    | some n =>
      obtain ⟨r, -, rfl, rfl⟩ := (hr.node?_eq_some_iff hs).1 hn
      refine List.pairwise_map.2 ((hes.filter _).imp_of_mem fun {a b} ha hb hab => ?_)
      -- siblings are on the same level
      simp only [List.mem_filter, beq_iff_eq] at ha hb
      exact EntityRecord.compare_id_of_cmp hab (hs.depth_eq_of_parent_eq ha.1 hb.1 ha.2 hb.2)
  staff id := by
    rw [Hierarchy.tree_staff]
    cases hn : h.node? id with
    | none => exact .nil
    | some n =>
      obtain ⟨r, -, rfl, rfl⟩ := (hr.node?_eq_some_iff hs).1 hn
      exact List.pairwise_map.2 (hms.filter _)

/-! ## The round trip -/

/-- What is captured can be loaded, and is then the same but for order and unnamed permissions. -/
theorem exists_loaded_of_ofListing (hr : h.Reachable) (l : h.Listing) (users : List User) :
    ∃ h', (ofListing l users).toHierarchy = .ok h' ∧ h.named.Reordered h' ∧ h'.Ascending ∧
      ∀ l' : h'.Listing, ofListing l' users = ofListing l users := by
  obtain ⟨hc, hapart⟩ := hr.consistent_and_apart
  obtain ⟨h', hload⟩ := exists_toHierarchy_iff.2 (consistent_ofListing l users hc hapart)
  have hc' := (Hierarchy.Reachable.loaded hload).consistent
  have hheld := heldBy_of_toHierarchy hload
  have hsame : h.SameRecords h' :=
    ⟨(ofListing_entities_perm l users).symm.trans hheld.entities.symm,
      (ofListing_memberships_perm l users).symm.trans hheld.memberships.symm⟩
  have hnamed : h'.named = h' := Hierarchy.named_eq_self hheld.permissions
  have hes := pairwise_ofListing_entities l users hc
  -- the records are in an order in which they can be replayed
  have hsorted : (ofListing l users).entities.mergeSort notBelow = (ofListing l users).entities :=
    List.mergeSort_of_pairwise (hes.imp fun hab => by
      simpa [notBelow] using EntityRecord.depth_le_of_cmp hab)
  obtain ⟨-, hreplayed⟩ := toHierarchy_eq_ok_iff.1 hload
  rw [hsorted] at hreplayed
  have hascending := hreplayed.ascending (sound_ofListing l users hc) hes
    (pairwise_ofListing_memberships l users hc)
  exact ⟨h', hload, hnamed ▸ hsame.reordered hc hc', hascending,
    fun _ => (ofListing_eq_of_sameRecords hsame hc).symm⟩

/-- A reachable hierarchy can be captured and loaded again, in whatever order it lists its nodes and
memberships. What is loaded differs in nothing but unnamed permissions and the order of children and
staff, which is that of their ids; it gives the same named rights, and whichever way it is listed,
its snapshot is the same. Hierarchies that differ in nothing else, and only these, have the same
snapshot, each of them listed in any way. -/
theorem capture_round_trip (hr : h.Reachable) (l : h.Listing) (users : List User) :
    (∃ h', (ofListing l users).toHierarchy = .ok h' ∧ h.named.Reordered h' ∧ h'.Ascending ∧
      (∀ id u, h'.tree.rights id u = h.tree.rights id u ∩ .full) ∧
      ∀ l' : h'.Listing, ofListing l' users = ofListing l users) ∧
    ∀ h₂ : Hierarchy, h₂.Reachable → ∀ l₂ : h₂.Listing,
      (ofListing l₂ users = ofListing l users ↔ h₂.named.Reordered h.named) := by
  obtain ⟨hc, hapart⟩ := hr.consistent_and_apart
  refine ⟨?_, fun h₂ hr₂ l₂ => ofListing_eq_iff l₂ users hr₂.consistent l hc⟩
  obtain ⟨h', hload, hsame, hascending, hcapture⟩ := exists_loaded_of_ofListing hr l users
  obtain ⟨hc', hapart'⟩ := (Hierarchy.Reachable.loaded hload).consistent_and_apart
  exact ⟨h', hload, hsame, hascending, hsame.rights_named hapart hapart' hc hc', hcapture⟩

/-- An issuer has moved from a faculty that was deleted then, and memberships on it and on the other
faculty, one of them with a permission without a name, are listed last to first, as are the
entities. What is loaded gives the same snapshot as the hierarchy as it is stored. -/
theorem capture_round_trip_of_move :
    let h := (∅ : Hierarchy).run [.insertEntity ⟨.institution, .ofNat 1⟩ none,
      .insertEntity ⟨.faculty, .ofNat 3⟩ (some (.ofNat 1)),
      .insertEntity ⟨.faculty, .ofNat 2⟩ (some (.ofNat 1)),
      .insertEntity ⟨.issuer, .ofNat 4⟩ (some (.ofNat 2)),
      .insertMembership ⟨.ofNat 6, .ofNat 8, ⟨.faculty, .ofNat 3⟩, .full, none⟩,
      .insertMembership ⟨.ofNat 5, .ofNat 7, ⟨.issuer, .ofNat 4⟩, ⟨0x82#8⟩, none⟩,
      .moveEntity (.ofNat 4) (.ofNat 3), .deleteEntity (.ofNat 2)]
    let l : h.Listing := ⟨h.toList.reverse, h.memberships.reverse,
      List.reverse_perm _, List.reverse_perm _⟩
    h.named ≠ h ∧ l.nodes ≠ h.toList ∧ l.memberships ≠ h.memberships ∧
      ofListing l [] = capture h [] ∧
      ∃ h', (ofListing l []).toHierarchy = .ok h' ∧ h.named.Reordered h' ∧ h'.Ascending ∧
        capture h' [] = ofListing l [] := by
  intro h l
  have hr : h.Reachable := .run .empty _
  obtain ⟨⟨h', hload, hsame, hascending, -, hcapture⟩, hcanonical⟩ := capture_round_trip hr l []
  exact ⟨by decide +kernel, by decide +kernel, by decide +kernel,
    ((hcanonical h hr h.listing).2 (.refl _)).symm, h', hload, hsame, hascending,
    hcapture h'.listing⟩

end Snapshot

end StaffRights
