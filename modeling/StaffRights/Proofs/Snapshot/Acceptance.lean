import Mathlib.Data.List.Induction
import StaffRights.Proofs.Snapshot.Loading

/-!
# Which snapshots can be loaded

A snapshot can be loaded exactly if its records fit together: a condition on which records there
are, and not on their order. What is loaded holds the records and nothing else, and the order of the
records is told by nothing but the order of children and staff.

Reference: `SPEC_FULL.md` 10.13 (validated through the same rules).
-/

namespace StaffRights

section Perm

variable {es es' : List EntityRecord} {ms ms' : List MembershipRecord}

/-- Where no key stands twice, what is found under a key does not depend on order. -/
theorem find?_key_perm {α κ : Type} [BEq κ] [LawfulBEq κ] {key : α → κ} {l l' : List α}
    (hl : (l.map key).Nodup) (hp : l.Perm l') (k : κ) :
    l'.find? (key · == k) = l.find? (key · == k) := by
  have hl' : (l'.map key).Nodup := (hp.map key).nodup_iff.1 hl
  refine Option.ext fun a => ?_
  rw [find?_key_eq_some_iff hl, find?_key_eq_some_iff hl', hp.mem_iff]

namespace EntityRecord

/-- Records of entities fit together in any order. -/
theorem Sound.perm (hs : Sound es) (hp : es.Perm es') : Sound es' where
  nodup := (hp.map _).nodup_iff.1 hs.nodup
  institution r hr := hs.institution r (hp.mem_iff.2 hr)
  parent r hr hk := by
    obtain ⟨p, hpm, hparent⟩ := hs.parent r (hp.mem_iff.2 hr) hk
    exact ⟨p, hp.mem_iff.1 hpm, hparent⟩

/-- What is above what does not depend on the order of records. -/
theorem atOrAbove_perm (hp : es.Perm es') : AtOrAbove es' = AtOrAbove es := by
  have hlinks : ParentOf es' = ParentOf es := by
    funext a x
    simp only [ParentOf, hp.mem_iff]
  rw [AtOrAbove, hlinks, AtOrAbove]

end EntityRecord

namespace MembershipRecord

theorem ApartFrom.symm {a b : MembershipRecord} (h : ApartFrom es a b) : ApartFrom es b a :=
  fun huser => (h huser.symm).symm

/-- Records of memberships fit together in any order, of entities as well. -/
theorem Sound.perm (hms : Sound es ms) (hpe : es.Perm es') (hpm : ms.Perm ms') : Sound es' ms' where
  nodup := (hpm.map _).nodup_iff.1 hms.nodup
  entity r hr := (hpe.map _).mem_iff.1 (hms.entity r (hpm.mem_iff.2 hr))
  apart := by
    have hapart : ApartFrom es' = ApartFrom es := by
      funext a b
      simp only [ApartFrom, EntityRecord.atOrAbove_perm hpe]
    rw [hapart]
    exact (hpm.pairwise_iff fun h => h.symm).1 hms.apart

end MembershipRecord

end Perm

namespace Hierarchy.Consistent

variable {h : Hierarchy} (hc : h.Consistent)

include hc

/-- No two nodes have records with the same id. -/
theorem nodup_records : ((h.toList.map EntityRecord.ofNode).map (·.id)).Nodup := by
  rw [List.map_map]
  exact hc.nodup_toList

/-- No two memberships have records with the same id. -/
theorem nodup_membershipRecords :
    ((h.memberships.map MembershipRecord.ofMembership).map (·.id)).Nodup := by
  rw [List.map_map]
  exact hc.nodup_memberships

end Hierarchy.Consistent

namespace Snapshot

variable {s s' : Snapshot} {h h' : Hierarchy} {es es' : List EntityRecord}
  {ms ms' : List MembershipRecord}

/-- The records of a snapshot fit together. -/
structure Consistent (s : Snapshot) : Prop where
  entities : EntityRecord.Sound s.entities
  memberships : MembershipRecord.Sound s.entities s.memberships

/-- The same records, in any order. -/
structure Reordered (s s' : Snapshot) : Prop where
  entities : s.entities.Perm s'.entities
  memberships : s.memberships.Perm s'.memberships

/-- Whether a snapshot is consistent does not depend on its order. -/
theorem Consistent.reordered (hs : s.Consistent) (hr : s.Reordered s') : s'.Consistent where
  entities := hs.entities.perm hr.entities
  memberships := hs.memberships.perm hr.entities hr.memberships

theorem Reordered.symm (hr : s.Reordered s') : s'.Reordered s :=
  ⟨hr.entities.symm, hr.memberships.symm⟩

/-- Records in another order make the same hierarchy, but for the order of children and staff. -/
theorem Replayed.reordered (hr : Replayed es ms h) (hr' : Replayed es' ms' h')
    (hs : EntityRecord.Sound es) (hms : MembershipRecord.Sound es ms) (hpe : es.Perm es')
    (hpm : ms.Perm ms') : h.Reordered h' where
  node id := by
    rw [hr.node, hr'.node, find?_key_perm hs.nodup hpe]
    cases es.find? (·.id == id) with
    | none => exact .none
    | some r =>
      refine .some ⟨rfl, ?_, rfl, ?_, ?_⟩
      · simp only [EntityRecord.node, find?_key_perm hs.nodup hpe]
      · exact ((hpe.filter _).map _).symm
      · exact ((hpm.filter _).map _).symm
  index := by
    refine Std.ExtTreeMap.ext_getElem? fun mid => ?_
    rw [hr.index, hr'.index, find?_key_perm hms.nodup hpm]

/-! ## Loading -/

/-- Entities that fit together can be replayed from the higher levels down. -/
theorem exists_replayed_entities (hs : EntityRecord.Sound es)
    (hsorted : es.Pairwise fun a b => a.kind.depth ≤ b.kind.depth) : ∃ h, Replayed es [] h := by
  induction es using List.reverseRecOn with
  | nil => exact ⟨∅, .empty⟩
  | append_singleton es r ih =>
    obtain ⟨hnew, hplaced⟩ := hs.placed_before hsorted
    have hs' := hs.of_append hsorted
    obtain ⟨h, hr⟩ := ih hs' (List.pairwise_append.1 hsorted).1
    exact ⟨_, hr.attach hs' hnew hplaced⟩

/-- Memberships that fit together can be replayed after the entities. -/
theorem exists_replayed (hs : EntityRecord.Sound es) (hms : MembershipRecord.Sound es ms)
    (hsorted : es.Pairwise fun a b => a.kind.depth ≤ b.kind.depth) : ∃ h, Replayed es ms h := by
  induction ms using List.reverseRecOn with
  | nil => exact exists_replayed_entities hs hsorted
  | append_singleton ms r ih =>
    obtain ⟨hms', hnew, hentity, -⟩ := MembershipRecord.sound_snoc_iff.1 hms
    obtain ⟨h, hr⟩ := ih hms'
    obtain ⟨e, he⟩ := hr.exists_tree_entity_iff.2 hentity
    exact ⟨_, hr.put hs hnew he⟩

/-- Replaying goes from the higher levels down. -/
theorem pairwise_mergeSort_notBelow (es : List EntityRecord) :
    (es.mergeSort notBelow).Pairwise fun a b => a.kind.depth ≤ b.kind.depth := by
  have htrans : ∀ a b c, notBelow a b → notBelow b c → notBelow a c := by
    simp only [notBelow, decide_eq_true_eq]
    omega
  have htotal : ∀ a b, (notBelow a b || notBelow b a) = true := by
    simp only [notBelow, Bool.or_eq_true, decide_eq_true_eq]
    omega
  exact (List.pairwise_mergeSort htrans htotal es).imp fun hab => by simpa [notBelow] using hab

/-- Loading replays the entities, with higher levels first, and then the memberships. -/
theorem toHierarchy_eq_ok_iff :
    s.toHierarchy = .ok h ↔
      s.Consistent ∧ Replayed (s.entities.mergeSort notBelow) s.memberships h := by
  have hperm : (s.entities.mergeSort notBelow).Perm s.entities := List.mergeSort_perm ..
  have hsorted := pairwise_mergeSort_notBelow s.entities
  have hentities : ∀ k, (s.entities.mergeSort notBelow).foldlM replayEntity ∅ = .ok k ↔ _ :=
    fun k => Replayed.empty.foldlM_replayEntity_eq_ok_iff .nil hsorted
  rw [toHierarchy]
  constructor
  · intro hload
    obtain ⟨k, hk, hload⟩ := bind_eq_ok_iff.1 hload
    have hc : k.Consistent := foldlM_keeps
      (Hierarchy.replayEntity_keeps fun _ c hc => hc.change c) .empty hk
    obtain ⟨hs, hr⟩ := (hentities k).1 hk
    obtain ⟨hms, hr⟩ := (hr.foldlM_replayMembership_eq_ok_iff hs hc .nil).1 hload
    exact ⟨⟨hs.perm hperm, hms.perm hperm (.refl _)⟩, hr⟩
  · rintro ⟨⟨hs, hms⟩, hr⟩
    have hs := hs.perm hperm.symm
    have hms := hms.perm hperm.symm (.refl _)
    obtain ⟨k, hk⟩ := exists_replayed_entities hs hsorted
    have hload := (hentities k).2 ⟨hs, hk⟩
    have hc : k.Consistent := foldlM_keeps
      (Hierarchy.replayEntity_keeps fun _ c hc => hc.change c) .empty hload
    rw [hload]
    exact (hk.foldlM_replayMembership_eq_ok_iff hs hc .nil).2 ⟨hms, hr⟩

/-- A snapshot can be loaded just if it is consistent. -/
theorem exists_toHierarchy_iff : (∃ h, s.toHierarchy = .ok h) ↔ s.Consistent := by
  simp only [toHierarchy_eq_ok_iff, exists_and_left, and_iff_left_iff_imp]
  intro hs
  have hperm := (s.entities.mergeSort_perm notBelow).symm
  exact exists_replayed (hs.entities.perm hperm) (hs.memberships.perm hperm (.refl _))
    (pairwise_mergeSort_notBelow s.entities)

/-! ## What is loaded -/

/-- The hierarchy holds the records of the snapshot, and nothing else. -/
structure HeldBy (s : Snapshot) (h : Hierarchy) : Prop where
  entities : (h.toList.map EntityRecord.ofNode).Perm s.entities
  memberships : (h.memberships.map MembershipRecord.ofMembership).Perm s.memberships
  /-- No membership carries a permission that a record cannot tell. -/
  permissions : ∀ m ∈ h.memberships, m.permissions ∩ .full = m.permissions

namespace Replayed

variable (hr : Replayed es ms h) (hs : EntityRecord.Sound es) (hc : h.Consistent)

include hr hs hc

/-- The nodes that were replayed have the records of entities. -/
theorem toList_perm : (h.toList.map EntityRecord.ofNode).Perm es := by
  refine (List.perm_ext_iff_of_nodup hc.nodup_records.of_map (.of_map _ hs.nodup)).2 fun r => ?_
  simp only [List.mem_map, Hierarchy.mem_toList, hr.node?_eq_some_iff hs]
  constructor
  · rintro ⟨-, ⟨-, x, hx, -, rfl⟩, rfl⟩
    rwa [hs.ofNode_node hx]
  · exact fun hmem => ⟨_, ⟨_, r, hmem, rfl, rfl⟩, hs.ofNode_node hmem⟩

/-- The memberships that were replayed have the records of memberships. -/
theorem memberships_perm (hms : MembershipRecord.Sound es ms) :
    (h.memberships.map MembershipRecord.ofMembership).Perm ms := by
  refine (List.perm_ext_iff_of_nodup hc.nodup_membershipRecords.of_map
    (.of_map _ hms.nodup)).2 fun r => ?_
  simp only [List.mem_map, hr.mem_memberships_iff hs]
  constructor
  · rintro ⟨-, ⟨x, hx, e, he, rfl⟩, rfl⟩
    rwa [MembershipRecord.ofMembership_on (hc.linked.entity_id he)]
  · intro hmem
    obtain ⟨e, he⟩ := hr.exists_tree_entity_iff.2 (hms.entity r hmem)
    exact ⟨_, ⟨r, hmem, e, he, rfl⟩, MembershipRecord.ofMembership_on (hc.linked.entity_id he)⟩

end Replayed

/-- A hierarchy that was loaded holds what the snapshot lists. -/
theorem heldBy_of_toHierarchy (hload : s.toHierarchy = .ok h) : s.HeldBy h := by
  have hc := (Hierarchy.Reachable.loaded hload).consistent
  obtain ⟨hs, hr⟩ := toHierarchy_eq_ok_iff.1 hload
  have hperm : (s.entities.mergeSort notBelow).Perm s.entities := List.mergeSort_perm ..
  have hes := hs.entities.perm hperm.symm
  have hms := hs.memberships.perm hperm.symm (.refl _)
  refine ⟨(hr.toList_perm hes hc).trans hperm, hr.memberships_perm hes hc hms, fun m hm => ?_⟩
  obtain ⟨r, -, e, -, rfl⟩ := (hr.mem_memberships_iff hes).1 hm
  exact Permissions.ofFlags_inter_full _

/-- In another order the same records are loaded, but for the order of children and staff. -/
theorem toHierarchy_reordered (hp : s.Reordered s') (hload : s.toHierarchy = .ok h)
    (hload' : s'.toHierarchy = .ok h') : h.Reordered h' := by
  obtain ⟨hs, hr⟩ := toHierarchy_eq_ok_iff.1 hload
  obtain ⟨-, hr'⟩ := toHierarchy_eq_ok_iff.1 hload'
  have hperm : s.entities.Perm (s.entities.mergeSort notBelow) := (List.mergeSort_perm ..).symm
  have hperm' : (s'.entities.mergeSort notBelow).Perm s'.entities := List.mergeSort_perm ..
  exact hr.reordered hr' (hs.entities.perm hperm) (hs.memberships.perm hperm (.refl _))
    ((hperm.symm.trans hp.entities).trans hperm'.symm) hp.memberships

/-- A snapshot can be loaded exactly if its records fit together, and what is loaded holds exactly
these records. Their order decides neither whether they can be loaded nor, but for the order of
children and staff, what is loaded. -/
theorem loads_iff_consistent (s : Snapshot) :
    ((∃ h, s.toHierarchy = .ok h) ↔ s.Consistent) ∧
      (∀ h, s.toHierarchy = .ok h → s.HeldBy h) ∧
      ∀ s', s.Reordered s' →
        ((∃ h', s'.toHierarchy = .ok h') ↔ ∃ h, s.toHierarchy = .ok h) ∧
          ∀ h h', s.toHierarchy = .ok h → s'.toHierarchy = .ok h' → h.Reordered h' := by
  refine ⟨exists_toHierarchy_iff, fun h => heldBy_of_toHierarchy, fun s' hp => ⟨?_, fun h h' =>
    toHierarchy_reordered hp⟩⟩
  rw [exists_toHierarchy_iff, exists_toHierarchy_iff]
  exact ⟨fun hs => hs.reordered hp.symm, fun hs => hs.reordered hp⟩

/-- An institution of two faculties, with a membership of one user on each. Its entities may as well
come last first. -/
theorem loads_iff_consistent_of_reverse :
    let s : Snapshot :=
      { entities := [⟨.ofNat 1, .institution, none, 0⟩, ⟨.ofNat 2, .faculty, some (.ofNat 1), 5⟩,
          ⟨.ofNat 3, .faculty, some (.ofNat 1), 0⟩]
        memberships := [⟨.ofNat 5, .ofNat 7, .ofNat 3, { read := true }, none⟩,
          ⟨.ofNat 4, .ofNat 7, .ofNat 2, {}, some (.ofNat 8)⟩] }
    let s' : Snapshot :=
      { entities := s.entities.reverse, memberships := s.memberships.reverse }
    s.Consistent ∧ ∃ h h', s.toHierarchy = .ok h ∧ s'.toHierarchy = .ok h' ∧ s.HeldBy h ∧
      h.Reordered h' := by
  intro s s'
  have hp : s.Reordered s' :=
    ⟨(List.reverse_perm s.entities).symm, (List.reverse_perm s.memberships).symm⟩
  obtain ⟨hiff, hheld, hreordered⟩ := loads_iff_consistent s
  obtain ⟨hiff', hsame⟩ := hreordered s' hp
  have hok : s.toHierarchy.toOption.isSome := by
    rw [toHierarchy, List.mergeSort_of_pairwise (by decide)]
    decide +kernel
  obtain ⟨h, hload⟩ : ∃ h, s.toHierarchy = .ok h := by
    cases hload : s.toHierarchy with
    | error cause => simp [hload, Except.toOption] at hok
    | ok h => exact ⟨h, rfl⟩
  obtain ⟨h', hload'⟩ := hiff'.2 ⟨h, hload⟩
  exact ⟨hiff.1 ⟨h, hload⟩, h, h', hload, hload', hheld h hload, hsame h h' hload hload'⟩

end Snapshot

end StaffRights
