import StaffRights.Proofs.Snapshot.Records

/-!
# Replaying one record after the other

Whether a record is taken depends on what was replayed before it, and what it adds is one node or
one membership. Along the two lists this amounts to conditions on all records together: entities,
which come with higher levels first, must be `EntityRecord.Sound`, and the memberships after them
`MembershipRecord.Sound`.
-/

namespace StaffRights

open EntityRecord (Sound ParentOf AtOrAbove)

namespace Hierarchy

variable {h h' : Hierarchy} {e : Entity} {id : EntityId} {m : Membership}

/-! ## What is committed -/

/-- A place is found for a new institution on its own, and for anything else below an entity of the
kind just above. -/
theorem placeFor_eq_ok_iff {above : Option EntityId} {q : Option Entity} :
    h.placeFor e above = .ok q ↔ h.tree.entity e.id = none ∧
      (q = none ∧ above = none ∧ e.kind = .institution ∨
        ∃ id p, q = some p ∧ above = some id ∧ h.tree.entity id = some p ∧
          e.kind.above = some p.kind) := by
  refine ⟨h.placeFor_eq_ok, ?_⟩
  rintro ⟨hnew, ⟨rfl, rfl, hroot⟩ | ⟨id, p, rfl, rfl, hp, hkind⟩⟩
  · simp [placeFor, hnew, hroot, Kind.above]
  · simp [placeFor, hnew, hp, checkKind, hkind, Except.map]

/-- Committing an insertion attaches the entity, if a place is found. -/
theorem committed_insertEntity (above : Option EntityId) :
    (h.insertEntity e above).committed = (h.placeFor e above).map (h.attach e) := by
  rw [insertEntity_eq]
  cases h.placeFor e above <;> rfl

/-- Committing a count sets it on a known entity. -/
theorem committed_setAwarded (hid : (h.node? id).isSome) (count : UInt32) :
    (h.setAwarded id count).committed = .ok (h.modify id fun n => { n with awarded := count }) := by
  obtain ⟨n, hn⟩ := Option.isSome_iff_exists.1 hid
  rw [node?] at hn
  simp only [setAwarded, hn]
  rfl

/-- Committing a membership puts it, if it passes all checks. -/
theorem committed_insertMembership_eq_ok_iff :
    (h.insertMembership m).committed = .ok h' ↔
      h.tree.entity m.entity.id = some m.entity ∧ h.membership? m.id = none ∧
        h.conflicts m.entity.id m.user none = false ∧ h.putMembership m = h' := by
  rw [insertMembership_eq]
  split
  · next he => simp [Attempt.committed, Attempt.refuse, Except.map, he]
  · next he =>
    split
    · next hid =>
      simp [Attempt.committed, Attempt.refuse, Except.map, Option.isSome_iff_ne_none.1 hid]
    · next hid =>
      split
      · next hconf => simp [Attempt.committed, Attempt.refuse, Except.map, hconf]
      · next hconf =>
        have he := not_not.1 he
        simp only [Bool.not_eq_true, Option.isSome_eq_false_iff, Option.isNone_iff_eq_none]
          at hid hconf
        simp [Attempt.committed, staffChanged, Attempt.done, Except.map, he, hid, hconf]

end Hierarchy

namespace Snapshot

variable {es : List EntityRecord} {ms : List MembershipRecord} {h h' : Hierarchy}
  {r : EntityRecord} {id : EntityId} {m : Membership}

/-! ## One entity -/

/-- The record of an entity is replayed by attaching the entity and setting the count. -/
theorem replayEntity_eq_ok_iff :
    replayEntity h r = .ok h' ↔ ∃ q, h.placeFor r.entity r.parent = .ok q ∧
      (h.attach r.entity q).modify r.id (fun n => { n with awarded := r.awarded }) = h' := by
  rw [replayEntity, Hierarchy.committed_insertEntity]
  cases h.placeFor r.entity r.parent with
  | error cause => simp [Except.map, Except.mapError, bind, Except.bind]
  | ok q =>
    have hnew : ((h.attach r.entity q).node? r.id).isSome := by
      rw [Hierarchy.node?_attach, r.entity_id, if_pos rfl, Option.isSome_some]
    simp only [Except.map, bind, Except.bind, Hierarchy.committed_setAwarded hnew, Except.mapError,
      Except.ok.injEq, exists_eq_left']

namespace Replayed

/-- A place is found for a record exactly if its id is new and the records so far hold its parent.
-/
theorem placeFor_eq_ok_iff (hr : Replayed es [] h) (hs : Sound es) {q : Option Entity} :
    h.placeFor r.entity r.parent = .ok q ↔
      (r.id ∉ es.map (·.id) ∧ r.PlacedIn es) ∧ q = (r.node (es ++ [r]) []).parent := by
  rw [Hierarchy.placeFor_eq_ok_iff, r.entity_id, hr.tree_entity_eq_none_iff]
  constructor
  · rintro ⟨hnew, ⟨rfl, hnone, hroot⟩ | ⟨i, p, rfl, hparent, hp, hkind⟩⟩
    · exact ⟨⟨hnew, .inl ⟨hroot, hnone⟩⟩, by simp [EntityRecord.node, hnone]⟩
    · obtain ⟨x, hx, rfl, rfl⟩ := (hr.tree_entity_eq_some_iff hs).1 hp
      have hplaced : r.PlacedIn es := .inr ⟨x, hx, hparent, hkind⟩
      refine ⟨⟨hnew, hplaced⟩, ?_⟩
      rw [(hs.snoc hnew hplaced).node_parent (List.mem_append_left _ hx) hparent]
  · rintro ⟨⟨hnew, hplaced⟩, rfl⟩
    refine ⟨hnew, ?_⟩
    rcases hplaced with ⟨hroot, hnone⟩ | ⟨x, hx, hparent, hkind⟩
    · exact .inl ⟨by simp [EntityRecord.node, hnone], hnone, hroot⟩
    · have hsound := hs.snoc hnew (.inr ⟨x, hx, hparent, hkind⟩)
      exact .inr ⟨x.id, x.entity, hsound.node_parent (List.mem_append_left _ hx) hparent, hparent,
        (hr.tree_entity_eq_some_iff hs).2 ⟨x, hx, rfl, rfl⟩, hkind⟩

/-- Attaching the entity of a record in its place is what the record adds. -/
theorem attach (hr : Replayed es [] h) (hs : Sound es) (hnew : r.id ∉ es.map (·.id))
    (hplaced : r.PlacedIn es) :
    Replayed (es ++ [r]) [] ((h.attach r.entity (r.node (es ++ [r]) []).parent).modify r.id
      fun n => { n with awarded := r.awarded }) where
  node j := by
    have hsound := hs.snoc hnew hplaced
    rw [Hierarchy.node?_modify, Hierarchy.node?_attach, r.entity_id]
    by_cases hj : r.id = j
    · subst hj
      rw [if_pos rfl, if_pos rfl, (find?_key_eq_some_iff hsound.nodup).2 ⟨by simp, rfl⟩,
        Option.map_some, Option.map_some, hs.node_last hnew hplaced]
    · have hlast : [r].find? (·.id == j) = none := by simp [hj]
      rw [if_neg hj, if_neg hj, hr.node, List.find?_append, hlast, Option.or_none,
        hsound.map_id_node_parent (hplaced.mono (List.subset_append_left ..))]
      cases hfound : es.find? (·.id == j) with
      | none => simp
      | some x =>
        obtain ⟨hx, rfl⟩ := (find?_key_eq_some_iff hs.nodup).1 hfound
        rw [Option.map_some, Option.map_some, Option.map_some, hs.node_snoc hsound hx]
        split <;> simp
  index mid := by
    rw [Hierarchy.index_modify, Hierarchy.index_attach, hr.index]

/-- After some records another one can be replayed just if its id is new and its parent is among
them. -/
theorem replayEntity_eq_ok_iff (hr : Replayed es [] h) (hs : Sound es) :
    replayEntity h r = .ok h' ↔
      r.id ∉ es.map (·.id) ∧ r.PlacedIn es ∧ Replayed (es ++ [r]) [] h' := by
  simp only [Snapshot.replayEntity_eq_ok_iff, hr.placeFor_eq_ok_iff hs]
  constructor
  · rintro ⟨q, ⟨⟨hnew, hplaced⟩, rfl⟩, rfl⟩
    exact ⟨hnew, hplaced, hr.attach hs hnew hplaced⟩
  · rintro ⟨hnew, hplaced, hr'⟩
    exact ⟨_, ⟨⟨hnew, hplaced⟩, rfl⟩, (hr.attach hs hnew hplaced).unique hr'⟩

end Replayed

/-! ## One membership -/

/-- The record of a membership is replayed by putting the membership, if it passes all checks. -/
theorem replayMembership_eq_ok_iff {r : MembershipRecord} (hc : h.Consistent) :
    replayMembership h r = .ok h' ↔ ∃ e, h.tree.entity r.entity = some e ∧
      h.membership? r.id = none ∧ h.conflicts r.entity r.user none = false ∧
      h.putMembership (r.on e) = h' := by
  rw [replayMembership]
  cases he : h.tree.entity r.entity with
  | none => simp [Except.mapError]
  | some e =>
    have hid := hc.linked.entity_id he
    have hstep : (h.insertMembership (r.on e)).committed = .ok h' ↔ _ :=
      h.committed_insertMembership_eq_ok_iff
    simp only [MembershipRecord.on, hid, he, true_and] at hstep
    simp only [Option.some.injEq, exists_eq_left', MembershipRecord.on, ← hstep]
    exact mapError_eq_ok_iff

end Snapshot

namespace MembershipRecord

variable {es : List EntityRecord} {ms : List MembershipRecord} {r : MembershipRecord}

/-- Neither record's entity is at or above that of the other, if they are of the same user. -/
def ApartFrom (es : List EntityRecord) (a b : MembershipRecord) : Prop :=
  a.user = b.user → ¬ AtOrAbove es a.entity b.entity ∧ ¬ AtOrAbove es b.entity a.entity

/-- The membership records fit together, and onto the entity records. -/
structure Sound (es : List EntityRecord) (ms : List MembershipRecord) : Prop where
  /-- No id stands twice. -/
  nodup : (ms.map (·.id)).Nodup
  /-- Every membership is on a recorded entity. -/
  entity : ∀ r ∈ ms, r.entity ∈ es.map (·.id)
  /-- No user has two memberships on one entity, or on an entity and an ancestor of it. -/
  apart : ms.Pairwise (ApartFrom es)

/-- What fits together fits together without what comes after it. -/
theorem Sound.of_append {ms' : List MembershipRecord} (h : Sound es (ms ++ ms')) : Sound es ms where
  nodup := h.nodup.sublist ((List.sublist_append_left ms ms').map _)
  entity r hr := h.entity r (List.mem_append_left ms' hr)
  apart := (List.pairwise_append.1 h.apart).1

theorem Sound.nil : Sound es [] where
  nodup := List.nodup_nil
  entity _ hr := absurd hr List.not_mem_nil
  apart := .nil

/-- One membership more fits just if its id is new, its entity is there and it is apart from the
others. -/
theorem sound_snoc_iff :
    Sound es (ms ++ [r]) ↔ Sound es ms ∧ r.id ∉ ms.map (·.id) ∧ r.entity ∈ es.map (·.id) ∧
      ∀ x ∈ ms, ApartFrom es x r := by
  constructor
  · rintro ⟨hnodup, hentity, hapart⟩
    rw [List.map_append, List.map_singleton, List.nodup_append] at hnodup
    rw [List.pairwise_append] at hapart
    refine ⟨⟨hnodup.1, fun x hx => hentity x (List.mem_append_left _ hx), hapart.1⟩, ?_, ?_, ?_⟩
    · exact fun hr => hnodup.2.2 r.id hr r.id (List.mem_singleton_self _) rfl
    · exact hentity r (List.mem_append_right _ (List.mem_singleton_self _))
    · exact fun x hx => hapart.2.2 x hx r (List.mem_singleton_self _)
  · rintro ⟨⟨hnodup, hentity, hapart⟩, hnew, hr, hrapart⟩
    refine ⟨?_, ?_, ?_⟩
    · rw [List.map_append, List.map_singleton, List.nodup_append]
      refine ⟨hnodup, List.nodup_singleton _, fun a ha b hb => ?_⟩
      rw [List.mem_singleton] at hb
      rintro rfl
      exact hnew (hb ▸ ha)
    · intro x hx
      rcases List.mem_append.1 hx with hx | hx
      · exact hentity x hx
      · rwa [List.mem_singleton.1 hx]
    · rw [List.pairwise_append]
      refine ⟨hapart, List.pairwise_singleton _ _, fun x hx y hy => ?_⟩
      rw [List.mem_singleton.1 hy]
      exact hrapart x hx

end MembershipRecord

namespace Snapshot.Replayed

variable {es : List EntityRecord} {ms : List MembershipRecord} {h h' : Hierarchy}
  {r : MembershipRecord} {e : Entity}

/-- Storing the membership of a record is what the record adds. -/
theorem put (hr : Replayed es ms h) (hs : Sound es) (hnew : r.id ∉ ms.map (·.id))
    (he : h.tree.entity r.entity = some e) :
    Replayed es (ms ++ [r]) (h.putMembership (r.on e)) := by
  obtain ⟨y, hy, hid, rfl⟩ := (hr.tree_entity_eq_some_iff hs).1 he
  have hon : (r.on y.entity).entity.id = r.entity := hid
  refine ⟨fun j => ?_, fun mid => ?_⟩
  · rw [Hierarchy.node?_putMembership, hon, hr.node]
    cases hfound : es.find? (·.id == j) with
    | none => simp
    | some x =>
      obtain ⟨hx, rfl⟩ := (find?_key_eq_some_iff hs.nodup).1 hfound
      rw [Option.map_some, Option.map_some, Option.map_some]
      by_cases hj : r.entity = x.id
      · -- the new membership stands last on its entity
        obtain rfl : y = x := List.inj_on_of_nodup_map hs.nodup hy hx (hid.trans hj)
        have hlast : ∀ m ∈ (y.node es ms).staff, m.id ≠ r.id := by
          intro m hm hmid
          obtain ⟨x, hx, rfl⟩ := List.mem_map.1 hm
          exact hnew (List.mem_map.2 ⟨x, List.mem_of_mem_filter hx, hmid⟩)
        rw [if_pos hj, Hierarchy.putStaff_eq _ _ hlast]
        simp [EntityRecord.node, hj]
      · rw [if_neg hj]
        simp [EntityRecord.node, hj]
  · have hsome : (h.node? r.entity).isSome := by
      obtain ⟨n, hn, -⟩ := h.exists_node? he
      rw [hn, Option.isSome_some]
    rw [h.index_putMembership (r.on y.entity) (hon ▸ hsome), Std.ExtTreeMap.getElem?_insert, hon,
      hr.index, List.find?_append]
    by_cases hmid : r.id = mid
    · subst hmid
      have hnone : ms.find? (·.id == r.id) = none := find?_key_eq_none_iff.2 hnew
      simp [hnone, MembershipRecord.on]
    · have hcompare : compare r.id mid ≠ .eq := fun h => hmid (Std.LawfulEqOrd.eq_of_compare h)
      simp [hmid, hcompare, MembershipRecord.on]

/-- An id is new if no record that was replayed has it. -/
theorem membership?_eq_none_iff (hr : Replayed es ms h) (hs : Sound es) (hc : h.Consistent)
    (hms : MembershipRecord.Sound es ms) {mid : MembershipId} :
    h.membership? mid = none ↔ mid ∉ ms.map (·.id) := by
  simp only [Option.eq_none_iff_forall_ne_some, ne_eq, hc.membership?_eq_some_iff,
    hr.mem_memberships_iff hs]
  constructor
  · intro hnone hmem
    obtain ⟨x, hx, hid⟩ := List.mem_map.1 hmem
    obtain ⟨e, he⟩ := hr.exists_tree_entity_iff.2 (hms.entity x hx)
    exact hnone (x.on e) ⟨⟨x, hx, e, he, rfl⟩, hid⟩
  · rintro hnew - ⟨⟨x, hx, e, -, rfl⟩, hid⟩
    exact hnew (List.mem_map.2 ⟨x, hx, hid⟩)

/-- A user has no membership in the branch of an entity if none that was replayed is in its way. -/
theorem conflicts_eq_false_iff (hr : Replayed es ms h) (hs : Sound es) (hc : h.Consistent)
    (hms : MembershipRecord.Sound es ms) :
    h.conflicts r.entity r.user none = false ↔ ∀ x ∈ ms, x.ApartFrom es r := by
  simp only [Hierarchy.conflicts, List.any_eq_false, hc.mem_staffInBranch_iff,
    hr.mem_memberships_iff hs, hr.atOrAbove_iff hs]
  -- the memberships of the hierarchy are those of the records, one for one
  constructor
  · intro hnone x hx huser
    obtain ⟨e, he⟩ := hr.exists_tree_entity_iff.2 (hms.entity x hx)
    have hid : e.id = x.entity := hc.linked.entity_id he
    have hnot := hnone (x.on e)
    simp only [MembershipRecord.on, hid] at hnot
    rw [← not_or]
    exact fun habove => hnot ⟨⟨x, hx, e, he, rfl⟩, huser, habove⟩ (by simp)
  · rintro hapart - ⟨⟨x, hx, e, he, rfl⟩, huser, habove⟩
    have hid : e.id = x.entity := hc.linked.entity_id he
    simp only [MembershipRecord.on, hid] at huser habove
    have hnot := hapart x hx huser
    exact absurd habove (not_or.2 hnot)

/-- After some records another membership can be replayed just if it fits to them. -/
theorem replayMembership_eq_ok_iff (hr : Replayed es ms h) (hs : Sound es) (hc : h.Consistent)
    (hms : MembershipRecord.Sound es ms) :
    replayMembership h r = .ok h' ↔
      MembershipRecord.Sound es (ms ++ [r]) ∧ Replayed es (ms ++ [r]) h' := by
  rw [Snapshot.replayMembership_eq_ok_iff hc, MembershipRecord.sound_snoc_iff,
    hr.membership?_eq_none_iff hs hc hms, hr.conflicts_eq_false_iff hs hc hms]
  constructor
  · rintro ⟨e, he, hnew, hapart, rfl⟩
    exact ⟨⟨hms, hnew, hr.exists_tree_entity_iff.1 ⟨e, he⟩, hapart⟩, hr.put hs hnew he⟩
  · rintro ⟨⟨-, hnew, hentity, hapart⟩, hr'⟩
    obtain ⟨e, he⟩ := hr.exists_tree_entity_iff.2 hentity
    exact ⟨e, he, hnew, hapart, (hr.put hs hnew he).unique hr'⟩

/-! ## All records -/

/-- With higher levels first, entities can be replayed exactly if their records fit together. -/
theorem foldlM_replayEntity_eq_ok_iff {todo : List EntityRecord} (hr : Replayed es [] h)
    (hs : Sound es) (hsorted : (es ++ todo).Pairwise fun a b => a.kind.depth ≤ b.kind.depth) :
    todo.foldlM replayEntity h = .ok h' ↔
      Sound (es ++ todo) ∧ Replayed (es ++ todo) [] h' := by
  induction todo generalizing es h with
  | nil =>
    rw [List.append_nil]
    constructor
    · rintro ⟨⟩
      exact ⟨hs, hr⟩
    · rintro ⟨-, hr'⟩
      rw [hr.unique hr']
      rfl
  | cons x todo ih =>
    rw [foldlM_cons_eq_ok_iff]
    constructor
    · rintro ⟨k, hk, hrest⟩
      obtain ⟨hnew, hplaced, hr'⟩ := (hr.replayEntity_eq_ok_iff hs).1 hk
      rw [List.append_cons] at hsorted ⊢
      exact (ih hr' (hs.snoc hnew hplaced) hsorted).1 hrest
    · rintro ⟨hall, hrest⟩
      -- the parent of the next record is of a higher level, so it was replayed before
      obtain ⟨hnew, hplaced⟩ := hall.placed_before hsorted
      have hr' := hr.attach hs hnew hplaced
      rw [List.append_cons] at hsorted hall hrest
      exact ⟨_, (hr.replayEntity_eq_ok_iff hs).2 ⟨hnew, hplaced, hr'⟩,
        (ih hr' (hs.snoc hnew hplaced) hsorted).2 ⟨hall, hrest⟩⟩

/-- Memberships can be replayed exactly if their records fit together. -/
theorem foldlM_replayMembership_eq_ok_iff {todo : List MembershipRecord} (hr : Replayed es ms h)
    (hs : Sound es) (hc : h.Consistent) (hms : MembershipRecord.Sound es ms) :
    todo.foldlM replayMembership h = .ok h' ↔
      MembershipRecord.Sound es (ms ++ todo) ∧ Replayed es (ms ++ todo) h' := by
  -- by induction on what is still to be replayed, with what has been as the invariant
  induction todo generalizing ms h with
  | nil =>
    rw [List.append_nil]
    constructor
    · rintro ⟨⟩
      exact ⟨hms, hr⟩
    · rintro ⟨-, hr'⟩
      rw [hr.unique hr']
      rfl
  | cons x todo ih =>
    have hkeeps : ∀ {k}, replayMembership h x = .ok k → k.Consistent :=
      Hierarchy.replayMembership_keeps (fun _ c hc => hc.change c) hc
    rw [foldlM_cons_eq_ok_iff, List.append_cons]
    constructor
    · rintro ⟨k, hk, hrest⟩
      obtain ⟨hms', hr'⟩ := (hr.replayMembership_eq_ok_iff hs hc hms).1 hk
      exact (ih hr' (hkeeps hk) hms').1 hrest
    · rintro ⟨hall, hrest⟩
      have hms' := hall.of_append
      obtain ⟨-, hnew, hentity, -⟩ := MembershipRecord.sound_snoc_iff.1 hms'
      obtain ⟨e, he⟩ := hr.exists_tree_entity_iff.2 hentity
      have hr' := hr.put hs hnew he
      have hk := (hr.replayMembership_eq_ok_iff hs hc hms).2 ⟨hms', hr'⟩
      exact ⟨_, hk, (ih hr' (hkeeps hk) hms').2 ⟨hall, hrest⟩⟩

end Snapshot.Replayed

end StaffRights
