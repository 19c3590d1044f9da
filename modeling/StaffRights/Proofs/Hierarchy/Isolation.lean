import StaffRights.Proofs.Hierarchy.Parts
import StaffRights.Proofs.Hierarchy.Order
import StaffRights.Proofs.Hierarchy.Changes

/-!
# Institutions are isolated

A change that names nothing but ids of one institution, and unused ones, reads and writes nothing of
any other institution. It is answered as if the institution were alone, it does the same to the
institution as if it were alone, and it leaves all others as they are. So are all questions about
entities of one institution answered from that institution alone.
-/

namespace StaffRights

variable {own : EntityId → Prop}

/-! ## Attempts on a part -/

namespace Attempt

variable {α β : Type} {h k h' k' : Hierarchy}

/-- The second attempt is answered as the first; it leaves the part behind that the first leaves in
the set, and outside of the set the first leaves `h` as it was. -/
structure Alike (own : EntityId → Prop) (h : Hierarchy) (a b : Attempt α) : Prop where
  answer : b.answer = a.answer
  part : Hierarchy.IsPart own a.after b.after
  kept : Hierarchy.KeptOutside own h a.after

/-- Turned down for the same reason, both attempts leave what they were made on. -/
theorem alike_refuse (hp : Hierarchy.IsPart own h k) (r : Refusal) :
    Alike own h (refuse r h : Attempt α) (refuse r k) :=
  ⟨rfl, hp, .refl own h⟩

/-- Carried out with the same outcome, two attempts are alike if what they leave is. -/
theorem alike_done {value : α} {events : List Invalidation} {stale : Stale}
    (hp : Hierarchy.IsPart own h' k' ∧ Hierarchy.KeptOutside own h h') :
    Alike own h (done value events stale h') (done value events stale k') :=
  ⟨rfl, hp.1, hp.2⟩

/-- Behind the same check, attempts are alike if they are wherever it is passed. -/
theorem alike_guarded (hp : Hierarchy.IsPart own h k) {check : Except Refusal β}
    {next next' : β → Attempt α}
    (hnext : ∀ b, check = .ok b → Alike own h (next b) (next' b)) :
    Alike own h (guarded h check next) (guarded k check next') := by
  cases check with
  | error r => exact alike_refuse hp r
  | ok b => exact hnext b rfl

end Attempt

namespace Change

/-- The entities that a change names, new ones included. -/
def entityIds : Change → List EntityId
  | .insertEntity e parent => e.id :: parent.toList
  | .saveEntity id | .deleteEntity id | .setAwarded id _ => [id]
  | .moveEntity id parent => [id, parent]
  | .insertMembership m => [m.entity.id]
  | .updateMembership .. | .removeMembership _ => []

/-- The memberships that a change names, new ones included. -/
def membershipIds : Change → List MembershipId
  | .insertMembership m => [m.id]
  | .updateMembership id _ | .removeMembership id => [id]
  | _ => []

end Change

namespace Hierarchy

open Attempt (Alike alike_refuse alike_done alike_guarded)

variable {h k : Hierarchy} {id parent : EntityId} {e i : Entity} {m : Membership}
  {mid : MembershipId}

/-- A membership that is indexed in a set of entities is on an entity of the set. -/
theorem Consistent.own_of_membership? (hc : h.Consistent)
    (hmid : ∀ id, h.index[mid]? = some id → own id) (hm : h.membership? mid = some m) :
    own m.entity.id := by
  obtain ⟨hmem, rfl⟩ := hc.membership?_eq_some_iff.1 hm
  exact hmid _ (hc.index_of_membership hmem)

namespace IsPart

variable (hp : IsPart own h k) (hc : h.Consistent) (hk : k.Consistent) (hown : h.tree.Closed own)

include hp

/-- Saving an entity of the set is alike on the part. -/
theorem saveEntity (hid : own id) : Alike own h (h.saveEntity id) (k.saveEntity id) := by
  rw [Hierarchy.saveEntity, Hierarchy.saveEntity, hp.sameOn.entity hid, hp.sameOn.parent hid]
  cases h.tree.entity id with
  | none => exact alike_refuse hp _
  | some e => exact alike_done ⟨hp, .refl own h⟩

/-- Setting the count of an entity of the set is alike on the part. -/
theorem setAwarded (hid : own id) (count : UInt32) :
    Alike own h (h.setAwarded id count) (k.setAwarded id count) := by
  have hnode : k.nodes[id]? = h.nodes[id]? := hp.inside hid
  rw [Hierarchy.setAwarded, Hierarchy.setAwarded, hnode]
  cases h.nodes[id]? with
  | none => exact alike_refuse hp _
  | some n => exact alike_done (hp.modify hid _)

include hc

/-- Inserting an entity of the set below one of the set is alike on the part. -/
theorem insertEntity {above : Option EntityId} (he : own e.id)
    (habove : ∀ id, above = some id → own id) :
    Alike own h (h.insertEntity e above) (k.insertEntity e above) := by
  have hplace : k.placeFor e above = h.placeFor e above := by
    simp only [placeFor, hp.sameOn.entity he]
    cases h.tree.entity e.id with
    | some x => rfl
    | none =>
      cases above with
      | none => rfl
      | some id => simp only [hp.sameOn.entity (habove id rfl)]
  rw [Hierarchy.insertEntity_eq, Hierarchy.insertEntity_eq, hplace]
  refine alike_guarded hp fun q hq => alike_done (hp.attach he fun p hpq => ?_)
  subst hpq
  obtain ⟨-, ⟨hnone, -⟩ | ⟨id, x, hx, rfl, hpe, -⟩⟩ := h.placeFor_eq_ok hq
  · cases hnone
  · cases hx
    rw [hc.linked.entity_id hpe]
    exact habove id rfl

include hk hown

/-- Moving inside of the set, an entity meets the same memberships in the part. -/
theorem clashesBelow (hid : own id) (hparent : own parent) :
    k.clashesBelow id parent = h.clashesBelow id parent := by
  have hs := hp.sameOn
  have hdown := hs.flatMap_staff fun e he => hown.mem_branch_downward hc.linked he hid
  have hup := hs.flatMap_staff fun e he => hown.mem_branch_upward hc.linked he hparent
  simp only [Hierarchy.clashesBelow, hs.branch hown hc.linked hk.linked hid, hdown,
    hs.branch hown hc.linked hk.linked hparent, ← List.any_flatMap, hup]

/-- Moving inside of the set is alike on the part. -/
theorem moveEntity (hid : own id) (hparent : own parent) :
    Alike own h (h.moveEntity id parent) (k.moveEntity id parent) := by
  have hs := hp.sameOn
  rw [Hierarchy.moveEntity_eq, Hierarchy.moveEntity_eq, hs.entity hid, hs.entity hparent]
  cases he : h.tree.entity id with
  | none => exact alike_refuse hp _
  | some e =>
    cases hpe : h.tree.entity parent with
    | none => exact alike_refuse hp _
    | some p =>
      obtain rfl := hc.linked.entity_id hpe
      refine alike_guarded hp fun _ _ => ?_
      rw [hs.institution? hown hc.linked hk.linked hid,
        hs.institution? hown hc.linked hk.linked hparent, hs.parent hid,
        hp.clashesBelow hc hk hown hid hparent]
      split_ifs
      · exact alike_refuse hp _
      · exact alike_done ⟨hp, .refl own h⟩
      · exact alike_refuse hp _
      · exact alike_done (hp.relink hown he hid hparent)

/-- Deleting an entity of the set is alike on the part. -/
theorem deleteEntity (hid : own id) :
    Alike own h (h.deleteEntity id) (k.deleteEntity id) := by
  have hs := hp.sameOn
  have hawarded : ((h.tree.branch id .downward).any fun d => k.tree.awarded d.id) =
      (h.tree.branch id .downward).any fun d => h.tree.awarded d.id := by
    rw [Bool.eq_iff_iff, List.any_eq_true, List.any_eq_true]
    refine exists_congr fun d => and_congr_right fun hd => ?_
    rw [hs.awarded (hown.mem_branch_downward hc.linked hd hid)]
  rw [Hierarchy.deleteEntity_eq, Hierarchy.deleteEntity_eq, hs.entity hid,
    hs.branch hown hc.linked hk.linked hid, hawarded, hs.parent hid]
  cases he : h.tree.entity id with
  | none => exact alike_refuse hp _
  | some e =>
    obtain rfl := hc.linked.entity_id he
    obtain ⟨hremoved, hpart⟩ := hp.dropSubtree hc hk hown he hid
    simp only
    split_ifs
    · exact alike_refuse hp _
    · rw [hremoved]
      exact alike_done hpart

/-- On an entity of the set a user meets the same memberships in the part. -/
theorem conflicts (hid : own id) (v : UserId) (editing : Option MembershipId) :
    k.conflicts id v editing = h.conflicts id v editing := by
  rw [Hierarchy.conflicts, Hierarchy.conflicts,
    hp.sameOn.staffInBranch hown hc.linked hk.linked hid]

/-- A membership on an entity of the set is inserted alike on the part, unless its id is in use
outside. -/
theorem insertMembership (he : own m.entity.id) (hmid : ∀ id, h.index[m.id]? = some id → own id) :
    Alike own h (h.insertMembership m) (k.insertMembership m) := by
  rw [Hierarchy.insertMembership_eq, Hierarchy.insertMembership_eq, hp.sameOn.entity he,
    hp.membership? hc hk hmid, hp.conflicts hc hk hown he]
  split_ifs
  · exact alike_refuse hp _
  · exact alike_refuse hp _
  · exact alike_refuse hp _
  · exact alike_done (hp.putMembership he)

/-- A membership that is not outside of the set is updated alike on the part. -/
theorem updateMembership (hmid : ∀ id, h.index[mid]? = some id → own id)
    (permissions : Permissions) :
    Alike own h (h.updateMembership mid permissions) (k.updateMembership mid permissions) := by
  rw [Hierarchy.updateMembership_eq, Hierarchy.updateMembership_eq, hp.membership? hc hk hmid]
  cases hm : h.membership? mid with
  | none => exact alike_refuse hp _
  | some m =>
    have he := hc.own_of_membership? hmid hm
    simp only [hp.conflicts hc hk hown he]
    split_ifs
    · exact alike_refuse hp _
    · exact alike_done (hp.putMembership he)

omit hown in
/-- A membership that is not outside of the set is removed alike on the part. -/
theorem removeMembership (hmid : ∀ id, h.index[mid]? = some id → own id) :
    Alike own h (h.removeMembership mid) (k.removeMembership mid) := by
  rw [Hierarchy.removeMembership_eq, Hierarchy.removeMembership_eq, hp.membership? hc hk hmid]
  cases hm : h.membership? mid with
  | none => exact alike_refuse hp _
  | some m =>
    have he := hc.own_of_membership? hmid hm
    have hdrop := hp.dropMembership hc hk hmid
    have hfst : (h.dropMembership mid).1 = some m := by rw [dropMembership_fst, hm]
    have hkfst : (k.dropMembership mid).1 = some m := by
      rw [dropMembership_fst, hp.membership? hc hk hmid, hm]
    simp only [hp.sameOn.staff he]
    split_ifs
    · exact alike_refuse hp _
    · -- both drop the membership that was found
      rcases hd : h.dropMembership mid with ⟨x, after⟩
      rcases hkd : k.dropMembership mid with ⟨y, kafter⟩
      rw [hd] at hfst hdrop
      rw [hkd] at hkfst hdrop
      obtain rfl : x = some m := hfst
      obtain rfl : y = some m := hkfst
      exact alike_done hdrop

/-- A change that names only what is in the set is attempted alike on the part and on the whole. -/
theorem attempt (c : Change) (hids : ∀ id ∈ c.entityIds, own id)
    (hmids : ∀ mid ∈ c.membershipIds, ∀ id, h.index[mid]? = some id → own id) :
    Alike own h (h.attempt c) (k.attempt c) := by
  -- each change reads and writes at its own ids, and up and down the links from there
  cases c with
  | insertEntity e above =>
    refine hp.insertEntity hc (hids _ (List.mem_cons_self ..)) fun id hid => hids id ?_
    simp [Change.entityIds, hid]
  | saveEntity id => exact hp.saveEntity (hids id (List.mem_singleton_self id))
  | moveEntity id parent =>
    exact hp.moveEntity hc hk hown (hids id (by simp [Change.entityIds]))
      (hids parent (by simp [Change.entityIds]))
  | deleteEntity id => exact hp.deleteEntity hc hk hown (hids id (List.mem_singleton_self id))
  | setAwarded id count => exact hp.setAwarded (hids id (List.mem_singleton_self id)) count
  | insertMembership m =>
    exact hp.insertMembership hc hk hown (hids _ (List.mem_singleton_self _))
      (hmids _ (List.mem_singleton_self _))
  | updateMembership mid permissions =>
    exact hp.updateMembership hc hk hown (hmids mid (List.mem_singleton_self mid)) permissions
  | removeMembership mid =>
    exact hp.removeMembership hc hk (hmids mid (List.mem_singleton_self mid))

end IsPart

/-! ## One institution -/

/-- What a hierarchy holds of one institution: the nodes below it, and the index entries of their
memberships. -/
def within (h : Hierarchy) (i : Entity) : Hierarchy where
  nodes := h.nodes.filter fun id _ => h.tree.institution? id == some i
  index := h.index.filter fun _ id => h.tree.institution? id == some i

/-- Of the nodes, those of the institution are left. -/
theorem node?_within (h : Hierarchy) (i : Entity) (id : EntityId) :
    (h.within i).node? id = if h.tree.institution? id = some i then h.node? id else none := by
  simp only [within, node?, Std.ExtTreeMap.getElem?_filter']
  cases h.nodes[id]? <;> simp [Option.filter]

/-- Of the index, what leads to entities of the institution is left. -/
theorem getElem?_index_within (h : Hierarchy) (i : Entity) :
    (h.within i).index[mid]? = some id ↔
      h.index[mid]? = some id ∧ h.tree.institution? id = some i := by
  simp [within, Option.filter_eq_some_iff]

/-- The id is that of an entity of the institution, or of none at all. -/
def OpenTo (h : Hierarchy) (i : Entity) (id : EntityId) : Prop :=
  h.tree.institution? id = some i ∨ h.tree.entity id = none

/-- What is of another institution is not open. -/
theorem not_openTo {i' : Entity} (hid : h.tree.institution? id = some i') (hne : i' ≠ i) :
    ¬ h.OpenTo i id := by
  rintro (hinst | hnone)
  · rw [hid, Option.some.injEq] at hinst
    exact hne hinst
  · rw [Tree.Linked.institution?_of_unknown hnone] at hid
    cases hid

/-- An institution alone is the part of its own ids and of unused ones. -/
theorem isPart_within (h : Hierarchy) (i : Entity) : IsPart (h.OpenTo i) h (h.within i) where
  inside {id} hid := by
    rw [node?_within]
    split
    · rfl
    · next hne =>
      have hnone := hid.resolve_left hne
      rw [tree_entity, Option.map_eq_none_iff] at hnone
      exact hnone.symm
  outside {id} hid := by
    rw [node?_within, if_neg fun hinst => hid (.inl hinst)]

namespace Consistent

variable (hc : h.Consistent)

include hc

/-- No link leads out of an institution. -/
theorem closed_openTo (i : Entity) : h.tree.Closed (h.OpenTo i) := by
  intro id p hp
  obtain ⟨e, he, hpe, -⟩ := hc.linked.parent_entity hp
  simp [OpenTo, hc.linked.institution?_of_parent hp, he, hpe]

/-- An institution alone is consistent. -/
theorem within (i : Entity) : (h.within i).Consistent := by
  refine (h.isPart_within i).consistent hc (hc.closed_openTo i) fun {mid id} => ?_
  rw [getElem?_index_within]
  refine and_congr_right fun hindex => (or_iff_left fun hnone => ?_).symm
  -- the index leads to entities only
  obtain ⟨m, hm, -⟩ := hc.index_iff.1 hindex
  rw [hc.staff_entity hm] at hnone
  cases hnone

/-! ## Changes to one institution -/

/-- Insertions apart, no change brings an entity. -/
theorem entity_of_change {c : Change} (hne : ∀ e above, c ≠ .insertEntity e above) :
    (h.change c).tree.entity id = some e → h.tree.entity id = some e := by
  apply change_of_done (P := fun k => k.tree.entity id = some e → h.tree.entity id = some e)
  · exact fun he => he
  intro o h' hd he
  cases hd with
  | @insertEntity x above => exact absurd rfl (hne x above)
  | saveEntity => exact he
  | stay => exact he
  | moveEntity hx => rwa [h.tree_entity_relink hx] at he
  | deleteEntity hx =>
    obtain rfl := hc.linked.entity_id hx
    obtain ⟨-, hw⟩ := hc.dropSubtree hx
    exact hw.entity_subset he
  | setAwarded => rwa [(h.sameLinks_setAwarded _ _).entity] at he
  | insertMembership => rwa [(h.sameLinks_putMembership _).entity] at he
  | updateMembership => rwa [(h.sameLinks_putMembership _).entity] at he
  | removeMembership => rwa [(h.sameLinks_dropMembership _).entity] at he

/-- An institution is there already, or the change founds it. -/
theorem institution_of_change {c : Change} (he : (h.change c).tree.entity id = some e)
    (hkind : e.kind = .institution) :
    h.tree.entity id = some e ∨ c = .insertEntity e none ∧ h.tree.entity e.id = none := by
  by_cases hinsert : ∃ x above, c = .insertEntity x above
  · obtain ⟨x, above, rfl⟩ := hinsert
    obtain ⟨r, heq⟩ | ⟨o, after, heq, q, hq, -, rfl⟩ := h.insertEntity_meets x above
    · rw [Hierarchy.change, heq] at he
      exact .inl he
    · rw [Hierarchy.change, heq, tree_entity_attach] at he
      split at he
      · cases he
        -- the new entity is an institution, so its place is at the root
        obtain ⟨hnew, ⟨-, rfl, -⟩ | ⟨j, p, -, -, -, habove⟩⟩ := h.placeFor_eq_ok hq
        · exact .inr ⟨rfl, hnew⟩
        · exact absurd hkind (Kind.ne_institution_of_above habove)
      · exact .inl he
  · exact .inl (hc.entity_of_change (fun x above hx => hinsert ⟨x, above, hx⟩) he)

end Consistent

/-- The change names nothing but what is of the institution or unused, and founds no institution. -/
structure Confined (h : Hierarchy) (i : Entity) (c : Change) : Prop where
  entities : ∀ id ∈ c.entityIds, h.tree.institution? id = some i ∨ h.tree.entity id = none
  memberships : ∀ mid ∈ c.membershipIds, ∀ id, h.index[mid]? = some id →
    h.tree.institution? id = some i
  founds : ∀ id, c = .insertEntity ⟨.institution, id⟩ none → h.tree.entity id ≠ none

namespace Consistent

variable (hc : h.Consistent) {c : Change} (hconf : h.Confined i c)

include hc hconf

/-- A change that is open to an institution is alike on the institution alone. -/
theorem alike_within : Alike (h.OpenTo i) h (h.attempt c) ((h.within i).attempt c) :=
  (h.isPart_within i).attempt hc (hc.within i) (hc.closed_openTo i) c hconf.entities
    fun mid hmid id hid => .inl (hconf.memberships mid hmid id hid)

/-- A change confined to an institution changes what is held of it as if it were alone. -/
theorem within_change (hi : h.tree.entity i.id = some i) (hkind : i.kind = .institution) :
    (h.change c).within i = (h.within i).change c := by
  obtain ⟨-, hpart, hkept⟩ := hc.alike_within hconf
  rw [after_attempt] at hpart hkept
  rw [after_attempt] at hpart
  have hc' := hc.change c
  have hk' := (hc.within i).change c
  have hclosed := hpart.closed (hc.closed_openTo i) hkept hk'
  have hown : h.OpenTo i i.id := .inl (hc.linked.institution?_self hi hkind)
  -- afterwards, too, the entities with open ids are those of the institution
  have hiff : ∀ {id e}, (h.change c).tree.entity id = some e →
      ((h.change c).tree.institution? id = some i ↔ h.OpenTo i id) := by
    intro id e he
    constructor
    · intro hinst
      obtain ⟨-, -, habove⟩ := hc'.linked.institution?_eq_some_iff.1 hinst
      exact (hclosed.atOrAbove_iff habove).1 hown
    · intro hid
      obtain ⟨r, hr⟩ := hk'.linked.exists_institution ((hpart.sameOn.entity hid).trans he)
      obtain ⟨hrkind, hre, habove⟩ := hk'.linked.institution?_eq_some_iff.1 hr
      have hrid := hpart.own_of_entity hre
      rw [hpart.sameOn.entity hrid] at hre
      rw [hpart.sameOn.atOrAbove_iff hclosed hid] at habove
      -- no institution was founded, and there is no other with an open id
      have hr : h.tree.entity r.id = some r := by
        refine (hc.institution_of_change hre hrkind).resolve_right fun hfounded => ?_
        obtain ⟨rfl, hnew⟩ := hfounded
        exact hconf.founds r.id (by rw [← hrkind]) hnew
      have hself := hc.linked.institution?_self hr hrkind
      obtain rfl : r = i := by
        have hinst := hrid.resolve_right (by simp [hr])
        rwa [hself, Option.some.injEq] at hinst
      exact hc'.linked.institution?_eq_some_iff.2 ⟨hrkind, hre, habove⟩
  refine (hc'.within i).eq_of_node? hk' fun id => ?_
  rw [node?_within]
  cases hn : (h.change c).node? id with
  | none =>
    rw [ite_self]
    by_cases hid : h.OpenTo i id
    · rw [hpart.inside hid, hn]
    · rw [hpart.outside hid]
  | some n =>
    have he := (h.change c).entity_of_node? hn
    by_cases hid : h.OpenTo i id
    · rw [if_pos ((hiff he).2 hid), hpart.inside hid, hn]
    · rw [if_neg fun hinst => hid ((hiff he).1 hinst), hpart.outside hid]

end Consistent

/-- In a reachable hierarchy, a change confined to an institution is answered as if the institution
were alone, changes what is held of it as if it were alone, and leaves every node of another
institution as it was. Whatever is asked about an entity of the institution is answered as if the
institution were alone. -/
theorem Reachable.institutions_isolated (hr : h.Reachable) (hi : h.tree.entity i.id = some i)
    (hkind : i.kind = .institution) :
    (∀ c, h.Confined i c →
      ((h.within i).attempt c).answer = (h.attempt c).answer ∧
      (h.within i).change c = (h.change c).within i ∧
      ∀ id i', h.tree.institution? id = some i' → i' ≠ i →
        (h.change c).node? id = h.node? id) ∧
    ∀ id, h.tree.institution? id = some i →
      (∀ u, (h.within i).tree.rights id u = h.tree.rights id u) ∧
      (∀ u required, (h.within i).tree.permits id u required = h.tree.permits id u required) ∧
      (∀ reach, (h.within i).tree.branch id reach = h.tree.branch id reach) ∧
      (h.within i).tree.institution? id = h.tree.institution? id ∧
      (∀ u requested, (h.within i).tree.mayGrant u id requested = h.tree.mayGrant u id requested) ∧
      ∀ u, (h.within i).tree.mayReceive u id = h.tree.mayReceive u id := by
  have hc := hr.consistent
  have ht := hc.linked
  have ht' := (hc.within i).linked
  have hown := hc.closed_openTo i
  have hs := (h.isPart_within i).sameOn
  refine ⟨fun c hconf => ?_, fun id hinst => ?_⟩
  · have halike := hc.alike_within hconf
    refine ⟨halike.answer, (hc.within_change hconf hi hkind).symm, fun id i' hid hne => ?_⟩
    rw [← after_attempt]
    exact halike.kept (not_openTo hid hne)
  · have hid : h.OpenTo i id := .inl hinst
    exact ⟨hs.rights hown ht hid, hs.permits hown ht hid, hs.branch hown ht ht' hid,
      hs.institution? hown ht ht' hid, hs.mayGrant hown ht hid, hs.mayReceive hown ht ht' hid⟩

/-- Two institutions share a user. Deleting the faculty of the one takes the user's membership there
along, and the user keeps the one on the other. -/
theorem Reachable.institutions_isolated_of_shared_user :
    let h := (∅ : Hierarchy).run [.insertEntity ⟨.institution, .ofNat 1⟩ none,
      .insertEntity ⟨.faculty, .ofNat 2⟩ (some (.ofNat 1)),
      .insertEntity ⟨.institution, .ofNat 3⟩ none,
      .insertMembership ⟨.ofNat 5, .ofNat 7, ⟨.faculty, .ofNat 2⟩, .full, none⟩,
      .insertMembership ⟨.ofNat 6, .ofNat 7, ⟨.institution, .ofNat 3⟩, .full, none⟩]
    let i : Entity := ⟨.institution, .ofNat 1⟩
    let c : Change := .deleteEntity (.ofNat 2)
    (h.change c).size = 2 ∧ ((h.within i).attempt c).answer = (h.attempt c).answer ∧
      (h.within i).change c = (h.change c).within i ∧
      (h.change c).node? (.ofNat 3) = h.node? (.ofNat 3) ∧
      (h.within i).tree.rights (.ofNat 2) (.student (.ofNat 7)) =
        h.tree.rights (.ofNat 2) (.student (.ofNat 7)) := by
  intro h i c
  obtain ⟨hchanges, hquestions⟩ := Reachable.institutions_isolated (h := h) (i := i)
    (.run .empty _) (by decide +kernel) rfl
  have hconf : h.Confined i c :=
    ⟨by decide +kernel, by simp [c, Change.membershipIds], by simp [c]⟩
  obtain ⟨hanswer, hwithin, hkept⟩ := hchanges c hconf
  exact ⟨by decide +kernel, hanswer, hwithin,
    hkept (.ofNat 3) ⟨.institution, .ofNat 3⟩ (by decide +kernel) (by decide),
    (hquestions (.ofNat 2) (by decide +kernel)).1 (.student (.ofNat 7))⟩

end Hierarchy

end StaffRights
