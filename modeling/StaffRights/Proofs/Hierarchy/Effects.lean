import StaffRights.Hierarchy.Staff
import StaffRights.Proofs.Hierarchy.Deletion
import StaffRights.Proofs.Results

/-!
# Effects of changes

Every change to a hierarchy is one function that checks, and then does one of few things. `Effect`
lists these, each with what has been checked before and whose rights are reported stale. What is to
hold after every change is shown effect by effect.
-/

namespace StaffRights

namespace Attempt

variable {α β : Type} {a : Attempt α} {h : Hierarchy} {Q Q' : Outcome α → Hierarchy → Prop}

/-- The attempt was turned down and left `h` as it was, or it was carried out as `Q` says. -/
def Meets (a : Attempt α) (h : Hierarchy) (Q : Outcome α → Hierarchy → Prop) : Prop :=
  (∃ r, a = refuse r h) ∨ ∃ o after, a = ⟨.ok o, after⟩ ∧ Q o after

theorem meets_refuse {r : Refusal} : (refuse r h).Meets h Q := .inl ⟨r, rfl⟩

theorem meets_done {value : α} {events : List Invalidation} {stale : Stale} {after : Hierarchy}
    (hQ : Q ⟨value, events, stale⟩ after) : (done value events stale after).Meets h Q :=
  .inr ⟨⟨value, events, stale⟩, after, rfl, hQ⟩

/-- Behind a check, only what passes it matters. -/
theorem meets_guarded {check : Except Refusal β} {next : β → Attempt α}
    (hnext : ∀ b, check = .ok b → (next b).Meets h Q) : (guarded h check next).Meets h Q := by
  cases check with
  | error r => exact meets_refuse
  | ok b => exact hnext b rfl

/-- A weaker condition is met as well. -/
theorem Meets.mono (ha : a.Meets h Q) (hQ : ∀ o after, Q o after → Q' o after) :
    a.Meets h Q' := by
  rcases ha with hr | ⟨o, after, rfl, ho⟩
  · exact .inl hr
  · exact .inr ⟨o, after, rfl, hQ o after ho⟩

/-- An attempt that answers with an outcome was carried out. -/
theorem Meets.of_ok (ha : a.Meets h Q) {o : Outcome α} (ho : a.answer = .ok o) : Q o a.after := by
  rcases ha with ⟨r, rfl⟩ | ⟨o', after, rfl, hQ⟩
  · cases ho
  · cases ho
    exact hQ

/-- What holds of `h`, and of whatever is left when the attempt is carried out, holds afterwards. -/
theorem Meets.after {P : Hierarchy → Prop} (ha : a.Meets h Q) (hrefused : P h)
    (hdone : ∀ o after, Q o after → P after) : P a.after := by
  rcases ha with ⟨r, rfl⟩ | ⟨o, after, rfl, ho⟩
  · exact hrefused
  · exact hdone o after ho

end Attempt

namespace Hierarchy

variable {h h' : Hierarchy} {stale : Stale}

/-! ## What each change checks and does -/

section Operations

variable (h) (e : Entity) (m : Membership) (id parent : EntityId) (mid : MembershipId)

/-- The check passes only the kind just above. -/
theorem checkKind_eq_ok {k : Kind} {p : Entity} {u : Unit} (hk : checkKind k p = .ok u) :
    k.above = some p.kind := by
  by_contra hne
  rw [checkKind, if_neg hne] at hk
  cases hk

/-- A place is found for an unknown entity: at the root for an institution, and else below an entity
of the kind just above. -/
theorem placeFor_eq_ok {e : Entity} {above : Option EntityId} {q : Option Entity}
    (hq : h.placeFor e above = .ok q) :
    h.tree.entity e.id = none ∧
      (q = none ∧ above = none ∧ e.kind = .institution ∨
        ∃ id p, q = some p ∧ above = some id ∧ h.tree.entity id = some p ∧
          e.kind.above = some p.kind) := by
  unfold placeFor at hq
  split at hq
  · cases hq
  · next id hnew =>
    split at hq
    · cases hq
    · next p hp =>
      cases hk : checkKind e.kind p with
      | error r =>
        rw [hk] at hq
        cases hq
      | ok u =>
        rw [hk] at hq
        cases hq
        exact ⟨hnew, .inr ⟨id, p, rfl, rfl, hp, checkKind_eq_ok hk⟩⟩
  · next hnew =>
    split at hq
    · cases hq
    · next hroot =>
      cases hq
      -- only an institution has no kind above
      have hinst : e.kind = .institution := by
        cases hk : e.kind <;> simp [hk, Kind.above] at hroot ⊢
      exact ⟨hnew, .inl ⟨rfl, rfl, hinst⟩⟩

/-- Whoever is inserted has found a place, and is attached there. -/
theorem insertEntity_meets (above : Option EntityId) :
    (h.insertEntity e above).Meets h fun o after =>
      ∃ q, h.placeFor e above = .ok q ∧ o = ⟨e, invalidateParent q, .everyone⟩ ∧
        after = h.attach e q := by
  rw [insertEntity_eq]
  exact Attempt.meets_guarded fun q hq => Attempt.meets_done ⟨q, hq, rfl, rfl⟩

/-- Saving announces the parent and changes nothing. -/
theorem saveEntity_meets :
    (h.saveEntity id).Meets h fun o after =>
      ∃ e, h.tree.entity id = some e ∧
        o = ⟨e, invalidateParent (h.tree.parent id), .nobody⟩ ∧ after = h := by
  rw [saveEntity]
  split
  · exact Attempt.meets_refuse
  · next e he => exact Attempt.meets_done ⟨e, he, rfl, rfl⟩

/-- Setting a count announces nothing and changes the count. -/
theorem setAwarded_meets (count : UInt32) :
    (h.setAwarded id count).Meets h fun o after =>
      o = ⟨(), [], .nobody⟩ ∧ after = h.modify id fun n => { n with awarded := count } := by
  rw [setAwarded]
  split
  · exact Attempt.meets_refuse
  · exact Attempt.meets_done ⟨rfl, rfl⟩

/-- A move that is carried out changes nothing if the entity is there already, and else relinks it.
-/
theorem moveEntity_meets :
    (h.moveEntity id parent).Meets h fun o after =>
      ∃ e p, h.tree.entity id = some e ∧ h.tree.entity parent = some p ∧
        e.kind.above = some p.kind ∧ h.tree.institution? id = h.tree.institution? p.id ∧
        (h.tree.parent id = some p ∧ o = ⟨e, [⟨p⟩], .nobody⟩ ∧ after = h ∨
          h.tree.parent id ≠ some p ∧ h.clashesBelow id p.id = false ∧
            o = ⟨e, invalidateParent (h.tree.parent id) ++ [⟨p⟩], .everyone⟩ ∧
            after = h.relink id p) := by
  rw [moveEntity_eq]
  split
  · next e p he hp =>
    refine Attempt.meets_guarded fun _ hk => ?_
    split
    · exact Attempt.meets_refuse
    · next hinst =>
      have hinst := not_not.1 hinst
      split
      · next hpar =>
        exact Attempt.meets_done
          ⟨e, p, he, hp, checkKind_eq_ok hk, hinst, .inl ⟨hpar, rfl, rfl⟩⟩
      · next hpar =>
        split
        · exact Attempt.meets_refuse
        · next hclash =>
          exact Attempt.meets_done ⟨e, p, he, hp, checkKind_eq_ok hk, hinst,
            .inr ⟨hpar, by simpa using hclash, rfl, rfl⟩⟩
  · exact Attempt.meets_refuse

/-- What is deleted was not protected, and is dropped with everything below it. -/
theorem deleteEntity_meets :
    (h.deleteEntity id).Meets h fun o after =>
      ∃ e, h.tree.entity id = some e ∧
        (∀ d ∈ h.tree.branch id .downward, h.tree.awarded d.id = false) ∧
        o = ⟨(h.dropSubtree e).2, invalidateParent (h.tree.parent id), .everyone⟩ ∧
        after = (h.dropSubtree e).1 := by
  rw [deleteEntity_eq]
  split
  · exact Attempt.meets_refuse
  · next e he =>
    split
    · exact Attempt.meets_refuse
    · next haw => exact Attempt.meets_done ⟨e, he, by simpa using haw, rfl, rfl⟩

/-- Whoever joins a staff has found the entity, brings a new id and conflicts with nobody. -/
theorem insertMembership_meets :
    (h.insertMembership m).Meets h fun o after =>
      h.tree.entity m.entity.id = some m.entity ∧ h.membership? m.id = none ∧
        h.conflicts m.entity.id m.user none = false ∧ o = ⟨m, [⟨m.entity⟩], .user m.user⟩ ∧
        after = h.putMembership m := by
  rw [insertMembership_eq]
  split
  · exact Attempt.meets_refuse
  · next he =>
    split
    · exact Attempt.meets_refuse
    · next hid =>
      split
      · exact Attempt.meets_refuse
      · next hconf =>
        exact Attempt.meets_done ⟨not_not.1 he, by simpa using hid, by simpa using hconf, rfl, rfl⟩

/-- An updated membership is found, and conflicts with no other. -/
theorem updateMembership_meets (permissions : Permissions) :
    (h.updateMembership mid permissions).Meets h fun o after =>
      ∃ m, h.membership? mid = some m ∧ h.conflicts m.entity.id m.user (some mid) = false ∧
        o = ⟨{ m with permissions := permissions }, [⟨m.entity⟩], .user m.user⟩ ∧
        after = h.putMembership { m with permissions := permissions } := by
  rw [updateMembership_eq]
  split
  · exact Attempt.meets_refuse
  · next m hm =>
    split
    · exact Attempt.meets_refuse
    · next hconf => exact Attempt.meets_done ⟨m, hm, by simpa using hconf, rfl, rfl⟩

/-- What is removed is what was found, so a removal is never turned down half way. -/
theorem removeMembership_meets :
    (h.removeMembership mid).Meets h fun o after =>
      ∃ m, h.membership? mid = some m ∧
        ¬ (m.entity.kind = .institution ∧ (h.tree.staff m.entity.id).length ≤ 1) ∧
        o = ⟨m, [⟨m.entity⟩], .user m.user⟩ ∧ after = (h.dropMembership mid).2 := by
  rw [removeMembership_eq]
  split
  · exact Attempt.meets_refuse
  · next m hm =>
    -- what is dropped is what the index led to
    have hfst := h.dropMembership_fst mid
    rw [hm] at hfst
    split
    · exact Attempt.meets_refuse
    · next hlast =>
      obtain ⟨after, hdrop⟩ : ∃ after, h.dropMembership mid = (some m, after) :=
        ⟨_, Prod.ext hfst rfl⟩
      rw [hdrop]
      exact Attempt.meets_done ⟨m, hm, hlast, rfl, rfl⟩

end Operations

/-! ## Effects -/

/-- The membership may be stored. -/
structure Admits (h : Hierarchy) (m : Membership) : Prop where
  /-- It is one on an entity of the hierarchy. -/
  entity : h.tree.entity m.entity.id = some m.entity
  /-- It takes the place of none but one of the same user on the same entity. -/
  place : ∀ j, ∀ x ∈ h.tree.staff j, x.id = m.id → j = m.entity.id ∧ x.user = m.user
  /-- The user has no other one in the branch. -/
  alone : ∀ x ∈ h.tree.staffInBranch m.entity.id m.user, x.id = m.id

/-- What one change did to `h`: whose rights it reported stale, and the hierarchy it left. -/
inductive Effect (h : Hierarchy) : Stale → Hierarchy → Prop
  /-- Nothing was changed, or the change was turned down. -/
  | same : h.Effect .nobody h
  /-- The number of awarded credentials was set. -/
  | award {id : EntityId} {count : UInt32} :
      h.Effect .nobody (h.modify id fun n => { n with awarded := count })
  /-- A new entity was put in the place that its kind asks for. -/
  | attach {e : Entity} {q : Option Entity} (hnew : h.tree.entity e.id = none)
      (hroot : q = none ↔ e.kind = .institution)
      (hparent : ∀ p, q = some p → h.tree.entity p.id = some p ∧ e.kind.above = some p.kind) :
      h.Effect .everyone (h.attach e q)
  /-- An entity was moved to where none of its staff meets another membership. -/
  | relink {id : EntityId} {e p : Entity} (he : h.tree.entity id = some e)
      (hp : h.tree.entity p.id = some p) (hkind : e.kind.above = some p.kind)
      (hclash : h.clashesBelow id p.id = false) : h.Effect .everyone (h.relink id p)
  /-- A membership was stored. -/
  | put {m : Membership} (hm : h.Admits m) : h.Effect (.user m.user) (h.putMembership m)
  /-- A membership was removed. -/
  | drop {mid : MembershipId} {m : Membership} (hm : h.membership? mid = some m) :
      h.Effect (.user m.user) (h.dropMembership mid).2
  /-- An entity was deleted with everything below it. -/
  | dropSubtree {e : Entity} (he : h.tree.entity e.id = some e) :
      h.Effect .everyone (h.dropSubtree e).1

section

variable (h) (id : EntityId) (mid : MembershipId)

/-- Saving does nothing to the hierarchy. -/
theorem saveEntity_effect :
    (h.saveEntity id).Meets h fun o after => h.Effect o.stale after := by
  refine (h.saveEntity_meets id).mono ?_
  rintro o after ⟨e, -, rfl, rfl⟩
  exact .same

/-- Setting a count does that and no more. -/
theorem setAwarded_effect (count : UInt32) :
    (h.setAwarded id count).Meets h fun o after => h.Effect o.stale after := by
  refine (h.setAwarded_meets id count).mono ?_
  rintro o after ⟨rfl, rfl⟩
  exact .award

/-- A removal drops a membership that was found. -/
theorem removeMembership_effect :
    (h.removeMembership mid).Meets h fun o after => h.Effect o.stale after := by
  refine (h.removeMembership_meets mid).mono ?_
  rintro o after ⟨m, hm, -, rfl, rfl⟩
  exact .drop hm

end

namespace Consistent

section

variable (hc : h.Consistent) (e : Entity) (m : Membership) (id parent : EntityId)
  (mid : MembershipId)

include hc

/-- A place that was found is one in which the new entity belongs. -/
theorem placeFor_spec {e : Entity} {above : Option EntityId} {q : Option Entity}
    (hq : h.placeFor e above = .ok q) :
    h.tree.entity e.id = none ∧ (q = none ↔ e.kind = .institution) ∧
      ∀ p, q = some p → h.tree.entity p.id = some p ∧ e.kind.above = some p.kind := by
  obtain ⟨hnew, ⟨rfl, rfl, hinst⟩ | ⟨id, p, rfl, rfl, hp, hkind⟩⟩ := h.placeFor_eq_ok hq
  · refine ⟨hnew, ⟨fun _ => hinst, fun _ => rfl⟩, fun p hp => ?_⟩
    cases hp
  · have hid := hc.linked.entity_id hp
    subst hid
    -- what stands below a parent is no institution
    refine ⟨hnew, ⟨fun h => ?_, fun hinst => ?_⟩, fun p' hp' => ?_⟩
    · cases h
    · exact absurd hinst (Kind.ne_institution_of_above hkind)
    · cases hp'
      exact ⟨hp, hkind⟩

/-- An insertion puts a new entity in a place for its kind. -/
theorem insertEntity_effect (above : Option EntityId) :
    (h.insertEntity e above).Meets h fun o after => h.Effect o.stale after := by
  refine (h.insertEntity_meets e above).mono ?_
  rintro o after ⟨q, hq, rfl, rfl⟩
  obtain ⟨hnew, hroot, hparent⟩ := hc.placeFor_spec hq
  exact .attach hnew hroot hparent

/-- A move relinks an entity to where no memberships meet, or does nothing. -/
theorem moveEntity_effect :
    (h.moveEntity id parent).Meets h fun o after => h.Effect o.stale after := by
  refine (h.moveEntity_meets id parent).mono ?_
  rintro o after ⟨e, p, he, hp, hkind, -, ⟨-, rfl, rfl⟩ | ⟨-, hclash, rfl, rfl⟩⟩
  · exact .same
  · have hid := hc.linked.entity_id hp
    subst hid
    exact .relink he hp hkind hclash

/-- A deletion drops a known entity with everything below it. -/
theorem deleteEntity_effect :
    (h.deleteEntity id).Meets h fun o after => h.Effect o.stale after := by
  refine (h.deleteEntity_meets id).mono ?_
  rintro o after ⟨e, he, -, rfl, rfl⟩
  have hid := hc.linked.entity_id he
  subst hid
  exact .dropSubtree he

/-- A membership that is inserted is one that the hierarchy admits. -/
theorem insertMembership_admits :
    (h.insertMembership m).Meets h fun o after =>
      h.Admits m ∧ o.stale = .user m.user ∧ after = h.putMembership m := by
  refine (h.insertMembership_meets m).mono ?_
  rintro o after ⟨he, hid, hconf, rfl, rfl⟩
  refine ⟨⟨he, fun j x hx hxm => ?_, fun x hx => ?_⟩, rfl, rfl⟩
  · exact absurd hxm (hc.membership?_eq_none_iff.1 hid j x hx)
  · simp only [conflicts, List.any_eq_false] at hconf
    exact absurd (by simp) (hconf x hx)

/-- A membership that is updated is one that the hierarchy admits. -/
theorem updateMembership_admits (permissions : Permissions) :
    (h.updateMembership mid permissions).Meets h fun o after =>
      ∃ m, h.membership? mid = some m ∧ h.Admits { m with permissions := permissions } ∧
        o.stale = .user m.user ∧ after = h.putMembership { m with permissions := permissions } := by
  refine (h.updateMembership_meets mid permissions).mono ?_
  rintro o after ⟨m, hm, hconf, rfl, rfl⟩
  obtain ⟨hmem, rfl⟩ := hc.membership?_eq_some_iff.1 hm
  have hmi := hc.mem_staff_of_membership hmem
  have he := hc.entity_of_membership hmem
  refine ⟨m, hm, ⟨he, fun j x hx hxm => ?_, fun x hx => ?_⟩, rfl, rfl⟩
  · obtain ⟨hj, hxm⟩ := hc.eq_of_id_eq hx hmi hxm
    exact ⟨hj, by rw [hxm]⟩
  · simp only [conflicts, List.any_eq_false] at hconf
    simpa using hconf x hx

/-- An insertion stores a membership that the hierarchy admits. -/
theorem insertMembership_effect :
    (h.insertMembership m).Meets h fun o after => h.Effect o.stale after := by
  refine (hc.insertMembership_admits m).mono ?_
  rintro o after ⟨hm, hstale, rfl⟩
  rw [hstale]
  exact .put hm

/-- An update stores a membership that the hierarchy admits. -/
theorem updateMembership_effect (permissions : Permissions) :
    (h.updateMembership mid permissions).Meets h fun o after => h.Effect o.stale after := by
  refine (hc.updateMembership_admits mid permissions).mono ?_
  rintro o after ⟨m, -, hm, hstale, rfl⟩
  rw [hstale]
  exact .put hm

end

end Consistent

end Hierarchy

end StaffRights
