import StaffRights.Proofs.Hierarchy.Runs

/-!
# What a change does

`Done` lists every change with what it has found when it is carried out, what it answers and what it
leaves behind. A change that is not carried out leaves the hierarchy as it was. What is shown of all
changes, carried out or not, is shown by these cases. `Missing` lists what a change has not found
when it answers so.
-/

namespace StaffRights

/-- Something that the change names is not there; or it is in another institution than the entity to
be moved, which is answered alike. -/
def Change.Missing (h : Hierarchy) : Change → Prop
  | .insertEntity _ above => ∃ id, above = some id ∧ h.tree.entity id = none
  | .saveEntity id | .deleteEntity id | .setAwarded id _ => h.tree.entity id = none
  | .moveEntity id parent =>
    h.tree.entity id = none ∨ h.tree.entity parent = none ∨
      h.tree.institution? id ≠ h.tree.institution? parent
  | .insertMembership m => h.tree.entity m.entity.id ≠ some m.entity
  | .updateMembership mid _ | .removeMembership mid => h.membership? mid = none

namespace Attempt

variable {α β : Type} {h : Hierarchy} {r : Refusal} {check : Except Refusal β}
  {next : β → Attempt α}

/-- What is turned down behind a check has failed it, or passed it and been turned down for itself.
-/
theorem answer_guarded (ha : (guarded h check next).answer = .error r) :
    check = .error r ∨ ∃ b, check = .ok b ∧ (next b).answer = .error r := by
  cases check with
  | error r' =>
    cases ha
    exact .inl rfl
  | ok b => exact .inr ⟨b, rfl, ha⟩

end Attempt

namespace Hierarchy

variable {h h' : Hierarchy}

/-- The change was carried out on `h` with an outcome, and left a hierarchy behind. -/
inductive Done (h : Hierarchy) : (c : Change) → Outcome c.Value → Hierarchy → Prop
  | insertEntity {e : Entity} {above : Option EntityId} {q : Option Entity}
      (hq : h.placeFor e above = .ok q) :
      h.Done (.insertEntity e above) ⟨e, invalidateParent q, .everyone⟩ (h.attach e q)
  | saveEntity {id : EntityId} {e : Entity} (he : h.tree.entity id = some e) :
      h.Done (.saveEntity id) ⟨e, invalidateParent (h.tree.parent id), .nobody⟩ h
  /-- The entity is below that parent already. -/
  | stay {id parent : EntityId} {e p : Entity} (he : h.tree.entity id = some e)
      (hp : h.tree.entity parent = some p) (hparent : h.tree.parent id = some p) :
      h.Done (.moveEntity id parent) ⟨e, [⟨p⟩], .nobody⟩ h
  | moveEntity {id parent : EntityId} {e p : Entity} (he : h.tree.entity id = some e)
      (hp : h.tree.entity parent = some p) (hkind : e.kind.above = some p.kind)
      (hinst : h.tree.institution? id = h.tree.institution? p.id)
      (hparent : h.tree.parent id ≠ some p) (hclash : h.clashesBelow id p.id = false) :
      h.Done (.moveEntity id parent)
        ⟨e, invalidateParent (h.tree.parent id) ++ [⟨p⟩], .everyone⟩ (h.relink id p)
  | deleteEntity {id : EntityId} {e : Entity} (he : h.tree.entity id = some e)
      (hawarded : ∀ d ∈ h.tree.branch id .downward, h.tree.awarded d.id = false) :
      h.Done (.deleteEntity id)
        ⟨(h.dropSubtree e).2, invalidateParent (h.tree.parent id), .everyone⟩ (h.dropSubtree e).1
  | setAwarded {id : EntityId} {count : UInt32} :
      h.Done (.setAwarded id count) ⟨(), [], .nobody⟩
        (h.modify id fun n => { n with awarded := count })
  | insertMembership {m : Membership} (he : h.tree.entity m.entity.id = some m.entity)
      (hid : h.membership? m.id = none) (hconf : h.conflicts m.entity.id m.user none = false) :
      h.Done (.insertMembership m) ⟨m, [⟨m.entity⟩], .user m.user⟩ (h.putMembership m)
  | updateMembership {mid : MembershipId} {permissions : Permissions} {m : Membership}
      (hm : h.membership? mid = some m)
      (hconf : h.conflicts m.entity.id m.user (some mid) = false) :
      h.Done (.updateMembership mid permissions)
        ⟨{ m with permissions := permissions }, [⟨m.entity⟩], .user m.user⟩
        (h.putMembership { m with permissions := permissions })
  | removeMembership {mid : MembershipId} {m : Membership} (hm : h.membership? mid = some m)
      (hlast : ¬ (m.entity.kind = .institution ∧ (h.tree.staff m.entity.id).length ≤ 1)) :
      h.Done (.removeMembership mid) ⟨m, [⟨m.entity⟩], .user m.user⟩ (h.dropMembership mid).2

/-- A change is turned down and leaves the hierarchy as it was, or it is carried out. -/
theorem attempt_meets (c : Change) : (h.attempt c).Meets h (h.Done c) := by
  cases c with
  | insertEntity e above =>
    apply (h.insertEntity_meets e above).mono
    rintro o after ⟨q, hq, rfl, rfl⟩
    exact .insertEntity hq
  | saveEntity id =>
    apply (h.saveEntity_meets id).mono
    rintro o after ⟨e, he, rfl, rfl⟩
    exact .saveEntity he
  | moveEntity id parent =>
    apply (h.moveEntity_meets id parent).mono
    rintro o after ⟨e, p, he, hp, hkind, hinst, ⟨hparent, rfl, rfl⟩ | ⟨hparent, hclash, rfl, rfl⟩⟩
    · exact .stay he hp hparent
    · exact .moveEntity he hp hkind hinst hparent hclash
  | deleteEntity id =>
    apply (h.deleteEntity_meets id).mono
    rintro o after ⟨e, he, hawarded, rfl, rfl⟩
    exact .deleteEntity he hawarded
  | setAwarded id count =>
    apply (h.setAwarded_meets id count).mono
    rintro o after ⟨rfl, rfl⟩
    exact .setAwarded
  | insertMembership m =>
    apply (h.insertMembership_meets m).mono
    rintro o after ⟨he, hid, hconf, rfl, rfl⟩
    exact .insertMembership he hid hconf
  | updateMembership mid permissions =>
    apply (h.updateMembership_meets mid permissions).mono
    rintro o after ⟨m, hm, hconf, rfl, rfl⟩
    exact .updateMembership hm hconf
  | removeMembership mid =>
    apply (h.removeMembership_meets mid).mono
    rintro o after ⟨m, hm, hlast, rfl, rfl⟩
    exact .removeMembership hm hlast

/-- A change that answers with an outcome was carried out. -/
theorem done_of_answer {c : Change} {o : Outcome c.Value} (ha : (h.attempt c).answer = .ok o) :
    h.Done c o (h.change c) := by
  rw [← after_attempt]
  exact (attempt_meets c).of_ok ha

/-- What holds of `h`, and of whatever a change leaves that is carried out, holds after the change.
-/
theorem change_of_done {P : Hierarchy → Prop} (hrefused : P h) {c : Change}
    (hdone : ∀ {o h'}, h.Done c o h' → P h') : P (h.change c) := by
  rw [← after_attempt]
  exact (attempt_meets c).after hrefused fun _ _ => hdone

/-! ## What is not found -/

section Missing

variable {id parent : EntityId} {mid : MembershipId}

/-- A wrong kind is never answered as missing. -/
theorem checkKind_ne_notFound {k : Kind} {p : Entity} : checkKind k p ≠ .error .notFound := by
  unfold checkKind
  split <;> simp

/-- An insertion answers so only if the parent is not there. -/
theorem insertEntity_missing {e : Entity} {above : Option EntityId}
    (ha : (h.insertEntity e above).answer = .error .notFound) :
    ∃ id, above = some id ∧ h.tree.entity id = none := by
  rw [insertEntity_eq] at ha
  rcases Attempt.answer_guarded ha with hplace | ⟨q, -, hdone⟩
  · unfold placeFor at hplace
    split at hplace
    · cases hplace
    -- the parent was looked for; a wrong kind would have been answered otherwise
    · next id hnew =>
      cases hp : h.tree.entity id with
      | none => exact ⟨id, rfl, hp⟩
      | some p =>
        simp only [hp] at hplace
        cases hkind : checkKind e.kind p with
        | ok u =>
          rw [hkind] at hplace
          cases hplace
        | error r =>
          rw [hkind] at hplace
          cases hplace
          exact absurd hkind checkKind_ne_notFound
    · split at hplace <;> cases hplace
  · cases hdone

/-- Saving answers so only if the entity is not there. -/
theorem saveEntity_missing (ha : (h.saveEntity id).answer = .error .notFound) :
    h.tree.entity id = none := by
  unfold saveEntity at ha
  split at ha
  · next he => exact he
  · cases ha

/-- Setting a count answers so only if the entity is not there. -/
theorem setAwarded_missing {count : UInt32}
    (ha : (h.setAwarded id count).answer = .error .notFound) : h.tree.entity id = none := by
  unfold setAwarded at ha
  split at ha
  · next hn => exact Option.map_eq_none_iff.2 hn
  · cases ha

/-- A move answers so if either entity is not there, or not in the institution of the other. -/
theorem Consistent.moveEntity_missing (hc : h.Consistent)
    (ha : (h.moveEntity id parent).answer = .error .notFound) :
    h.tree.entity id = none ∨ h.tree.entity parent = none ∨
      h.tree.institution? id ≠ h.tree.institution? parent := by
  rw [moveEntity_eq] at ha
  cases he : h.tree.entity id with
  | none => exact .inl rfl
  | some e =>
    cases hp : h.tree.entity parent with
    | none => exact .inr (.inl rfl)
    | some p =>
      have hid := hc.linked.entity_id hp
      subst hid
      simp only [he, hp] at ha
      -- with both entities there, only the comparison of institutions answers so
      rcases Attempt.answer_guarded ha with hkind | ⟨u, -, ha⟩
      · exact absurd hkind checkKind_ne_notFound
      · split at ha
        · next hinst => exact .inr (.inr hinst)
        · split_ifs at ha <;> cases ha

/-- A deletion answers so only if the entity is not there. -/
theorem deleteEntity_missing (ha : (h.deleteEntity id).answer = .error .notFound) :
    h.tree.entity id = none := by
  rw [deleteEntity_eq] at ha
  split at ha
  · next he => exact he
  · split at ha <;> cases ha

/-- A new membership is answered so only if its entity is not there. -/
theorem insertMembership_missing {m : Membership}
    (ha : (h.insertMembership m).answer = .error .notFound) :
    h.tree.entity m.entity.id ≠ some m.entity := by
  rw [insertMembership_eq] at ha
  split at ha
  · next he => exact he
  · split_ifs at ha <;> cases ha

/-- An update answers so only if the membership is not there. -/
theorem updateMembership_missing {permissions : Permissions}
    (ha : (h.updateMembership mid permissions).answer = .error .notFound) :
    h.membership? mid = none := by
  rw [updateMembership_eq] at ha
  split at ha
  · next hm => exact hm
  · split at ha <;> cases ha

/-- A membership that was found is also dropped. -/
theorem removeMembership_missing (ha : (h.removeMembership mid).answer = .error .notFound) :
    h.membership? mid = none := by
  rw [removeMembership_eq] at ha
  split at ha
  · next hm => exact hm
  · next m hm =>
    have hfst := h.dropMembership_fst mid
    split at ha
    · cases ha
    · split at ha
      · next hdrop =>
        rw [hdrop, hm] at hfst
        cases hfst
      · cases ha

/-- A change that answers that something was not found has not found what it names. -/
theorem Consistent.missing_of_notFound (hc : h.Consistent) {c : Change}
    (ha : (h.attempt c).answer = .error .notFound) : c.Missing h := by
  cases c with
  | insertEntity => exact insertEntity_missing ha
  | saveEntity => exact saveEntity_missing ha
  | moveEntity => exact hc.moveEntity_missing ha
  | deleteEntity => exact deleteEntity_missing ha
  | setAwarded => exact setAwarded_missing ha
  | insertMembership => exact insertMembership_missing ha
  | updateMembership => exact updateMembership_missing ha
  | removeMembership => exact removeMembership_missing ha

end Missing

end Hierarchy

end StaffRights
