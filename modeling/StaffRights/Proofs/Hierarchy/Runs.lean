import StaffRights.Proofs.Hierarchy.Effects
import StaffRights.Snapshot.Replay

/-!
# Reachable hierarchies

A hierarchy is reachable if changes lead to it from the empty one, each of them carried out or
turned down, or from one that was loaded from a snapshot. As loading a snapshot is a run of changes
itself, what the empty hierarchy satisfies and every change keeps holds of all reachable ones; that
is how they are shown to be consistent.
-/

namespace StaffRights

/-- A change to a hierarchy, with all that it is given. -/
inductive Change where
  | insertEntity (e : Entity) (parent : Option EntityId)
  | saveEntity (id : EntityId)
  | moveEntity (id parent : EntityId)
  | deleteEntity (id : EntityId)
  | setAwarded (id : EntityId) (count : UInt32)
  | insertMembership (m : Membership)
  | updateMembership (id : MembershipId) (permissions : Permissions)
  | removeMembership (id : MembershipId)
  deriving DecidableEq, Repr

/-- What a change answers if it is carried out. -/
def Change.Value : Change → Type
  | .insertEntity .. | .saveEntity _ | .moveEntity .. => Entity
  | .deleteEntity _ => Removed
  | .setAwarded .. => Unit
  | .insertMembership _ | .updateMembership .. | .removeMembership _ => Membership

namespace Hierarchy

variable {h h' : Hierarchy} {stale : Stale}

/-- Attempts a change. -/
def attempt (h : Hierarchy) : (c : Change) → Attempt c.Value
  | .insertEntity e parent => h.insertEntity e parent
  | .saveEntity id => h.saveEntity id
  | .moveEntity id parent => h.moveEntity id parent
  | .deleteEntity id => h.deleteEntity id
  | .setAwarded id count => h.setAwarded id count
  | .insertMembership m => h.insertMembership m
  | .updateMembership id permissions => h.updateMembership id permissions
  | .removeMembership id => h.removeMembership id

/-- The hierarchy that a change leaves behind, carried out or not. -/
def change (h : Hierarchy) : Change → Hierarchy
  | .insertEntity e parent => (h.insertEntity e parent).after
  | .saveEntity id => (h.saveEntity id).after
  | .moveEntity id parent => (h.moveEntity id parent).after
  | .deleteEntity id => (h.deleteEntity id).after
  | .setAwarded id count => (h.setAwarded id count).after
  | .insertMembership m => (h.insertMembership m).after
  | .updateMembership id permissions => (h.updateMembership id permissions).after
  | .removeMembership id => (h.removeMembership id).after

theorem after_attempt (c : Change) : (h.attempt c).after = h.change c := by
  cases c <;> rfl

/-- The hierarchy that several changes leave behind, one after the other. -/
def run (h : Hierarchy) (cs : List Change) : Hierarchy := cs.foldl change h

/-- Changes lead to the hierarchy from the empty one or from one that a snapshot describes. -/
inductive Reachable : Hierarchy → Prop
  | empty : Reachable ∅
  | loaded {s : Snapshot} {h : Hierarchy} : s.toHierarchy = .ok h → Reachable h
  | changed {h : Hierarchy} (c : Change) : Reachable h → Reachable (h.change c)

/-- Several changes lead from one reachable hierarchy to another. -/
theorem Reachable.run (hr : h.Reachable) (cs : List Change) : (h.run cs).Reachable := by
  induction cs generalizing h with
  | nil => exact hr
  | cons c cs ih => exact ih (hr.changed c)

/-! ## Snapshots -/

/-- What is committed is what the attempt left. -/
theorem after_of_committed {α : Type} {a : Attempt α} (ha : a.committed = .ok h') :
    a.after = h' := by
  obtain ⟨_ | o, after⟩ := a
  · cases ha
  · cases ha
    rfl

section Replay

variable {P : Hierarchy → Prop} (hchange : ∀ h c, P h → P (h.change c))

include hchange

/-- What changes keep is kept by replaying the record of an entity. -/
theorem replayEntity_keeps {r : EntityRecord} (hP : P h)
    (hr : Snapshot.replayEntity h r = .ok h') : P h' := by
  obtain ⟨k, hinsert, haward⟩ := bind_eq_ok_iff.1 (mapError_eq_ok_iff.1 hr)
  have hk : P k := after_of_committed hinsert ▸ hchange h (.insertEntity r.entity r.parent) hP
  exact after_of_committed haward ▸ hchange k (.setAwarded r.id r.awarded) hk

/-- What changes keep is kept by replaying the record of a membership. -/
theorem replayMembership_keeps {r : MembershipRecord} (hP : P h)
    (hr : Snapshot.replayMembership h r = .ok h') : P h' := by
  unfold Snapshot.replayMembership at hr
  have hinsert := mapError_eq_ok_iff.1 hr
  split at hinsert
  · cases hinsert
  · exact after_of_committed hinsert ▸ hchange h (.insertMembership _) hP

/-- What the empty hierarchy satisfies and changes keep holds of everything reachable. -/
theorem Reachable.induction (hempty : P ∅) (hr : h.Reachable) : P h := by
  induction hr with
  | empty => exact hempty
  | @loaded s h hload =>
    -- a snapshot is loaded by changes alone: first to entities, then to memberships
    obtain ⟨k, hentities, hmemberships⟩ := bind_eq_ok_iff.1 hload
    have hk : P k := foldlM_keeps (replayEntity_keeps hchange) hempty hentities
    exact foldlM_keeps (replayMembership_keeps hchange) hk hmemberships
  | changed c _ ih => exact hchange _ c ih

end Replay

/-! ## Consistency -/

namespace Consistent

/-- Every change has one of the listed effects. -/
theorem exists_effect (hc : h.Consistent) (c : Change) : ∃ stale, h.Effect stale (h.change c) := by
  have hmeets : ∀ {α : Type} {a : Attempt α},
      (a.Meets h fun o after => h.Effect o.stale after) → ∃ stale, h.Effect stale a.after := by
    rintro α a (⟨r, rfl⟩ | ⟨o, after, rfl, ho⟩)
    · exact ⟨_, .same⟩
    · exact ⟨_, ho⟩
  cases c with
  | insertEntity e parent => exact hmeets (hc.insertEntity_effect e parent)
  | saveEntity id => exact hmeets (h.saveEntity_effect id)
  | moveEntity id parent => exact hmeets (hc.moveEntity_effect id parent)
  | deleteEntity id => exact hmeets (hc.deleteEntity_effect id)
  | setAwarded id count => exact hmeets (h.setAwarded_effect id count)
  | insertMembership m => exact hmeets (hc.insertMembership_effect m)
  | updateMembership id permissions => exact hmeets (hc.updateMembership_effect id permissions)
  | removeMembership id => exact hmeets (h.removeMembership_effect id)

/-- Every effect leaves links, staff and index in agreement. -/
theorem effect (hc : h.Consistent) (he : h.Effect stale h') : h'.Consistent := by
  cases he with
  | same => exact hc
  | award => exact hc.setAwarded
  | attach hnew hroot hparent => exact hc.attach hnew hroot hparent
  | relink he hp hkind _ => exact hc.relink he hp hkind
  | put hm => exact hc.putMembership hm.entity fun j x hx hid => (hm.place j x hx hid).1
  | drop _ => exact hc.dropMembership _
  | dropSubtree he => exact (hc.dropSubtree he).1

/-- Every change keeps a hierarchy consistent, carried out or not. -/
theorem change (hc : h.Consistent) (c : Change) : (h.change c).Consistent := by
  obtain ⟨stale, he⟩ := hc.exists_effect c
  exact hc.effect he

end Consistent

/-- Every reachable hierarchy is consistent. -/
theorem Reachable.consistent (hr : h.Reachable) : h.Consistent :=
  hr.induction (fun _ c hc => hc.change c) .empty

/-- In every reachable hierarchy links, staff and index agree, every membership id is stored once,
and looking an id up finds exactly the stored membership that has it. -/
theorem Reachable.representation (hr : h.Reachable) :
    h.Consistent ∧ (h.memberships.map (·.id)).Nodup ∧
      ∀ mid m, h.membership? mid = some m ↔ m ∈ h.memberships ∧ m.id = mid := by
  have hc := hr.consistent
  exact ⟨hc, hc.nodup_memberships, fun mid m => hc.membership?_eq_some_iff⟩

/-- An institution with a faculty, and one membership on the faculty: links, staff and index agree,
and the membership is found under its id. -/
theorem Reachable.representation_of_faculty :
    let h := (∅ : Hierarchy).run [.insertEntity ⟨.institution, .ofNat 1⟩ none,
      .insertEntity ⟨.faculty, .ofNat 2⟩ (some (.ofNat 1)),
      .insertMembership ⟨.ofNat 3, .ofNat 4, ⟨.faculty, .ofNat 2⟩, .full, none⟩]
    (h.size = 2 ∧ h.membershipCount = 1) ∧ h.Consistent ∧ (h.memberships.map (·.id)).Nodup ∧
      ∀ mid m, h.membership? mid = some m ↔ m ∈ h.memberships ∧ m.id = mid :=
  ⟨by decide +kernel, Reachable.representation (.run .empty _)⟩

end Hierarchy

end StaffRights
