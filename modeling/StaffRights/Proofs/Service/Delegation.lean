import StaffRights.Proofs.Hierarchy.Gains
import StaffRights.Proofs.Service.Transparency
import Mathlib.Data.Set.Insert

/-!
# Delegation

Who grants permissions must hold them, so passing permissions on, editing them, revoking them,
creating entities and deleting them never gives anybody a right that the users who did so did not
hold together from the start. Moving an entity and appointing an administrator are not of this kind:
a move exposes an entity to the staff of its new ancestors, and an appointment asks no actor.

Reference: `SPEC_FULL.md` 8 (granting is no way to more rights).
-/

namespace StaffRights

variable {S : Set User} {id : EntityId}

namespace Tree

variable {t : Tree} {actor : User} {target : EntityId} {requested : Permissions}

/-- Who may grant permissions on an entity holds all of their flags there. -/
theorem holds_of_mayGrant {r : Unit} (hgrant : t.mayGrant actor target requested = .ok r) {f : Flag}
    (hf : requested.holds f) : (t.rights target actor).holds f := by
  obtain ⟨e, -, hgrant⟩ := bind_eq_ok_iff.1 hgrant
  have hmissing : requested ∩ (t.rights target actor).complement = ∅ := by
    by_contra hmissing
    simp only [if_neg hmissing] at hgrant
    cases hgrant
  have hnone : (requested ∩ (t.rights target actor).complement).holds f = false := by
    rw [hmissing, Permissions.holds_empty]
  simpa [hf] using hnone

end Tree

namespace Call

/-- The id of the entity that a call is to create. -/
def founds? : Call → Option EntityId
  | .createInstitution fresh => some fresh
  | .create _ _ _ fresh => some fresh
  | _ => none

/-- The call neither moves an entity nor appoints an administrator, and if it has an actor on whose
behalf something is changed, then the actor is a member of the coalition. -/
def ByMember (S : Set User) : Call → Prop
  | .addAdministrator .. => False
  | .move .. => False
  | .create actor .. => actor ∈ S
  | .save actor _ => actor ∈ S
  | .delete actor _ => actor ∈ S
  | .grant actor .. => actor ∈ S
  | .regrant actor .. => actor ∈ S
  | .revoke actor .. => actor ∈ S
  | _ => True

end Call

namespace Service

variable {α : Type} {s : Service}

/-! ## One call -/

/-- What an attempt does not gain, its transaction does not gain. -/
theorem noGain_transact {attempt : Hierarchy → Attempt α}
    (hm : (attempt s.hierarchy).Meets s.hierarchy fun _ after =>
      Tree.NoGain S id s.hierarchy.tree after.tree) :
    Tree.NoGain S id s.hierarchy.tree (s.transact attempt).2.hierarchy.tree := by
  rcases transact_of_meets hm with ⟨r, htr⟩ | ⟨o, after, hgain, htr⟩
  · rw [htr]
    exact .refl S id _
  · rw [htr]
    exact hgain

/-- The entity found for a membership is the one it is on. -/
theorem entity_of_membershipEntity {h : Hierarchy} {kind : Kind} {mid : MembershipId} {e : Entity}
    {m : Membership} (he : membershipEntity h kind mid = .ok e) (hm : h.membership? mid = some m) :
    m.entity = e := by
  rw [membershipEntity, hm, Option.map_some] at he
  simp only at he
  split at he
  · cases he
    rfl
  · cases he

/-- Nobody gains rights on an entity by the insertion of another. -/
theorem noGain_insertEntity {h : Hierarchy} (hc : h.Consistent) {e : Entity}
    {parent : Option EntityId} (hid : e.id ≠ id) :
    (h.insertEntity e parent).Meets h fun _ after => Tree.NoGain S id h.tree after.tree := by
  refine (h.insertEntity_meets e parent).mono ?_
  rintro o after ⟨q, hq, -, rfl⟩
  exact hc.noGain_attach (h.placeFor_eq_ok hq).1 hid

/-- No call of a coalition is a gain on an entity that the call does not create. -/
theorem noGain_step (hr : s.hierarchy.Reachable) {c : Call} (hby : c.ByMember S)
    (hfresh : c.founds? ≠ some id) :
    Tree.NoGain S id s.hierarchy.tree (s.step c).2.hierarchy.tree := by
  obtain ⟨hc, hapart⟩ := hr.consistent_and_apart
  cases c with
  | createInstitution fresh =>
    have hid : fresh ≠ id := fun h => hfresh (congrArg some h)
    exact noGain_transact (noGain_insertEntity hc hid)
  -- nobody is asked for an appointment, so no coalition makes one
  | addAdministrator => cases hby
  | create actor kind parent fresh =>
    have hid : fresh ≠ id := fun h => hfresh (congrArg some h)
    exact noGain_transact (Attempt.meets_guarded fun _ _ => noGain_insertEntity hc hid)
  | save actor i =>
    refine noGain_transact
      (Attempt.meets_guarded fun _ _ => (s.hierarchy.saveEntity_meets i).mono ?_)
    rintro o after ⟨e, -, -, rfl⟩
    exact .refl S id _
  | move => cases hby
  | delete actor i =>
    refine noGain_transact
      (Attempt.meets_guarded fun _ _ => (s.hierarchy.deleteEntity_meets i).mono ?_)
    rintro o after ⟨e, he, -, -, rfl⟩
    obtain rfl := hc.linked.entity_id he
    exact hc.noGain_dropSubtree he
  | setAwarded i count =>
    refine noGain_transact ((s.hierarchy.setAwarded_meets i count).mono ?_)
    rintro o after ⟨-, rfl⟩
    exact hc.noGain_award
  | grant actor recipient entity permissions fresh =>
    refine noGain_transact (Attempt.meets_guarded fun _ hgrant =>
      Attempt.meets_guarded fun _ _ => ?_)
    split
    · exact Attempt.meets_refuse
    · next e he =>
      refine (hc.insertMembership_admits _).mono ?_
      rintro o after ⟨hm, -, rfl⟩
      obtain rfl := hc.linked.entity_id he
      -- the guard has seen the actor hold whatever is granted
      exact hc.noGain_putMembership hapart hm fun f hf =>
        ⟨actor, hby, Tree.holds_of_mayGrant hgrant hf⟩
  | regrant actor kind mid permissions =>
    refine noGain_transact (Attempt.meets_guarded fun e he =>
      Attempt.meets_guarded fun _ hgrant => ?_)
    refine (hc.updateMembership_admits mid permissions).mono ?_
    rintro o after ⟨m, hfound, hm, -, rfl⟩
    obtain rfl := entity_of_membershipEntity he hfound
    exact hc.noGain_putMembership hapart hm fun f hf =>
      ⟨actor, hby, Tree.holds_of_mayGrant hgrant hf⟩
  | revoke actor kind mid =>
    refine noGain_transact (Attempt.meets_guarded fun _ _ => Attempt.meets_guarded fun _ _ => ?_)
    refine (s.hierarchy.removeMembership_meets mid).mono ?_
    rintro o after ⟨m, hm, -, -, rfl⟩
    exact hc.noGain_dropMembership hapart hm
  | rights u e =>
    have hh : (s.step (.rights u e)).2.hierarchy = s.hierarchy := (s.rights_spec u e).1
    rw [hh]
    exact .refl S id _
  | permits u e required =>
    have hh : (s.step (.permits u e required)).2.hierarchy = s.hierarchy :=
      (s.permits_spec u e required).1
    rw [hh]
    exact .refl S id _
  | branch | administrable | membershipsOf | staffOf => exact .refl S id _

/-! ## Runs -/

/-- Calls by members of a set gain nobody more than the set held between them, whatever their number
and order. -/
theorem noGain_run (hr : s.hierarchy.Reachable) {calls : List Call}
    (hby : ∀ c ∈ calls, c.ByMember S) (hfresh : ∀ c ∈ calls, c.founds? ≠ some id) :
    Tree.NoGain S id s.hierarchy.tree (s.run calls).2.hierarchy.tree := by
  -- by induction on the calls: to gain nothing is transitive
  induction calls generalizing s with
  | nil => exact .refl S id _
  | cons c cs ih =>
    have hstep := noGain_step hr (hby c (List.mem_cons_self ..)) (hfresh c (List.mem_cons_self ..))
    exact hstep.trans (ih (reachable_step hr c) (fun d hd => hby d (List.mem_cons_of_mem _ hd))
      fun d hd => hfresh d (List.mem_cons_of_mem _ hd))

/-- However the members of a coalition use the service, with moves and appointments set apart and
new ids for new entities: who holds a flag on an entity that was there at the start held it then, or
some member did. So a member who acts alone never gains anything. -/
theorem delegation_never_escalates (hr : s.hierarchy.Reachable) {S : Set User} {calls : List Call}
    (hby : ∀ c ∈ calls, c.ByMember S)
    (hfresh : ∀ c ∈ calls, ∀ fresh, c.founds? = some fresh →
      s.hierarchy.tree.entity fresh = none) :
    ∀ e, (s.hierarchy.tree.entity e).isSome →
      (∀ u f, ((s.run calls).2.hierarchy.tree.rights e u).holds f →
        (s.hierarchy.tree.rights e u).holds f ∨
          ∃ a ∈ S, (s.hierarchy.tree.rights e a).holds f) ∧
      ∀ u, S = {u} → ∀ f, ((s.run calls).2.hierarchy.tree.rights e u).holds f →
        (s.hierarchy.tree.rights e u).holds f := by
  intro e he
  have hgain : Tree.NoGain S e s.hierarchy.tree (s.run calls).2.hierarchy.tree := by
    -- no call creates an entity that was there at the start
    refine noGain_run hr hby fun c hc hfounds => ?_
    rw [hfresh c hc e hfounds] at he
    cases he
  refine ⟨fun u f hf => hgain hf, ?_⟩
  rintro u rfl f hf
  rcases hgain hf with hu | ⟨a, rfl, ha⟩
  · exact hu
  · exact ha

/-- An administrator makes a teacher a second one on a faculty, and the second one a third; the
first creates an issuer there. -/
theorem delegation_never_escalates_of_chain :
    let h := (∅ : Hierarchy).run [.insertEntity ⟨.institution, .ofNat 1⟩ none,
      .insertEntity ⟨.faculty, .ofNat 2⟩ (some (.ofNat 1)),
      .insertMembership ⟨.ofNat 3, .ofNat 4, ⟨.institution, .ofNat 1⟩, .full, none⟩]
    let s := start h {} .discard
    let first : User := .teacher (.ofNat 4) (.ofNat 1)
    let second : User := .teacher (.ofNat 5) (.ofNat 1)
    let third : User := .teacher (.ofNat 6) (.ofNat 1)
    let calls : List Call :=
      [.grant first second (.ofNat 2) (.ofFlags [.read, .administrateUsers]) (.ofNat 7),
        .grant second third (.ofNat 2) (.single .administrateUsers) (.ofNat 8),
        .create first .issuer (.ofNat 2) (.ofNat 9)]
    (s.hierarchy.Reachable ∧ (s.run calls).1.all (·.isOk)) ∧
      ∀ e, (s.hierarchy.tree.entity e).isSome →
        (∀ u f, ((s.run calls).2.hierarchy.tree.rights e u).holds f →
          (s.hierarchy.tree.rights e u).holds f ∨
            ∃ a ∈ ({first, second} : Set User), (s.hierarchy.tree.rights e a).holds f) ∧
        ∀ u, ({first, second} : Set User) = {u} → ∀ f,
          ((s.run calls).2.hierarchy.tree.rights e u).holds f →
            (s.hierarchy.tree.rights e u).holds f := by
  intro h s first second third calls
  have hr : s.hierarchy.Reachable := .run .empty _
  refine ⟨⟨hr, by decide +kernel⟩, delegation_never_escalates hr ?_ ?_⟩
  · simp [calls, Call.ByMember]
  · have hnew : s.hierarchy.tree.entity (.ofNat 9) = none := by decide +kernel
    simpa [calls, Call.founds?] using hnew

end Service

end StaffRights
