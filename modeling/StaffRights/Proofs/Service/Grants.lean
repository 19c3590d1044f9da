import StaffRights.Proofs.Service.Administration
import StaffRights.Proofs.Service.Delegation

/-!
# What may be granted

Who administrates the users of an entity may grant there what they hold. The guard looks for named
bits that are asked for and not held, and reports them; the unnamed bit it does not see, so that bit
may be granted by actors who do not hold it. What is stored by a grant is, of its named bits, within
the rights of the actor.

Reference: `SPEC_FULL.md` 4.2 (no escalation beyond own rights).
-/

namespace StaffRights

namespace Tree

variable {t : Tree} {u : User} {id : EntityId} {requested : Permissions} {e : Entity}

/-- An actor who administrates the users is asked for the named bits of the grant. -/
theorem mayGrant_of_require (he : t.require u id (.single .administrateUsers) = .ok e) :
    t.mayGrant u id requested =
      if (t.rights id u).has (requested ∩ .full) then .ok ()
      else .error (.escalation ((requested ∩ .full).without (t.rights id u))) := by
  simp only [mayGrant, he, Permissions.inter_complement, Permissions.without_eq_empty_iff]
  rfl

/-- Who may administrate users on an entity may grant there just what they hold, unnamed bits aside.
-/
theorem mayGrant_eq_ok_iff (he : t.require u id (.single .administrateUsers) = .ok e) :
    t.mayGrant u id requested = .ok () ↔ (t.rights id u).has (requested ∩ .full) := by
  rw [mayGrant_of_require he]
  split <;> simp [*]

/-- The refusal names the bits that are missing, and there are some. -/
theorem mayGrant_eq_error_iff (he : t.require u id (.single .administrateUsers) = .ok e)
    {r : Refusal} :
    t.mayGrant u id requested = .error r ↔ ∃ missing, r = .escalation missing ∧ missing ≠ ∅ ∧
      missing = (requested ∩ .full).without (t.rights id u) := by
  rw [mayGrant_of_require he]
  split
  · next hhas =>
    constructor
    · intro hr
      cases hr
    · rintro ⟨missing, -, hne, hmissing⟩
      exact absurd (hmissing.trans ((Permissions.without_eq_empty_iff _ _).2 hhas)) hne
  · next hlacks =>
    constructor
    · intro hr
      cases hr
      exact ⟨_, rfl, fun hnone => hlacks ((Permissions.without_eq_empty_iff _ _).1 hnone), rfl⟩
    · rintro ⟨missing, rfl, -, rfl⟩
      rfl

/-- Who may not administrate users on an entity finds nothing there. -/
theorem mayGrant_eq_notFound_iff_rights :
    t.mayGrant u id requested = .error .notFound ↔
      t.entity id = none ∨ ¬ (t.rights id u).has (.single .administrateUsers) := by
  rw [mayGrant_eq_notFound_iff, require]
  split
  · next hid => simp [hid]
  · next e he => simp [he]

end Tree

namespace Service

variable {s : Service} {actor recipient : User} {entity : EntityId} {requested : Permissions}
  {fresh mid : MembershipId} {kind : Kind} {m : Membership} {α : Type}

/-- What holds of whatever the attempt commits holds of a transaction that answers with a value. -/
theorem of_transact_ok {attempt : Hierarchy → Attempt α} {P : α → Hierarchy → Prop} {v : α}
    (hok : (s.transact attempt).1 = .ok v)
    (hm : (attempt s.hierarchy).Meets s.hierarchy fun o after => P o.value after) :
    P v (s.transact attempt).2.hierarchy := by
  rcases transact_of_meets hm with ⟨r, htr⟩ | ⟨o, after, hP, htr⟩
  · rw [htr] at hok
    cases hok
  · rw [htr] at hok ⊢
    cases hok
    exact hP

/-- The actor was allowed to grant what is stored with the membership. -/
def Granted (h : Hierarchy) (actor : User) (m : Membership) (after : Hierarchy) : Prop :=
  h.tree.mayGrant actor m.entity.id m.permissions = .ok () ∧ m ∈ after.memberships

/-- A grant that is answered with a membership was allowed, and the membership is as requested. -/
theorem granted_of_grant (hr : s.hierarchy.Reachable)
    (hok : (s.grant actor recipient entity requested fresh).1 = .ok m) :
    Granted s.hierarchy actor m (s.grant actor recipient entity requested fresh).2.hierarchy ∧
      m.entity.id = entity ∧ m.permissions = requested := by
  apply of_transact_ok (P := fun m after => Granted s.hierarchy actor m after ∧
    m.entity.id = entity ∧ m.permissions = requested) hok
  apply Attempt.meets_guarded
  intro _ hgrant
  apply Attempt.meets_guarded
  intro _ _
  split
  · exact Attempt.meets_refuse
  · next e he =>
    refine (s.hierarchy.insertMembership_meets _).mono ?_
    rintro o after ⟨hm, -, -, rfl, rfl⟩
    obtain rfl := hr.consistent.linked.entity_id he
    exact ⟨⟨hgrant, Hierarchy.mem_memberships_putMembership hm⟩, rfl, rfl⟩

/-- A changed grant that is answered with a membership was allowed, and the membership is as
requested. -/
theorem granted_of_regrant (hr : s.hierarchy.Reachable)
    (hok : (s.regrant actor kind mid requested).1 = .ok m) :
    Granted s.hierarchy actor m (s.regrant actor kind mid requested).2.hierarchy ∧
      m.id = mid ∧ m.permissions = requested := by
  have hc := hr.consistent
  apply of_transact_ok (P := fun m after => Granted s.hierarchy actor m after ∧
    m.id = mid ∧ m.permissions = requested) hok
  apply Attempt.meets_guarded
  intro e he
  apply Attempt.meets_guarded
  intro _ hgrant
  refine (s.hierarchy.updateMembership_meets mid requested).mono ?_
  rintro o after ⟨x, hx, -, rfl, rfl⟩
  obtain ⟨hmem, hid⟩ := hc.membership?_eq_some_iff.1 hx
  obtain rfl := entity_of_membershipEntity he hx
  have hentity := hc.entity_of_membership hmem
  exact ⟨⟨hgrant, Hierarchy.mem_memberships_putMembership hentity⟩, hid, rfl⟩

/-- Who grants a membership holds all of its named bits on its entity. -/
theorem Granted.has {h after : Hierarchy} (hm : Granted h actor m after) :
    (h.tree.rights m.entity.id actor).has (m.permissions ∩ .full) := by
  obtain ⟨e, he, -⟩ := bind_eq_ok_iff.1 hm.1
  exact (Tree.mayGrant_eq_ok_iff he).1 hm.1

/-- The guard of a grant reports a target as missing if it does not exist or its users are not for
the actor to administrate. Otherwise it lets pass what has no named bits but those that the actor
holds, and refuses all else, naming exactly the named bits that are asked for and not held. So
whatever is granted, newly or again, is stored with named bits that the actor held on its entity. -/
theorem grants_within_named_rights (hr : s.hierarchy.Reachable) :
    let t := s.hierarchy.tree
    (∀ actor target requested,
      (t.mayGrant actor target requested = .error .notFound ↔
        t.entity target = none ∨ ¬ (t.rights target actor).has (.single .administrateUsers)) ∧
      (t.entity target ≠ none → (t.rights target actor).has (.single .administrateUsers) →
        (t.mayGrant actor target requested = .ok () ↔
          (t.rights target actor).has (requested ∩ .full)) ∧
        ∀ r, t.mayGrant actor target requested = .error r ↔
          ∃ missing, r = .escalation missing ∧ missing ≠ ∅ ∧
            missing = (requested ∩ .full).without (t.rights target actor))) ∧
    (∀ actor recipient entity requested fresh m,
      (s.grant actor recipient entity requested fresh).1 = .ok m →
        m ∈ (s.grant actor recipient entity requested fresh).2.hierarchy.memberships ∧
        m.entity.id = entity ∧ m.permissions = requested ∧
        (t.rights m.entity.id actor).has (m.permissions ∩ .full)) ∧
    ∀ actor kind mid requested m, (s.regrant actor kind mid requested).1 = .ok m →
      m ∈ (s.regrant actor kind mid requested).2.hierarchy.memberships ∧
      m.id = mid ∧ m.permissions = requested ∧
      (t.rights m.entity.id actor).has (m.permissions ∩ .full) := by
  intro t
  refine ⟨fun actor target requested => ⟨Tree.mayGrant_eq_notFound_iff_rights, ?_⟩, ?_, ?_⟩
  · intro hentity hadmin
    obtain ⟨e, he⟩ := Option.ne_none_iff_exists'.1 hentity
    have hrequire := t.require_eq_ok_iff.2 ⟨he, hadmin⟩
    exact ⟨Tree.mayGrant_eq_ok_iff hrequire, fun r => Tree.mayGrant_eq_error_iff hrequire⟩
  · intro actor recipient entity requested fresh m hok
    obtain ⟨hgranted, hentity, hpermissions⟩ := granted_of_grant hr hok
    exact ⟨hgranted.2, hentity, hpermissions, hgranted.has⟩
  · intro actor kind mid requested m hok
    obtain ⟨hgranted, hid, hpermissions⟩ := granted_of_regrant hr hok
    exact ⟨hgranted.2, hid, hpermissions, hgranted.has⟩

/-- Who administrates users and signs may grant signing, and may not grant awarding. -/
theorem grants_within_named_rights_of_signer :
    let h := (∅ : Hierarchy).run [.insertEntity ⟨.institution, .ofNat 1⟩ none,
      .insertMembership ⟨.ofNat 2, .ofNat 3, ⟨.institution, .ofNat 1⟩,
        .ofFlags [.administrateUsers, .sign], none⟩]
    let s := start h {} .discard
    let actor : User := .student (.ofNat 3)
    let recipient : User := .teacher (.ofNat 4) (.ofNat 1)
    let stored : Membership := ⟨.ofNat 5, .ofNat 4, ⟨.institution, .ofNat 1⟩, .single .sign,
      some (.ofNat 3)⟩
    h.tree.mayGrant actor (.ofNat 9) (.single .sign) = .error .notFound ∧
      h.tree.mayGrant actor (.ofNat 1) (.ofFlags [.sign, .award]) =
        .error (.escalation (.single .award)) ∧
      stored ∈
        (s.grant actor recipient (.ofNat 1) (.single .sign) (.ofNat 5)).2.hierarchy.memberships ∧
      (h.tree.rights (.ofNat 1) actor).has (stored.permissions ∩ .full) := by
  intro h s actor recipient stored
  have hr : s.hierarchy.Reachable := .run .empty _
  have hok : (s.grant actor recipient (.ofNat 1) (.single .sign) (.ofNat 5)).1 = .ok stored := by
    decide +kernel
  obtain ⟨hguard, hgrant, -⟩ := grants_within_named_rights hr
  obtain ⟨hstored, -, -, hhas⟩ := hgrant _ _ _ _ _ _ hok
  obtain ⟨-, hscope⟩ := hguard actor (.ofNat 1) (.ofFlags [.sign, .award])
  obtain ⟨-, hrefused⟩ := hscope (by decide +kernel) (by decide +kernel)
  refine ⟨(hguard actor (.ofNat 9) _).1.2 (.inl (by decide +kernel)), ?_, hstored, hhas⟩
  exact (hrefused _).2 ⟨.single .award, rfl, by decide, by decide +kernel⟩

/-- The unnamed bit is granted, and stored, by an actor who does not hold it. -/
theorem unnamed_bit_granted_unheld :
    let h := (∅ : Hierarchy).run [.insertEntity ⟨.institution, .ofNat 1⟩ none,
      .insertMembership ⟨.ofNat 10, .ofNat 7, ⟨.institution, .ofNat 1⟩,
        .single .administrateUsers, none⟩]
    let actor : User := .student (.ofNat 7)
    let recipient : User := .teacher (.ofNat 4) (.ofNat 1)
    let stored : Membership := ⟨.ofNat 5, .ofNat 4, ⟨.institution, .ofNat 1⟩, ⟨0x80#8⟩,
      some (.ofNat 7)⟩
    h.Reachable ∧ (h.tree.rights (.ofNat 1) actor).has (.single .administrateUsers) ∧
      h.tree.mayGrant actor (.ofNat 1) ⟨0x80#8⟩ = .ok () ∧
      (h.tree.rights (.ofNat 1) actor).has ⟨0x80#8⟩ = false ∧
      ((start h {} .discard).grant actor recipient (.ofNat 1) ⟨0x80#8⟩ (.ofNat 5)).1 = .ok stored :=
  ⟨.run .empty _, by decide +kernel, by decide +kernel, by decide +kernel, by decide +kernel⟩

end Service

end StaffRights
