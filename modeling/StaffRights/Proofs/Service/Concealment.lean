import StaffRights.Proofs.Hierarchy.Changes
import StaffRights.Proofs.Service.Administration
import StaffRights.Proofs.Service.Transparency
import StaffRights.Proofs.Tree.Institution

/-!
# Out of reach is as good as missing

Every call with an actor looks at its target first, and at nothing else before it has found that the
actor may do there what the call needs. So a call whose target is out of the actor's reach is turned
down like one whose target does not exist, whatever else it asks for and whatever there is to find,
and it leaves no trace. Nothing else is answered so, but for moves into another institution.

Reference: `SPEC_FULL.md` 4.2 and 7 (`NotFoundOrUnauthorized`).
-/

namespace StaffRights

variable {t : Tree} {h : Hierarchy} {s s' : Service} {actor : User} {id : EntityId} {f : Flag}
  {c : Call}

namespace Attempt

variable {α β : Type} {check : Except Refusal β} {next : β → Attempt α}

/-- What fails a check is turned down with the refusal of the check. -/
theorem guarded_of_error {r : Refusal} (hcheck : check = .error r) :
    guarded h check next = refuse r h := by
  rw [hcheck, guarded]

/-- Behind a check that is passed, the attempt goes on. -/
theorem guarded_of_ok {b : β} (hcheck : check = .ok b) : guarded h check next = next b := by
  rw [hcheck, guarded]

end Attempt

namespace Tree

/-- There is no such entity, or the actor does not hold the flag on it. -/
def Conceals (t : Tree) (actor : User) (id : EntityId) (f : Flag) : Prop :=
  t.entity id = none ∨ (t.rights id actor).holds f = false

instance : Decidable (t.Conceals actor id f) := inferInstanceAs (Decidable (_ ∨ _))

/-- What is concealed is reported as missing, and nothing else is. -/
theorem conceals_iff :
    t.Conceals actor id f ↔ t.require actor id (.single f) = .error .notFound := by
  unfold Conceals Tree.require
  cases t.entity id with
  | none => simp
  | some e => simp [Permissions.has_single]

/-- What is concealed answers a requirement as missing. -/
theorem Conceals.require (hf : t.Conceals actor id f) :
    t.require actor id (.single f) = .error .notFound :=
  conceals_iff.1 hf

/-- An entity has an institution, so a recipient is not told that there is none. -/
theorem Linked.mayReceive_ne_notFound (ht : t.Linked) {e : Entity} (he : t.entity id = some e)
    {recipient : User} : t.mayReceive recipient id ≠ .error .notFound := by
  obtain ⟨i, hi⟩ := ht.exists_institution he
  unfold mayReceive
  rw [hi]
  simp only
  split <;> simp

/-- What is concealed answers a grant as missing. -/
theorem Conceals.mayGrant (hf : t.Conceals actor id .administrateUsers) (requested : Permissions) :
    t.mayGrant actor id requested = .error .notFound :=
  t.mayGrant_eq_notFound_iff.2 hf.require

end Tree

/-- The user on whose behalf a call asks for something. -/
def Call.actor? : Call → Option User
  | .create actor .. | .save actor _ | .move actor .. | .delete actor _ | .grant actor ..
  | .regrant actor .. | .revoke actor .. | .staffOf actor _ => some actor
  | _ => none

/-- What the call names does not exist, is not of the kind that it says, or is out of the actor's
reach: the actor does not hold there what the call needs. -/
def Call.OutOfReach (h : Hierarchy) : Call → Prop
  | .create actor _ parent _ => h.tree.Conceals actor parent .create
  | .save actor id => h.tree.Conceals actor id .update
  | .move actor id parent =>
    h.tree.Conceals actor id .update ∨ h.tree.Conceals actor parent .create
  | .delete actor id => h.tree.Conceals actor id .delete
  | .grant actor _ entity _ _ => h.tree.Conceals actor entity .administrateUsers
  | .regrant actor kind mid _ | .revoke actor kind mid =>
    ∀ m ∈ h.memberships, m.id = mid → m.entity.kind = kind →
      h.tree.Conceals actor m.entity.id .administrateUsers
  | .staffOf actor entity => h.tree.Conceals actor entity .administrateUsers
  | _ => False

instance : DecidablePred (Call.OutOfReach h)
  | .create .. | .save .. | .delete .. | .grant .. | .staffOf .. =>
    inferInstanceAs (Decidable (Tree.Conceals ..))
  | .move .. => inferInstanceAs (Decidable (Tree.Conceals .. ∨ Tree.Conceals ..))
  | .regrant .. | .revoke .. =>
    inferInstanceAs (Decidable (∀ m ∈ h.memberships, m.id = _ → m.entity.kind = _ → _))
  | .createInstitution _ | .addAdministrator .. | .setAwarded .. | .rights .. | .permits ..
  | .branch .. | .administrable _ | .membershipsOf _ => inferInstanceAs (Decidable False)

namespace Service

variable {α β : Type}

/-! ## One call -/

/-- A transaction that is turned down at once leaves no trace. -/
theorem step_of_refuse {f : α → Reply} {attempt : Hierarchy → Attempt α} {r : Refusal}
    (hstep : s.step c = reply f (s.transact attempt))
    (hrefused : attempt s.hierarchy = .refuse r s.hierarchy) : s.step c = (.error r, s) := by
  rw [hstep, transact, hrefused]
  rfl

/-- The entity of a membership is found if the membership is there and of the kind asked for. -/
theorem membershipEntity_cases (hc : h.Consistent) (kind : Kind) (mid : MembershipId) :
    membershipEntity h kind mid = .error .notFound ∨
      ∃ m ∈ h.memberships, m.id = mid ∧ m.entity.kind = kind ∧
        membershipEntity h kind mid = .ok m.entity := by
  unfold membershipEntity
  cases hm : h.membership? mid with
  | none => exact .inl rfl
  | some m =>
    obtain ⟨hmem, hid⟩ := hc.membership?_eq_some_iff.1 hm
    by_cases hkind : m.entity.kind = kind
    · exact .inr ⟨m, hmem, hid, hkind, if_pos hkind⟩
    · exact .inl (if_neg hkind)

/-- A stored membership is found with its own kind. -/
theorem membershipEntity_of_mem (hc : h.Consistent) {m : Membership} (hm : m ∈ h.memberships) :
    membershipEntity h m.entity.kind m.id = .ok m.entity := by
  have hfound : h.membership? m.id = some m := hc.membership?_eq_some_iff.2 ⟨hm, rfl⟩
  unfold membershipEntity
  rw [hfound]
  exact if_pos rfl

/-- A call that names a membership is turned down if the entity of such a membership fails the
check. -/
theorem guarded_membershipEntity (hc : h.Consistent) {kind : Kind} {mid : MembershipId}
    {check : Entity → Except Refusal β} {next : β → Attempt α}
    (hcheck : ∀ m ∈ h.memberships, m.id = mid → m.entity.kind = kind →
      check m.entity = .error .notFound) :
    (Attempt.guarded h (membershipEntity h kind mid) fun e => .guarded h (check e) next) =
      .refuse .notFound h := by
  rcases membershipEntity_cases hc kind mid with hnone | ⟨m, hmem, hid, hkind, hfound⟩
  · exact Attempt.guarded_of_error hnone
  · rw [Attempt.guarded_of_ok hfound]
    exact Attempt.guarded_of_error (hcheck m hmem hid hkind)

/-- A call out of reach is turned down as if its target were missing, and changes nothing. -/
theorem step_of_outOfReach (hr : s.hierarchy.Reachable) (hout : c.OutOfReach s.hierarchy) :
    s.step c = (.error .notFound, s) := by
  have hc := hr.consistent
  cases c with
  | create actor kind parent fresh =>
    apply step_of_refuse rfl
    exact Attempt.guarded_of_error hout.require
  | save actor id =>
    apply step_of_refuse rfl
    exact Attempt.guarded_of_error hout.require
  | move actor id parent =>
    apply step_of_refuse rfl
    -- the entity is looked at before the parent
    by_cases hid : s.hierarchy.tree.require actor id (.single .update) = .error .notFound
    · exact Attempt.guarded_of_error hid
    · have hparent := hout.resolve_left fun hf => hid hf.require
      rw [s.hierarchy.tree.require_eq_notFound_iff] at hid
      obtain ⟨e, he⟩ := not_forall_not.1 hid
      rw [Attempt.guarded_of_ok he]
      exact Attempt.guarded_of_error hparent.require
  | delete actor id =>
    apply step_of_refuse rfl
    exact Attempt.guarded_of_error hout.require
  | grant actor recipient entity permissions fresh =>
    apply step_of_refuse rfl
    exact Attempt.guarded_of_error (hout.mayGrant permissions)
  | regrant actor kind mid permissions =>
    apply step_of_refuse rfl
    apply guarded_membershipEntity hc
    exact fun m hmem hid hkind => (hout m hmem hid hkind).mayGrant permissions
  | revoke actor kind mid =>
    apply step_of_refuse rfl
    apply guarded_membershipEntity hc
    exact fun m hmem hid hkind => (hout m hmem hid hkind).require
  | staffOf actor entity =>
    simp only [step, staffOf, hout.require]
    rfl
  | _ => cases hout

/-- A step that is turned down is turned down by its attempt. -/
theorem answer_of_step {f : α → Reply} {attempt : Hierarchy → Attempt α} {r : Refusal}
    (hstep : s.step c = reply f (s.transact attempt)) (ha : (s.step c).1 = .error r) :
    (attempt s.hierarchy).answer = .error r := by
  rw [hstep] at ha
  unfold reply transact at ha
  generalize attempt s.hierarchy = attempted at ha ⊢
  obtain ⟨r' | o, after⟩ := attempted
  · cases ha
    rfl
  · cases ha

/-- A call that names a membership and is answered that something was not found has failed the check
on the entity, unless it has got as far as the change. -/
theorem check_of_membershipEntity (hc : h.Consistent) {kind : Kind} {mid : MembershipId}
    {check : Entity → Except Refusal β} {next : β → Attempt α}
    (hnext : ∀ b, (next b).answer = .error .notFound → h.membership? mid = none)
    (ha : (Attempt.guarded h (membershipEntity h kind mid) fun e =>
      .guarded h (check e) next).answer = .error .notFound) :
    ∀ m ∈ h.memberships, m.id = mid → m.entity.kind = kind →
      check m.entity = .error .notFound := by
  rintro m hm rfl rfl
  rw [Attempt.guarded_of_ok (membershipEntity_of_mem hc hm)] at ha
  rcases Attempt.answer_guarded ha with hcheck | ⟨b, -, ha⟩
  · exact hcheck
  · have hfound : h.membership? m.id = some m := hc.membership?_eq_some_iff.2 ⟨hm, rfl⟩
    rw [hnext b ha] at hfound
    cases hfound

/-- What is answered not to be found is out of reach, or it is asked to be moved into another
institution. -/
theorem outOfReach_of_notFound (hr : s.hierarchy.Reachable) (hactor : c.actor? = some actor)
    (ha : (s.step c).1 = .error .notFound) :
    c.OutOfReach s.hierarchy ∨ ∃ id parent, c = .move actor id parent ∧
      s.hierarchy.tree.institution? id ≠ s.hierarchy.tree.institution? parent := by
  have hc := hr.consistent
  have hthere : ∀ {a : User} {id : EntityId} {f : Flag} {e : Entity},
      s.hierarchy.tree.require a id (.single f) = .ok e → s.hierarchy.tree.entity id ≠ none := by
    intro a id f e hok hnone
    rw [(s.hierarchy.tree.require_eq_ok_iff.1 hok).1] at hnone
    cases hnone
  -- a check failed, and the call is out of reach, or the change found something missing that a check
  -- had found
  cases c with
  | create a kind parent fresh =>
    rcases Attempt.answer_guarded (answer_of_step rfl ha) with hcheck | ⟨p, hp, hinsert⟩
    · exact .inl (Tree.conceals_iff.2 hcheck)
    · obtain ⟨id, heq, hnone⟩ :=
        hc.missing_of_notFound (c := .insertEntity ⟨kind, fresh⟩ (some parent)) hinsert
      cases heq
      exact absurd hnone (hthere hp)
  | save a id =>
    rcases Attempt.answer_guarded (answer_of_step rfl ha) with hcheck | ⟨e, he, hsave⟩
    · exact .inl (Tree.conceals_iff.2 hcheck)
    · exact absurd (hc.missing_of_notFound (c := .saveEntity id) hsave) (hthere he)
  | move a id parent =>
    cases hactor
    rcases Attempt.answer_guarded (answer_of_step rfl ha) with hcheck | ⟨e, he, ha⟩
    · exact .inl (.inl (Tree.conceals_iff.2 hcheck))
    · rcases Attempt.answer_guarded ha with hcheck | ⟨p, hp, hmove⟩
      · exact .inl (.inr (Tree.conceals_iff.2 hcheck))
      · rcases hc.missing_of_notFound (c := .moveEntity id parent) hmove with hnone | hnone | hinst
        · exact absurd hnone (hthere he)
        · exact absurd hnone (hthere hp)
        -- the one exception: both are there, in different institutions
        · exact .inr ⟨id, parent, rfl, hinst⟩
  | delete a id =>
    rcases Attempt.answer_guarded (answer_of_step rfl ha) with hcheck | ⟨e, he, hdelete⟩
    · exact .inl (Tree.conceals_iff.2 hcheck)
    · exact absurd (hc.missing_of_notFound (c := .deleteEntity id) hdelete) (hthere he)
  | grant a recipient entity permissions fresh =>
    rcases Attempt.answer_guarded (answer_of_step rfl ha) with hcheck | ⟨u, hgrant, ha⟩
    · exact .inl (Tree.conceals_iff.2 ((Tree.mayGrant_eq_notFound_iff _).1 hcheck))
    · obtain ⟨x, hx, -⟩ := bind_eq_ok_iff.1 hgrant
      have hentity := (s.hierarchy.tree.require_eq_ok_iff.1 hx).1
      rcases Attempt.answer_guarded ha with hcheck | ⟨v, -, ha⟩
      · exact absurd hcheck (hc.linked.mayReceive_ne_notFound hentity)
      · have hid := hc.linked.entity_id hentity
        subst hid
        simp only [hentity] at ha
        exact absurd hentity (hc.missing_of_notFound (c := .insertMembership _) ha)
  | regrant a kind mid permissions =>
    refine .inl fun m hm hid hkind => ?_
    apply Tree.conceals_iff.2
    apply (Tree.mayGrant_eq_notFound_iff _).1
    apply check_of_membershipEntity hc ?_ (answer_of_step rfl ha) m hm hid hkind
    exact fun _ => hc.missing_of_notFound (c := .updateMembership mid permissions)
  | revoke a kind mid =>
    refine .inl fun m hm hid hkind => ?_
    apply Tree.conceals_iff.2
    apply check_of_membershipEntity hc ?_ (answer_of_step rfl ha) m hm hid hkind
    exact fun _ => hc.missing_of_notFound (c := .removeMembership mid)
  | staffOf a entity =>
    apply Or.inl
    apply Tree.conceals_iff.2
    simp only [step, staffOf] at ha
    cases hcheck : s.hierarchy.tree.require a entity (.single .administrateUsers) with
    | error r =>
      rw [hcheck] at ha
      cases ha
      rfl
    | ok e =>
      rw [hcheck] at ha
      cases ha
  | _ => cases hactor

/-! ## Runs -/

/-- However often the actors try, they are told the same and leave no trace. -/
theorem run_of_outOfReach (hr : s.hierarchy.Reachable) {calls : List Call}
    (hout : ∀ c ∈ calls, c.OutOfReach s.hierarchy) :
    s.run calls = (calls.map fun _ => .error .notFound, s) := by
  induction calls with
  | nil => rfl
  | cons c cs ih =>
    have hstep := step_of_outOfReach hr (hout c (List.mem_cons_self ..))
    have hrest := ih fun d hd => hout d (List.mem_cons_of_mem _ hd)
    rw [run, hstep, hrest]
    rfl

/-- A call whose target is missing or out of the actor's reach is answered that it was not found,
whatever else it asks for, and leaves hierarchy, cache and deliveries as they are. So calls that are
out of reach on two services, be it for want of the target on the one and for want of authority on
the other, are answered alike and do not tell them apart. No other call with an actor is answered
so, but for moves into another institution. -/
theorem out_of_reach_like_missing (hr : s.hierarchy.Reachable) :
    (∀ c : Call, c.OutOfReach s.hierarchy → s.step c = (.error .notFound, s)) ∧
      (∀ s' : Service, s'.hierarchy.Reachable → ∀ calls : List Call,
        (∀ c ∈ calls, c.OutOfReach s.hierarchy ∧ c.OutOfReach s'.hierarchy) →
          (s.run calls).1 = (s'.run calls).1 ∧ (s.run calls).2 = s ∧ (s'.run calls).2 = s') ∧
      ∀ (c : Call) (actor : User), c.actor? = some actor → (s.step c).1 = .error .notFound →
        c.OutOfReach s.hierarchy ∨ ∃ id parent, c = .move actor id parent ∧
          s.hierarchy.tree.institution? id ≠ s.hierarchy.tree.institution? parent := by
  refine ⟨fun c => step_of_outOfReach hr, fun s' hr' calls hout => ?_, fun c actor => ?_⟩
  · have hrun := run_of_outOfReach hr fun c hc => (hout c hc).1
    have hrun' := run_of_outOfReach hr' fun c hc => (hout c hc).2
    rw [hrun, hrun']
    exact ⟨rfl, rfl, rfl⟩
  · exact outOfReach_of_notFound hr

/-- A teacher without membership tries every call on an institution of which all is to be seen from
home, and on a service that knows of none. -/
theorem out_of_reach_like_missing_of_teacher :
    let h := (∅ : Hierarchy).run [.insertEntity ⟨.institution, .ofNat 1⟩ none,
      .insertEntity ⟨.faculty, .ofNat 2⟩ (some (.ofNat 1)), .setAwarded (.ofNat 2) 3,
      .insertMembership ⟨.ofNat 4, .ofNat 5, ⟨.institution, .ofNat 1⟩, .full, none⟩]
    let s := start h {} (.record [])
    let s' := start ∅ {} (.record [])
    let actor : User := .teacher (.ofNat 6) (.ofNat 1)
    let calls : List Call := [.create actor .institution (.ofNat 2) (.ofNat 7),
      .save actor (.ofNat 1), .move actor (.ofNat 2) (.ofNat 1), .delete actor (.ofNat 2),
      .grant actor (.student (.ofNat 5)) (.ofNat 2) .full (.ofNat 4),
      .regrant actor .institution (.ofNat 4) ∅, .revoke actor .institution (.ofNat 4),
      .revoke actor .badgeClass (.ofNat 4), .staffOf actor (.ofNat 1)]
    ((h.tree.rights (.ofNat 2) actor).has (.single .read) ∧
        s.hierarchy.tree.entity (.ofNat 2) ≠ s'.hierarchy.tree.entity (.ofNat 2)) ∧
      s.step (.delete actor (.ofNat 2)) = (.error .notFound, s) ∧
      ((s.run calls).1 = (s'.run calls).1 ∧ (s.run calls).2 = s ∧ (s'.run calls).2 = s') ∧
      (Call.delete actor (.ofNat 2)).OutOfReach s.hierarchy := by
  intro h s s' actor calls
  have hr : s.hierarchy.Reachable := .run .empty _
  have hr' : s'.hierarchy.Reachable := .empty
  have hout : ∀ c ∈ calls, c.OutOfReach s.hierarchy ∧ c.OutOfReach s'.hierarchy := by
    decide +kernel
  obtain ⟨hstep, halike, hconverse⟩ := out_of_reach_like_missing hr
  have hdelete := hstep (.delete actor (.ofNat 2)) (by decide +kernel)
  refine ⟨by decide +kernel, hdelete, halike s' hr' calls hout, ?_⟩
  -- a deletion is no move, so the answer says that it is out of reach
  have hanswer : (s.step (.delete actor (.ofNat 2))).1 = .error .notFound := by rw [hdelete]
  refine (hconverse _ actor rfl hanswer).resolve_right ?_
  rintro ⟨id, parent, heq, -⟩
  cases heq

end Service

end StaffRights
