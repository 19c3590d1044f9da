import StaffRights.Proofs.Hierarchy.Changes
import StaffRights.Proofs.Service.Steps

/-!
# What a call asks for

A call that changes the hierarchy asks for one change, once its guards have passed. `Asks` lists the
calls with their changes and what the guards have found. Every step of the service either leaves the
hierarchy and the sink alone, or carries out the change that its call asks for.
-/

namespace StaffRights

/-- The reply to a change that was carried out. -/
def Change.reply : (c : Change) → c.Value → Reply
  | .insertEntity .., e | .saveEntity _, e | .moveEntity .., e => .entity e
  | .deleteEntity _, r => .removed r
  | .setAwarded .., _ => .done
  | .insertMembership _, m | .updateMembership .., m | .removeMembership _, m => .membership m

/-- On the hierarchy the call passes its guards and asks for the change. -/
inductive Call.Asks (h : Hierarchy) : Call → Change → Prop
  | createInstitution {fresh : EntityId} :
      Asks h (.createInstitution fresh) (.insertEntity ⟨.institution, fresh⟩ none)
  | addAdministrator {institution : EntityId} {user : User} {fresh : MembershipId} {e : Entity}
      (he : h.tree.entity institution = some e) (hkind : e.kind = .institution)
      (hreceive : h.tree.mayReceive user institution = .ok ()) :
      Asks h (.addAdministrator institution user fresh)
        (.insertMembership ⟨fresh, user.id, e, .full, none⟩)
  | create {actor : User} {kind : Kind} {parent fresh : EntityId} {p : Entity}
      (hparent : h.tree.require actor parent (.single .create) = .ok p) :
      Asks h (.create actor kind parent fresh) (.insertEntity ⟨kind, fresh⟩ (some parent))
  | save {actor : User} {id : EntityId} {e : Entity}
      (he : h.tree.require actor id (.single .update) = .ok e) :
      Asks h (.save actor id) (.saveEntity id)
  | move {actor : User} {id parent : EntityId} {e p : Entity}
      (he : h.tree.require actor id (.single .update) = .ok e)
      (hparent : h.tree.require actor parent (.single .create) = .ok p) :
      Asks h (.move actor id parent) (.moveEntity id parent)
  | delete {actor : User} {id : EntityId} {e : Entity}
      (he : h.tree.require actor id (.single .delete) = .ok e) :
      Asks h (.delete actor id) (.deleteEntity id)
  | setAwarded {id : EntityId} {count : UInt32} :
      Asks h (.setAwarded id count) (.setAwarded id count)
  | grant {actor recipient : User} {entity : EntityId} {permissions : Permissions}
      {fresh : MembershipId} {e : Entity}
      (hgrant : h.tree.mayGrant actor entity permissions = .ok ())
      (hreceive : h.tree.mayReceive recipient entity = .ok ())
      (he : h.tree.entity entity = some e) :
      Asks h (.grant actor recipient entity permissions fresh)
        (.insertMembership ⟨fresh, recipient.id, e, permissions, some actor.id⟩)
  | regrant {actor : User} {kind : Kind} {mid : MembershipId} {permissions : Permissions}
      {e : Entity} (he : Service.membershipEntity h kind mid = .ok e)
      (hgrant : h.tree.mayGrant actor e.id permissions = .ok ()) :
      Asks h (.regrant actor kind mid permissions) (.updateMembership mid permissions)
  | revoke {actor : User} {kind : Kind} {mid : MembershipId} {e x : Entity}
      (he : Service.membershipEntity h kind mid = .ok e)
      (hx : h.tree.require actor e.id (.single .administrateUsers) = .ok x) :
      Asks h (.revoke actor kind mid) (.removeMembership mid)

/-- The call asks for no change, whatever the hierarchy. -/
def Call.IsRead : Call → Prop
  | .rights .. | .permits .. | .branch .. => True
  | .administrable _ | .membershipsOf _ | .staffOf .. => True
  | _ => False

namespace Service

variable {s : Service} {c : Call} {α : Type}

/-- The step leaves hierarchy and sink as they are, because its call only reads or is turned down.
-/
structure Idles (s : Service) (c : Call) : Prop where
  hierarchy : (s.step c).2.hierarchy = s.hierarchy
  sink : (s.step c).2.sink = s.sink
  cause : c.IsRead ∨ ∃ r, (s.step c).1 = .error r

/-- A call that is refused without a change idles. -/
theorem Idles.of_refused {r : Refusal} (hrefused : s.step c = (.error r, s)) : s.Idles c where
  hierarchy := by rw [hrefused]
  sink := by rw [hrefused]
  cause := .inr ⟨r, by rw [hrefused]⟩

/-- The step carries out the change that its call asks for: it answers the value of the change,
commits what the change leaves, forgets what is stale and delivers the events. -/
def CarriesOut (s : Service) (c : Call) : Prop :=
  ∃ d o h', c.Asks s.hierarchy d ∧ s.hierarchy.Done d o h' ∧
    s.step c = (.ok (d.reply o.value),
      ⟨h', s.cache.forget o.stale, s.sink.publishAll o.events⟩)

/-- A transaction that makes the change asked for carries it out, or changes nothing. -/
theorem carriesOut_of_meets {f : α → Reply} {attempt : Hierarchy → Attempt α}
    (hstep : s.step c = reply f (s.transact attempt))
    (hmeets : (attempt s.hierarchy).Meets s.hierarchy fun o h' =>
      ∃ d, c.Asks s.hierarchy d ∧ ∃ o', s.hierarchy.Done d o' h' ∧
        (f o.value, o.stale, o.events) = (d.reply o'.value, o'.stale, o'.events)) :
    s.Idles c ∨ s.CarriesOut c := by
  rcases transact_of_meets hmeets with ⟨r, htr⟩ | ⟨o, h', ⟨d, hasks, o', hdone, heq⟩, htr⟩
  · have hrefused : s.step c = (.error r, s) := by
      rw [hstep, htr]
      rfl
    exact .inl (.of_refused hrefused)
  · apply Or.inr
    rw [Prod.mk.injEq, Prod.mk.injEq] at heq
    obtain ⟨hvalue, hstale, hevents⟩ := heq
    refine ⟨d, o', h', hasks, hdone, ?_⟩
    rw [hstep, htr, ← hvalue, ← hstale, ← hevents]
    rfl

/-- What a call asks for is carried out by its step, or nothing is changed. -/
theorem step_cases (s : Service) (c : Call) : s.Idles c ∨ s.CarriesOut c := by
  have hdone : ∀ d, (s.hierarchy.attempt d).Meets s.hierarchy (s.hierarchy.Done d) :=
    Hierarchy.attempt_meets
  cases c with
  | createInstitution fresh =>
    apply carriesOut_of_meets rfl
    apply (hdone (.insertEntity _ none)).mono
    exact fun o h' hd => ⟨_, .createInstitution, o, hd, rfl⟩
  | addAdministrator institution user fresh =>
    apply carriesOut_of_meets rfl
    cases he : s.hierarchy.tree.entity institution with
    | none => exact Attempt.meets_refuse
    | some e =>
      simp only [Option.filter_some]
      by_cases hkind : e.kind = .institution
      · simp only [hkind, beq_self_eq_true, if_true]
        apply Attempt.meets_guarded
        intro u hreceive
        apply (hdone (.insertMembership _)).mono
        exact fun o h' hd => ⟨_, .addAdministrator he hkind hreceive, o, hd, rfl⟩
      · have hne : (e.kind == .institution) = false := by simpa using hkind
        simp only [hne]
        exact Attempt.meets_refuse
  | create actor kind parent fresh =>
    apply carriesOut_of_meets rfl
    apply Attempt.meets_guarded
    intro p hparent
    apply (hdone (.insertEntity _ (some parent))).mono
    exact fun o h' hd => ⟨_, .create hparent, o, hd, rfl⟩
  | save actor id =>
    apply carriesOut_of_meets rfl
    apply Attempt.meets_guarded
    intro e he
    apply (hdone (.saveEntity id)).mono
    exact fun o h' hd => ⟨_, .save he, o, hd, rfl⟩
  | move actor id parent =>
    apply carriesOut_of_meets rfl
    apply Attempt.meets_guarded
    intro e he
    apply Attempt.meets_guarded
    intro p hparent
    apply (hdone (.moveEntity id parent)).mono
    exact fun o h' hd => ⟨_, .move he hparent, o, hd, rfl⟩
  | delete actor id =>
    apply carriesOut_of_meets rfl
    apply Attempt.meets_guarded
    intro e he
    apply (hdone (.deleteEntity id)).mono
    exact fun o h' hd => ⟨_, .delete he, o, hd, rfl⟩
  | setAwarded id count =>
    apply carriesOut_of_meets rfl
    apply (hdone (.setAwarded id count)).mono
    exact fun o h' hd => ⟨_, .setAwarded, o, hd, rfl⟩
  | grant actor recipient entity permissions fresh =>
    apply carriesOut_of_meets rfl
    apply Attempt.meets_guarded
    intro u hgrant
    apply Attempt.meets_guarded
    intro v hreceive
    split
    · exact Attempt.meets_refuse
    · next e he =>
      apply (hdone (.insertMembership _)).mono
      exact fun o h' hd => ⟨_, .grant hgrant hreceive he, o, hd, rfl⟩
  | regrant actor kind mid permissions =>
    apply carriesOut_of_meets rfl
    apply Attempt.meets_guarded
    intro e he
    apply Attempt.meets_guarded
    intro u hgrant
    apply (hdone (.updateMembership mid permissions)).mono
    exact fun o h' hd => ⟨_, .regrant he hgrant, o, hd, rfl⟩
  | revoke actor kind mid =>
    apply carriesOut_of_meets rfl
    apply Attempt.meets_guarded
    intro e he
    apply Attempt.meets_guarded
    intro x hx
    apply (hdone (.removeMembership mid)).mono
    exact fun o h' hd => ⟨_, .revoke he hx, o, hd, rfl⟩
  -- these two go through the cache, which `Idles` leaves out of account
  | rights u e =>
    obtain ⟨hh, hs, -⟩ := s.rights_spec u e
    exact .inl ⟨hh, hs, .inl trivial⟩
  | permits u e required =>
    obtain ⟨hh, hs, -⟩ := s.permits_spec u e required
    exact .inl ⟨hh, hs, .inl trivial⟩
  | branch | administrable | membershipsOf | staffOf => exact .inl ⟨rfl, rfl, .inl trivial⟩

end Service

end StaffRights
