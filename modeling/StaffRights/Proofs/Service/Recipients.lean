import StaffRights.Proofs.Hierarchy.Persistence
import StaffRights.Proofs.Service.Requests
import StaffRights.Proofs.Service.Transparency

/-!
# Memberships belong to teachers of their institution

A recipient is looked at once, when a membership is given. As no entity ever leaves its institution,
and no change to a membership touches more than its permissions, the membership belongs to a teacher
of its institution for as long as it is there, however its entity is moved.

Reference: `SPEC_FULL.md` 10.6 (who may receive a membership).
-/

namespace StaffRights

/-- The user to whom a call gives a membership. -/
def Call.recipient? : Call → Option User
  | .addAdministrator _ user _ => some user
  | .grant _ recipient .. => some recipient
  | _ => none

/-- Calls and their answers. -/
abbrev Log := List (Call × Except Refusal Reply)

/-- Among the calls is one that answered the membership, but for changes of the permissions since
then, and gave it to a teacher of the institution. -/
def Log.Gives (log : Log) (m : Membership) (institution : EntityId) : Prop :=
  ∃ c granted r, (c, .ok (.membership granted)) ∈ log ∧
    m = { granted with permissions := m.permissions } ∧ c.recipient? = some r ∧ r.id = m.user ∧
    r.isTeacher = true ∧ r.institution = some institution

/-- Every membership was given to a teacher of the institution above its entity. -/
def Log.Vouches (log : Log) (h : Hierarchy) : Prop :=
  ∀ m ∈ h.memberships, ∃ i, h.tree.institution? m.entity.id = some i ∧ log.Gives m i.id

variable {log log' : Log} {m x : Membership} {i : EntityId} {h h' : Hierarchy} {c : Call}
  {e : Entity}

namespace Log

theorem Gives.mono (hm : log.Gives m i) (hlog : log ⊆ log') : log'.Gives m i := by
  obtain ⟨c, granted, r, hmem, hrest⟩ := hm
  exact ⟨c, granted, r, hlog hmem, hrest⟩

/-- New permissions do not make another membership of it. -/
theorem Gives.edited (hx : log.Gives x i) (hm : m = { x with permissions := m.permissions }) :
    log.Gives m i := by
  obtain ⟨c, granted, r, hmem, hgranted, hc, huser, hteacher, hinst⟩ := hx
  refine ⟨c, granted, r, hmem, ?_, hc, ?_, hteacher, hinst⟩
  · rw [hm, hgranted]
  · rw [hm, huser]

/-- A longer log vouches for what a shorter one does. -/
theorem Vouches.mono (hv : log.Vouches h) (hlog : log ⊆ log') : log'.Vouches h := by
  intro m hm
  obtain ⟨i, hi, hgiven⟩ := hv m hm
  exact ⟨i, hi, hgiven.mono hlog⟩

/-- Nothing has to be vouched for where there are no memberships. -/
theorem vouches_empty : log.Vouches ∅ := by
  intro m hm
  simp [Hierarchy.mem_memberships_iff, Hierarchy.tree_staff] at hm

end Log

/-- Who may receive a membership is a teacher of the institution above the target. -/
theorem Tree.mayReceive_eq_ok_iff {t : Tree} {r : User} {id : EntityId} :
    t.mayReceive r id = .ok () ↔
      ∃ i, t.institution? id = some i ∧ r.isTeacher = true ∧ r.institution = some i.id := by
  rw [mayReceive]
  cases t.institution? id with
  | none => simp
  | some i =>
    have hiff : r.belongsTo i.id ↔ r.isTeacher = true ∧ r.institution = some i.id := by
      simp [User.belongsTo]
    simp [hiff]

/-- A new membership is asked for on behalf of a teacher of its institution. -/
theorem Call.Asks.recipient (hc : h.Consistent) (hasks : c.Asks h (.insertMembership m)) :
    ∃ r i, c.recipient? = some r ∧ r.id = m.user ∧ h.tree.institution? m.entity.id = some i ∧
      r.isTeacher = true ∧ r.institution = some i.id := by
  cases hasks with
  | addAdministrator he hkind hreceive =>
    have hid := hc.linked.entity_id he
    subst hid
    obtain ⟨i, hi, hteacher⟩ := Tree.mayReceive_eq_ok_iff.1 hreceive
    exact ⟨_, i, rfl, rfl, hi, hteacher⟩
  | grant hgrant hreceive he =>
    have hid := hc.linked.entity_id he
    subst hid
    obtain ⟨i, hi, hteacher⟩ := Tree.mayReceive_eq_ok_iff.1 hreceive
    exact ⟨_, i, rfl, rfl, hi, hteacher⟩

/-- What a change removes is in its reply. -/
theorem Change.exists_removed {d : Change} {v : d.Value} (he : e ∈ d.removed v) :
    ∃ r, d.reply v = .removed r ∧ e ∈ r.entities := by
  cases d with
  | deleteEntity id => exact ⟨v, rfl, he⟩
  | _ => cases he

namespace Service

variable {s : Service}

/-! ## One call -/

/-- With its answer in the log, a call leaves no membership that the log does not vouch for. -/
theorem vouches_step (hr : s.hierarchy.Reachable) (hv : log.Vouches s.hierarchy) (c : Call) :
    Log.Vouches (log ++ [(c, (s.step c).1)]) (s.step c).2.hierarchy := by
  have hc := hr.consistent
  have hc' := (reachable_step hr c).consistent
  rcases s.step_cases c with ⟨hsame, -⟩ | ⟨d, o, h', hasks, hdone, hstep⟩
  · rw [hsame]
    exact hv.mono (List.subset_append_left _ _)
  rw [hstep] at hc' ⊢
  intro m hm
  have he' := hc'.entity_of_membership hm
  -- the entity was there before, and it has not left its institution
  have hinst : s.hierarchy.tree.entity m.entity.id = some m.entity →
      h'.tree.institution? m.entity.id = s.hierarchy.tree.institution? m.entity.id := by
    intro he
    rcases hc.retained_or_removed hdone he with ⟨-, hinst⟩ | ⟨-, hnone, -⟩
    · exact hinst
    · rw [hnone] at he'
      cases he'
  rcases hc.membership_of_done hdone hm with rfl | ⟨x, hx, hedited⟩
  · obtain ⟨r, i, hrecipient, huser, hi, hteacher⟩ := hasks.recipient hc
    cases hdone with
    | insertMembership he =>
      refine ⟨i, (hinst he).trans hi, c, m, r, ?_, rfl, hrecipient, huser, hteacher⟩
      exact List.mem_append_right _ (List.mem_singleton_self _)
  · have he := hc.entity_of_membership hx
    have hentity : x.entity = m.entity := by rw [hedited]
    obtain ⟨i, hi, hgiven⟩ := hv x hx
    rw [hentity] at he hi
    refine ⟨i, (hinst he).trans hi, ?_⟩
    exact (hgiven.edited hedited).mono (List.subset_append_left _ _)

/-- A call that does not answer that it removed an entity leaves it in its institution. -/
theorem retained_step (hr : s.hierarchy.Reachable) {id : EntityId}
    (he : s.hierarchy.tree.entity id = some e)
    (hkept : ∀ r, (s.step c).1 = .ok (.removed r) → e ∉ r.entities) :
    (s.step c).2.hierarchy.tree.entity id = some e ∧
      (s.step c).2.hierarchy.tree.institution? id = s.hierarchy.tree.institution? id := by
  rcases s.step_cases c with ⟨hsame, -⟩ | ⟨d, o, h', -, hdone, hstep⟩
  · rw [hsame]
    exact ⟨he, rfl⟩
  · rw [hstep] at hkept ⊢
    rcases hr.consistent.retained_or_removed hdone he with hretained | ⟨hmem, -⟩
    · exact hretained
    · obtain ⟨r, hreply, hmem⟩ := Change.exists_removed hmem
      exact absurd hmem (hkept r (by rw [hreply]))

/-! ## Runs -/

/-- What is stored after a run was given in it, if what was stored before had been given. -/
theorem vouches_run (hr : s.hierarchy.Reachable) (hv : log.Vouches s.hierarchy)
    (calls : List Call) :
    Log.Vouches (log ++ calls.zip (s.run calls).1) (s.run calls).2.hierarchy := by
  induction calls generalizing s log with
  | nil => exact hv.mono (List.subset_append_left _ _)
  | cons c cs ih =>
    have hrest := ih (reachable_step hr c) (vouches_step hr hv c)
    rwa [List.append_assoc] at hrest

/-- What no call of a run removes is there after it, in the same institution. -/
theorem retained_run (hr : s.hierarchy.Reachable) {id : EntityId}
    (he : s.hierarchy.tree.entity id = some e) {calls : List Call}
    (hkept : ∀ r, .ok (.removed r) ∈ (s.run calls).1 → e ∉ r.entities) :
    (s.run calls).2.hierarchy.tree.entity id = some e ∧
      (s.run calls).2.hierarchy.tree.institution? id = s.hierarchy.tree.institution? id := by
  induction calls generalizing s with
  | nil => exact ⟨he, rfl⟩
  | cons c cs ih =>
    have hfst : ∀ r, (s.step c).1 = .ok (.removed r) → e ∉ r.entities := by
      intro r heq
      apply hkept r
      rw [run, heq]
      exact List.mem_cons_self ..
    obtain ⟨hentity, hinst⟩ := retained_step hr he hfst
    have hrest := ih (reachable_step hr c) hentity
      fun r hmem => hkept r (List.mem_cons_of_mem _ hmem)
    rwa [hinst] at hrest

/-- After every run of a service that started on the empty hierarchy, each membership is one that an
earlier call gave to a teacher of the institution in which its entity stands now. From any moment of
the run on, an entity keeps its kind and its institution until a call answers that it removed it. -/
theorem memberships_given_to_teachers (settings : Settings) (sink : Sink) (calls : List Call) :
    let now := (start ∅ settings sink).run calls
    (∀ m ∈ now.2.hierarchy.memberships, ∃ i,
      now.2.hierarchy.tree.institution? m.entity.id = some i ∧
        Log.Gives (calls.zip now.1) m i.id) ∧
    ∀ id e, now.2.hierarchy.tree.entity id = some e → ∀ later : List Call,
      (∀ r, .ok (.removed r) ∈ (now.2.run later).1 → e ∉ r.entities) →
        (now.2.run later).2.hierarchy.tree.entity id = some e ∧
          (now.2.run later).2.hierarchy.tree.institution? id =
            now.2.hierarchy.tree.institution? id := by
  intro now
  have hr : (start ∅ settings sink).hierarchy.Reachable := .empty
  have hv : Log.Vouches [] (start ∅ settings sink).hierarchy := Log.vouches_empty
  constructor
  · exact vouches_run hr hv calls
  · intro id e he later hkept
    exact retained_run (reachable_run hr calls) he hkept

/-- An issuer on which a teacher has a membership moves to another faculty, and the one that it has
left is deleted; a student gets no membership. -/
theorem memberships_given_to_teachers_of_move :
    let admin : User := .teacher (.ofNat 7) (.ofNat 1)
    let calls : List Call := [.createInstitution (.ofNat 1),
      .addAdministrator (.ofNat 1) admin (.ofNat 10), .create admin .faculty (.ofNat 1) (.ofNat 2),
      .create admin .faculty (.ofNat 1) (.ofNat 3), .create admin .issuer (.ofNat 2) (.ofNat 4),
      .grant admin (.teacher (.ofNat 8) (.ofNat 1)) (.ofNat 4) (.single .read) (.ofNat 11),
      .grant admin (.student (.ofNat 9)) (.ofNat 4) (.single .read) (.ofNat 12)]
    let later : List Call := [.move admin (.ofNat 4) (.ofNat 3),
      .regrant admin .issuer (.ofNat 11) (.single .update), .delete admin (.ofNat 2)]
    let given : Membership :=
      ⟨.ofNat 11, .ofNat 8, ⟨.issuer, .ofNat 4⟩, .single .read, some (.ofNat 7)⟩
    let now := (start ∅ {} .discard).run calls
    (now.1.map (·.isOk) = [true, true, true, true, true, true, false] ∧
        (now.2.run later).1.all (·.isOk)) ∧
      (∃ i, now.2.hierarchy.tree.institution? given.entity.id = some i ∧
        Log.Gives (calls.zip now.1) given i.id) ∧
      (now.2.run later).2.hierarchy.tree.entity (.ofNat 4) = some given.entity ∧
      (now.2.run later).2.hierarchy.tree.institution? (.ofNat 4) =
        now.2.hierarchy.tree.institution? (.ofNat 4) := by
  intro admin calls later given now
  have hnow : now = (start ∅ {} .discard).run calls := rfl
  obtain ⟨hgiven, hretained⟩ := memberships_given_to_teachers {} .discard calls
  rw [← hnow] at hgiven hretained
  have hstored : given ∈ now.2.hierarchy.memberships := by decide +kernel
  have hentity : now.2.hierarchy.tree.entity (.ofNat 4) = some given.entity := by
    decide +kernel
  -- the only removal is that of the faculty
  have hreplies : (now.2.run later).1 = [.ok (.entity given.entity),
      .ok (.membership { given with permissions := .single .update }),
      .ok (.removed ⟨[⟨.faculty, .ofNat 2⟩], []⟩)] := by
    decide +kernel
  have hkept : ∀ r, .ok (.removed r) ∈ (now.2.run later).1 → given.entity ∉ r.entities := by
    intro r hr
    rw [hreplies] at hr
    simp only [List.mem_cons, Except.ok.injEq, reduceCtorEq, Reply.removed.injEq, List.not_mem_nil,
      false_or, or_false] at hr
    rw [hr]
    decide
  exact ⟨by decide +kernel, hgiven _ hstored, hretained _ _ hentity later hkept⟩

end Service

end StaffRights
