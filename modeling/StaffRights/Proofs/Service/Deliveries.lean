import StaffRights.Proofs.Hierarchy.Invalidations
import StaffRights.Proofs.Service.Requests

/-!
# Deliveries

A service delivers the events of the changes that are carried out, in the order of its calls, and
nothing else. `Emits` says which these are, without the service, its cache or its sink: along the
hierarchies that the changes leave. Whoever takes what a recording sink has kept, however often,
takes exactly that.

Reference: `SPEC_FULL.md` 10.8 and 10.9 (events after commit).
-/

namespace StaffRights

variable {α : Type} {h h' k : Hierarchy} {c : Call} {cs : List Call} {is is' : List Invalidation}

namespace Call

/-- A read asks for no change. -/
theorem IsRead.not_asks {d : Change} (hread : c.IsRead) : ¬ c.Asks h d := by
  rintro (_ | _ | _ | _ | _ | _ | _ | _ | _ | _) <;> exact hread

/-- A call asks for one change. -/
theorem Asks.unique {d d' : Change} (hd : c.Asks h d) (hd' : c.Asks h d') : d = d' := by
  cases hd with
  | addAdministrator he =>
    cases hd' with
    | addAdministrator he' =>
      rw [he, Option.some.injEq] at he'
      rw [he']
  | grant _ _ he =>
    cases hd' with
    | grant _ _ he' =>
      rw [he, Option.some.injEq] at he'
      rw [he']
  | createInstitution | create | save | move | delete | setAwarded | regrant | revoke =>
    cases hd'
    rfl

end Call

/-- The events of the changes that the calls ask for, one after the other, and the hierarchy that is
left. A change that is turned down has none, and neither has a call that passes its guards for no
change. -/
inductive Hierarchy.Emits : Hierarchy → List Call → List Invalidation → Hierarchy → Prop
  | nil {h : Hierarchy} : Emits h [] [] h
  | carried {h k : Hierarchy} {c : Call} {d : Change} {o : Outcome d.Value} {cs : List Call}
      {is : List Invalidation} (hasks : c.Asks h d) (ho : (h.attempt d).answer = .ok o)
      (hrest : (h.change d).Emits cs is k) : Emits h (c :: cs) (o.events ++ is) k
  | nothing {h k : Hierarchy} {c : Call} {cs : List Call} {is : List Invalidation}
      (hnone : ∀ d o, c.Asks h d → (h.attempt d).answer ≠ .ok o)
      (hrest : h.Emits cs is k) : Emits h (c :: cs) is k

/-- The calls determine what is emitted. -/
theorem Hierarchy.Emits.unique (he : h.Emits cs is k) (he' : h.Emits cs is' h') :
    is = is' ∧ k = h' := by
  -- a call asks for one change only, which is carried out or is not
  induction he generalizing is' h' with
  | nil =>
    cases he'
    exact ⟨rfl, rfl⟩
  | carried hasks ho _ ih =>
    cases he' with
    | carried hasks' ho' hrest =>
      obtain rfl := hasks.unique hasks'
      rw [ho] at ho'
      cases ho'
      obtain ⟨rfl, rfl⟩ := ih hrest
      exact ⟨rfl, rfl⟩
    | nothing hnone => exact absurd ho (hnone _ _ hasks)
  | nothing hnone _ ih =>
    cases he' with
    | carried hasks ho => exact absurd ho (hnone _ _ hasks)
    | nothing _ hrest => exact ih hrest

/-- What is done with a service that records its events: calls are made, and now and then the events
are taken. -/
inductive Turn where
  | call (c : Call)
  | drain
  deriving DecidableEq, Repr

/-- The calls among the turns. -/
def Turn.calls : List Turn → List Call
  | [] => []
  | .call c :: turns => c :: calls turns
  | .drain :: turns => calls turns

namespace Service

variable {s : Service}

/-! ## One call -/

/-- On the hierarchy of the service, the transaction is the change that the call asks for. -/
theorem step_of_attempt {f : α → Reply} {attempt attempt' : Hierarchy → Attempt α}
    (hstep : s.step c = reply f (s.transact attempt))
    (hsame : attempt s.hierarchy = attempt' s.hierarchy) :
    s.step c = reply f (s.transact attempt') := by
  rw [hstep, transact, transact, hsame]

/-- A call that passes its guards attempts the change it asks for. -/
theorem step_of_asks {d : Change} (hasks : c.Asks s.hierarchy d) :
    s.step c = reply d.reply (s.transact (·.attempt d)) := by
  cases hasks with
  | createInstitution => exact step_of_attempt rfl rfl
  | addAdministrator he hkind hreceive =>
    refine step_of_attempt rfl ?_
    simp only [he, Option.filter_some, hkind, hreceive]
    rfl
  | create hparent => exact step_of_attempt rfl (by rw [hparent]; rfl)
  | save he => exact step_of_attempt rfl (by rw [he]; rfl)
  | move he hparent => exact step_of_attempt rfl (by rw [he, hparent]; rfl)
  | delete he => exact step_of_attempt rfl (by rw [he]; rfl)
  | setAwarded => exact step_of_attempt rfl rfl
  | grant hgrant hreceive he => exact step_of_attempt rfl (by rw [hgrant, hreceive, he]; rfl)
  | regrant he hgrant =>
    refine step_of_attempt rfl ?_
    simp only [he, Attempt.guarded, hgrant]
    rfl
  | revoke he hx =>
    refine step_of_attempt rfl ?_
    simp only [he, Attempt.guarded, hx]
    rfl

/-- A call either carries out the change that it asks for, and delivers its events, or asks for none
that can be carried out, and delivers nothing. -/
theorem step_outcome (s : Service) (c : Call) :
    (∃ d o, c.Asks s.hierarchy d ∧ (s.hierarchy.attempt d).answer = .ok o ∧
        s.step c = (.ok (d.reply o.value),
          ⟨s.hierarchy.change d, s.cache.forget o.stale, s.sink.publishAll o.events⟩)) ∨
      (∀ d o, c.Asks s.hierarchy d → (s.hierarchy.attempt d).answer ≠ .ok o) ∧ s.Idles c := by
  by_cases hasks : ∃ d, c.Asks s.hierarchy d
  · obtain ⟨d, hasks⟩ := hasks
    have hstep := step_of_asks hasks
    rcases Hierarchy.attempt_meets d with ⟨r, hr⟩ | ⟨o, after, ho, -⟩
    · have hrefused : s.step c = (.error r, s) := by
        rw [hstep, transact, hr]
        rfl
      refine .inr ⟨fun d' o hd' hok => ?_, .of_refused hrefused⟩
      obtain rfl := hasks.unique hd'
      rw [hr] at hok
      cases hok
    · have hafter : s.hierarchy.change d = after := by rw [← Hierarchy.after_attempt, ho]
      refine .inl ⟨d, o, hasks, by rw [ho], ?_⟩
      rw [hstep, transact, ho, hafter]
      rfl
  · refine .inr ⟨fun d o hd => absurd ⟨d, hd⟩ hasks, ?_⟩
    rcases s.step_cases c with hidle | ⟨d, o, h', hd, -⟩
    · exact hidle
    · exact absurd ⟨d, hd⟩ hasks

/-- A call that is turned down, or that only reads, delivers nothing. -/
theorem sink_of_read_or_error (hc : c.IsRead ∨ ∃ r, (s.step c).1 = .error r) :
    (s.step c).2.sink = s.sink := by
  rcases s.step_outcome c with ⟨d, o, hasks, -, hstep⟩ | ⟨-, hidle⟩
  · rcases hc with hread | ⟨r, hr⟩
    · exact absurd hasks hread.not_asks
    · rw [hstep] at hr
      cases hr
  · exact hidle.sink

/-- Any other call has carried out the change that it asked for. -/
theorem carried_of_ok {r : Reply} (hread : ¬ c.IsRead) (hok : (s.step c).1 = .ok r) :
    ∃ d o, c.Asks s.hierarchy d ∧ (s.hierarchy.attempt d).answer = .ok o ∧ r = d.reply o.value := by
  rcases s.step_outcome c with ⟨d, o, hasks, ho, hstep⟩ | ⟨-, hidle⟩
  · rw [hstep] at hok
    cases hok
    exact ⟨d, o, hasks, ho, rfl⟩
  · rcases hidle.cause with hread' | ⟨r, hr⟩
    · exact absurd hread' hread
    · rw [hr] at hok
      cases hok

/-! ## Runs -/

/-- Takes one turn after the other, and collects the events that are taken. -/
def watch (s : Service) : List Turn → List Invalidation × Service
  | [] => ([], s)
  | .call c :: turns => (s.step c).2.watch turns
  | .drain :: turns =>
    let s' := { s with sink := s.sink.take.2 }
    (s.sink.take.1 ++ (s'.watch turns).1, (s'.watch turns).2)

/-- A recording sink keeps what it has and takes what is published. -/
theorem publishAll_record (kept is : List Invalidation) :
    (Sink.record kept).publishAll is = .record (kept ++ is) := by
  induction is generalizing kept with
  | nil => rw [List.append_nil]; rfl
  | cons i is ih =>
    have hstep := ih (kept ++ [i])
    rw [List.append_assoc] at hstep
    exact hstep

/-- The events that are taken and those that are left are the ones that were there and the ones that
the calls emit, in their order. -/
theorem watch_emits (turns : List Turn) {kept : List Invalidation} (hs : s.sink = .record kept) :
    ∃ is left, s.hierarchy.Emits (Turn.calls turns) is (s.watch turns).2.hierarchy ∧
      (s.watch turns).2.sink = .record left ∧ (s.watch turns).1 ++ left = kept ++ is := by
  -- by induction on the turns: what is kept at the moment will be taken first
  induction turns generalizing s kept with
  | nil => exact ⟨[], kept, .nil, hs, by simp [watch]⟩
  | cons turn turns ih =>
    cases turn with
    | call c =>
      rcases s.step_outcome c with ⟨d, o, hasks, ho, hstep⟩ | ⟨hnone, hidle⟩
      · have hkept : (s.step c).2.sink = .record (kept ++ o.events) := by
          rw [hstep, hs, publishAll_record]
        obtain ⟨is, left, hemits, hleft, htaken⟩ := ih hkept
        rw [hstep] at hemits
        refine ⟨o.events ++ is, left, .carried hasks ho ?_, hleft, ?_⟩
        · rw [watch, hstep]
          exact hemits
        · rw [← List.append_assoc]
          exact htaken
      · obtain ⟨is, left, hemits, hleft, htaken⟩ := ih (hidle.sink.trans hs)
        rw [hidle.hierarchy] at hemits
        exact ⟨is, left, .nothing hnone hemits, hleft, htaken⟩
    | drain =>
      have hempty : { s with sink := s.sink.take.2 }.sink = .record [] := by rw [hs]; rfl
      obtain ⟨is, left, hemits, hleft, htaken⟩ := ih hempty
      refine ⟨is, left, hemits, hleft, ?_⟩
      have hhead : s.sink.take.1 = kept := by rw [hs]; rfl
      rw [watch, hhead, List.append_assoc, htaken, List.nil_append]

/-- A change that is carried out reports exactly what it altered in what is published; and whoever
takes the events of a recording sink takes those of the changes that were carried out, in the order
of the calls. Calls that are turned down, and calls that only read, deliver nothing; all others have
carried out the change that they asked for. -/
theorem events_exact_in_order :
    (∀ {h : Hierarchy} {c : Change} {o : Outcome c.Value}, h.Reachable →
      (h.attempt c).answer = .ok o → c.Reports h (h.change c) o.events) ∧
    (∀ {s : Service} {kept : List Invalidation} (turns : List Turn), s.sink = .record kept →
      ∃ is left, s.hierarchy.Emits (Turn.calls turns) is (s.watch turns).2.hierarchy ∧
        (∀ is' k, s.hierarchy.Emits (Turn.calls turns) is' k → is' = is) ∧
        (s.watch turns).2.sink = .record left ∧ (s.watch turns).1 ++ left = kept ++ is) ∧
    (∀ {s : Service} {c : Call}, c.IsRead ∨ (∃ r, (s.step c).1 = .error r) →
      (s.step c).2.sink = s.sink) ∧
    ∀ {s : Service} {c : Call} {r : Reply}, ¬ c.IsRead → (s.step c).1 = .ok r →
      ∃ d o, c.Asks s.hierarchy d ∧ (s.hierarchy.attempt d).answer = .ok o ∧
        r = d.reply o.value := by
  refine ⟨fun hr ho => hr.consistent.reports ho, fun turns hs => ?_, sink_of_read_or_error,
    carried_of_ok⟩
  obtain ⟨is, left, hemits, hleft, htaken⟩ := watch_emits turns hs
  exact ⟨is, left, hemits, fun is' k he => (he.unique hemits).1, hleft, htaken⟩

/-- An issuer moves, and a faculty is deleted once; the second deletion and a read publish nothing.
What is drained in between and at the end is what both changes report, in their order. -/
theorem events_exact_in_order_of_move :
    let h := (∅ : Hierarchy).run [.insertEntity ⟨.institution, .ofNat 1⟩ none,
      .insertEntity ⟨.faculty, .ofNat 2⟩ (some (.ofNat 1)),
      .insertEntity ⟨.faculty, .ofNat 3⟩ (some (.ofNat 1)),
      .insertEntity ⟨.issuer, .ofNat 4⟩ (some (.ofNat 2)),
      .insertMembership ⟨.ofNat 5, .ofNat 6, ⟨.institution, .ofNat 1⟩, .full, none⟩]
    let actor : User := .teacher (.ofNat 6) (.ofNat 1)
    let s := start h {} (.record [])
    let turns : List Turn := [.call (.move actor (.ofNat 4) (.ofNat 3)), .drain,
      .call (.delete actor (.ofNat 3)), .call (.delete actor (.ofNat 3)),
      .call (.branch (.ofNat 1) .downward), .drain]
    let moved : List Invalidation := [⟨⟨.faculty, .ofNat 2⟩⟩, ⟨⟨.faculty, .ofNat 3⟩⟩]
    let deleted : List Invalidation := [⟨⟨.institution, .ofNat 1⟩⟩]
    (Change.moveEntity (.ofNat 4) (.ofNat 3)).Reports h (h.moveEntity (.ofNat 4) (.ofNat 3)).after
        moved ∧
      (s.watch turns).1 = moved ++ deleted ∧
      h.Emits (Turn.calls turns) (moved ++ deleted) (s.watch turns).2.hierarchy ∧
      (s.step (.branch (.ofNat 1) .downward)).2.sink = .record [] ∧
      ∃ d, (Call.move actor (.ofNat 4) (.ofNat 3)).Asks h d := by
  intro h actor s turns moved deleted
  have hr : h.Reachable := .run .empty _
  have hok : (h.moveEntity (.ofNat 4) (.ofNat 3)).answer =
      .ok ⟨⟨.issuer, .ofNat 4⟩, moved, .everyone⟩ := by
    decide +kernel
  have htaken : (s.watch turns).1 = moved ++ deleted ∧
      (s.watch turns).2.sink = .record [] := by
    decide +kernel
  have hreply : (s.step (.move actor (.ofNat 4) (.ofNat 3))).1 =
      .ok (.entity ⟨.issuer, .ofNat 4⟩) := by
    decide +kernel
  obtain ⟨hreports, hwatch, hquiet, hcarried⟩ := events_exact_in_order
  have hmoved := hreports (c := .moveEntity (.ofNat 4) (.ofNat 3)) hr hok
  have hread : ¬ (Call.move actor (.ofNat 4) (.ofNat 3)).IsRead := fun hread => hread
  obtain ⟨d, -, hasks, -⟩ := hcarried hread hreply
  refine ⟨hmoved, htaken.1, ?_, hquiet (.inl trivial), d, hasks⟩
  obtain ⟨is, left, hemits, -, hleft, hall⟩ := hwatch turns (s := s) rfl
  rw [htaken.2, Sink.record.injEq] at hleft
  rw [htaken.1, ← hleft, List.append_nil, List.nil_append] at hall
  rw [hall]
  exact hemits

end Service

end StaffRights
