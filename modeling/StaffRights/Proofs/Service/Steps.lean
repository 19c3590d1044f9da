import StaffRights.Proofs.Cache
import StaffRights.Service.Call

/-!
# Steps and runs of the service

Every call of the service is one of two kinds. Most calls are transactions, and what they commit is
the effect of one change. The others only read: they leave the hierarchy and the sink as they are,
and if the cache is faithful, their answers depend on nothing but the hierarchy. All that is shown
of runs goes by these two cases.
-/

namespace StaffRights

variable {α : Type} {h : Hierarchy} {s : Service}

namespace Attempt

/-- What an attempt commits is what the change it stands for leaves behind. -/
theorem Meets.of_change {a : Attempt α} (ha : a.Meets h fun o after => h.Effect o.stale after)
    (d : Change) (hd : a.after = h.change d) :
    a.Meets h fun o after => h.Effect o.stale after ∧ ∃ d, after = h.change d := by
  rcases ha with hr | ⟨o, after, rfl, ho⟩
  · exact .inl hr
  · exact .inr ⟨o, after, rfl, ho, d, hd⟩

end Attempt

namespace Service

/-- Carries out calls one after the other, and answers each of them. -/
def run (s : Service) : List Call → List (Except Refusal Reply) × Service
  | [] => ([], s)
  | c :: cs => ((s.step c).1 :: ((s.step c).2.run cs).1, ((s.step c).2.run cs).2)

/-! ## Transactions -/

/-- A transaction is turned down without a trace, or commits all that the attempt did. -/
theorem transact_of_meets {attempt : Hierarchy → Attempt α} {Q : Outcome α → Hierarchy → Prop}
    (hm : (attempt s.hierarchy).Meets s.hierarchy Q) :
    (∃ r, s.transact attempt = (.error r, s)) ∨
      ∃ o after, Q o after ∧ s.transact attempt =
        (.ok o.value, ⟨after, s.cache.forget o.stale, s.sink.publishAll o.events⟩) := by
  rcases hm with ⟨r, hr⟩ | ⟨o, after, ho, hQ⟩
  · exact .inl ⟨r, by rw [transact, hr]; rfl⟩
  · exact .inr ⟨o, after, hQ, by rw [transact, ho]⟩

/-- Transactions on the same hierarchy and sink give the same, whatever the cache. -/
theorem transact_congr {s' : Service} (attempt : Hierarchy → Attempt α)
    (hh : s'.hierarchy = s.hierarchy) (hs : s'.sink = s.sink) :
    (s'.transact attempt).1 = (s.transact attempt).1 ∧
      (s'.transact attempt).2.hierarchy = (s.transact attempt).2.hierarchy ∧
      (s'.transact attempt).2.sink = (s.transact attempt).2.sink := by
  rw [transact, transact, hh]
  obtain ⟨_ | o, after⟩ := attempt s.hierarchy
  · exact ⟨rfl, hh, hs⟩
  · exact ⟨rfl, rfl, by rw [hs]⟩

/-! ## Reading rights -/

/-- Reading rights changes nothing but the cache. With a faithful cache it answers what resolving
them does, and keeps the cache faithful. -/
theorem rights_spec (s : Service) (u : User) (e : EntityId) :
    (s.rights u e).2.hierarchy = s.hierarchy ∧ (s.rights u e).2.sink = s.sink ∧
      (s.cache.Faithful s.hierarchy →
        (s.rights u e).1 = s.hierarchy.tree.rights e u ∧
          (s.rights u e).2.cache.Faithful s.hierarchy) := by
  rw [rights]
  split
  · next p hp => exact ⟨rfl, rfl, fun hf => ⟨hf.eq_rights hp, hf⟩⟩
  · split
    · next he => exact ⟨rfl, rfl, fun hf => ⟨rfl, hf.insert he⟩⟩
    · exact ⟨rfl, rfl, fun hf => ⟨rfl, hf⟩⟩

/-- Asking whether something is permitted changes no hierarchy and publishes nothing; over a
faithful cache the answer is that of the tree, and the cache stays faithful. -/
theorem permits_spec (s : Service) (u : User) (e : EntityId) (required : Permissions) :
    (s.permits u e required).2.hierarchy = s.hierarchy ∧
      (s.permits u e required).2.sink = s.sink ∧
      (s.cache.Faithful s.hierarchy →
        (s.permits u e required).1 = s.hierarchy.tree.permits e u required ∧
          (s.permits u e required).2.cache.Faithful s.hierarchy) := by
  rw [permits, Tree.permits]
  split
  · next he =>
    obtain ⟨hh, hs, hanswer⟩ := s.rights_spec u e
    refine ⟨hh, hs, fun hf => ?_⟩
    obtain ⟨hrights, hfaithful⟩ := hanswer hf
    exact ⟨by rw [he, Bool.true_and, ← hrights], hfaithful⟩
  · next he =>
    exact ⟨rfl, rfl, fun hf => ⟨by simp [he], hf⟩⟩

end Service

/-! ## The two kinds of call -/

namespace Call

/-- The call is a transaction, and what it commits is the effect of one change. -/
def Changes (c : Call) : Prop :=
  ∃ (α : Type) (f : α → Reply) (attempt : Hierarchy → Attempt α),
    (∀ s : Service, s.step c = Service.reply f (s.transact attempt)) ∧
      ∀ h : Hierarchy, h.Consistent →
        (attempt h).Meets h fun o after => h.Effect o.stale after ∧ ∃ d, after = h.change d

/-- The call leaves hierarchy and sink as they are, and behind a faithful cache its answer depends
on the hierarchy alone. -/
def Reads (c : Call) : Prop :=
  ∃ answer : Hierarchy → Except Refusal Reply, ∀ s : Service,
    (s.step c).2.hierarchy = s.hierarchy ∧ (s.step c).2.sink = s.sink ∧
      (s.cache.Faithful s.hierarchy →
        (s.step c).1 = answer s.hierarchy ∧ (s.step c).2.cache.Faithful s.hierarchy)

/-- Behind its guards every transaction makes one change. -/
theorem changes_or_reads (c : Call) : c.Changes ∨ c.Reads := by
  cases c with
  | createInstitution fresh =>
    refine .inl ⟨_, _, _, fun s => rfl, fun h hc => ?_⟩
    exact (hc.insertEntity_effect _ none).of_change (.insertEntity _ none) rfl
  | addAdministrator institution user fresh =>
    refine .inl ⟨_, _, _, fun s => rfl, fun h hc => ?_⟩
    split
    · exact Attempt.meets_refuse
    · refine Attempt.meets_guarded fun _ _ => ?_
      exact (hc.insertMembership_effect _).of_change (.insertMembership _) rfl
  | create actor kind parent fresh =>
    refine .inl ⟨_, _, _, fun s => rfl, fun h hc => Attempt.meets_guarded fun _ _ => ?_⟩
    exact (hc.insertEntity_effect _ (some parent)).of_change (.insertEntity _ (some parent)) rfl
  | save actor id =>
    refine .inl ⟨_, _, _, fun s => rfl, fun h hc => Attempt.meets_guarded fun _ _ => ?_⟩
    exact (h.saveEntity_effect id).of_change (.saveEntity id) rfl
  | move actor id parent =>
    refine .inl ⟨_, _, _, fun s => rfl, fun h hc =>
      Attempt.meets_guarded fun _ _ => Attempt.meets_guarded fun _ _ => ?_⟩
    exact (hc.moveEntity_effect id parent).of_change (.moveEntity id parent) rfl
  | delete actor id =>
    refine .inl ⟨_, _, _, fun s => rfl, fun h hc => Attempt.meets_guarded fun _ _ => ?_⟩
    exact (hc.deleteEntity_effect id).of_change (.deleteEntity id) rfl
  | setAwarded id count =>
    refine .inl ⟨_, _, _, fun s => rfl, fun h hc => ?_⟩
    exact (h.setAwarded_effect id count).of_change (.setAwarded id count) rfl
  | grant actor recipient entity permissions fresh =>
    refine .inl ⟨_, _, _, fun s => rfl, fun h hc =>
      Attempt.meets_guarded fun _ _ => Attempt.meets_guarded fun _ _ => ?_⟩
    split
    · exact Attempt.meets_refuse
    · exact (hc.insertMembership_effect _).of_change (.insertMembership _) rfl
  | regrant actor kind id permissions =>
    refine .inl ⟨_, _, _, fun s => rfl, fun h hc =>
      Attempt.meets_guarded fun _ _ => Attempt.meets_guarded fun _ _ => ?_⟩
    exact (hc.updateMembership_effect id permissions).of_change
      (.updateMembership id permissions) rfl
  | revoke actor kind id =>
    refine .inl ⟨_, _, _, fun s => rfl, fun h hc =>
      Attempt.meets_guarded fun _ _ => Attempt.meets_guarded fun _ _ => ?_⟩
    exact (h.removeMembership_effect id).of_change (.removeMembership id) rfl
  -- an answer may come out of the cache, so it is that of the resolver if the cache is faithful
  | rights user entity =>
    refine .inr ⟨fun h => .ok (.permissions (h.tree.rights entity user)), fun s => ?_⟩
    obtain ⟨hh, hs, hanswer⟩ := s.rights_spec user entity
    refine ⟨hh, hs, fun hf => ⟨?_, (hanswer hf).2⟩⟩
    simp only [Service.step, (hanswer hf).1]
  | permits user entity required =>
    refine .inr ⟨fun h => .ok (.answer (h.tree.permits entity user required)), fun s => ?_⟩
    obtain ⟨hh, hs, hanswer⟩ := s.permits_spec user entity required
    refine ⟨hh, hs, fun hf => ⟨?_, (hanswer hf).2⟩⟩
    simp only [Service.step, (hanswer hf).1]
  | branch entity reach =>
    exact .inr ⟨fun h => .ok (.entities (h.tree.branch entity reach)),
      fun s => ⟨rfl, rfl, fun hf => ⟨rfl, hf⟩⟩⟩
  | administrable user =>
    exact .inr ⟨fun h => .ok (.entities (h.tree.administrable user)),
      fun s => ⟨rfl, rfl, fun hf => ⟨rfl, hf⟩⟩⟩
  | membershipsOf user =>
    exact .inr ⟨fun h => .ok (.memberships (h.tree.heldBy user)),
      fun s => ⟨rfl, rfl, fun hf => ⟨rfl, hf⟩⟩⟩
  | staffOf actor entity =>
    exact .inr ⟨fun h => ((h.tree.require actor entity (.single .administrateUsers)).map
      fun _ => h.tree.staff entity).map .memberships, fun s => ⟨rfl, rfl, fun hf => ⟨rfl, hf⟩⟩⟩

end Call

end StaffRights
