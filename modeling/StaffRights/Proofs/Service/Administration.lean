import StaffRights.Proofs.Hierarchy.Gains
import StaffRights.Service.Basic

/-!
# Who administrates what

The entities listed for a user are found by walking down from the memberships that administrate
users; the guard of a grant resolves rights upward from the target. Both agree on every reachable
hierarchy: the guard reports a target as missing exactly if it is not listed. A home grants reading
alone, so neither depends on the home of the user.

Reference: `SPEC_FULL.md` 4.2 (administrable branches).
-/

namespace StaffRights

namespace Tree

variable (t : Tree) {u : User} {id : EntityId} {required requested : Permissions} {e : Entity}

/-- No home grants the administration of users. -/
theorem homeRights_administrateUsers :
    (t.homeRights id u).holds .administrateUsers = false := by
  rw [homeRights]
  split
  · split
    · decide
    · exact Permissions.holds_empty _
  · exact Permissions.holds_empty _

/-- A requirement is met on a known entity where the user holds all of it. -/
theorem require_eq_ok_iff :
    t.require u id required = .ok e ↔
      t.entity id = some e ∧ (t.rights id u).has required := by
  rw [require]
  split
  · next hid => simp [hid]
  · next x hx =>
    split
    · next hrights => simp [hx, hrights]
    · next hrights => simp [hrights]

/-- The only refusal of this guard is that the target is missing. -/
theorem require_eq_notFound_iff :
    t.require u id required = .error .notFound ↔ ∀ e, t.require u id required ≠ .ok e := by
  rw [require]
  split
  · simp
  · split <;> simp

/-- A grant is told that its target is missing if the actor may not administrate its users, and for
no other reason. -/
theorem mayGrant_eq_notFound_iff :
    t.mayGrant u id requested = .error .notFound ↔
      t.require u id (.single .administrateUsers) = .error .notFound := by
  rw [mayGrant]
  cases t.require u id (.single .administrateUsers) with
  | error r => simp [bind, Except.bind]
  | ok e =>
    simp only [bind, Except.bind]
    split <;> simp

/-- Nothing is missing from the rights of an actor who grants nothing. -/
theorem mayGrant_empty_eq_ok_iff :
    t.mayGrant u id ∅ = .ok () ↔
      ∃ e, t.require u id (.single .administrateUsers) = .ok e := by
  have hnone : ∅ ∩ (t.rights id u).complement = ∅ :=
    congrArg Permissions.mk (BitVec.zero_and ..)
  rw [mayGrant]
  cases t.require u id (.single .administrateUsers) with
  | error r => simp [bind, Except.bind]
  | ok e => simp [bind, Except.bind, hnone]

end Tree

namespace Hierarchy

variable {h : Hierarchy} {e : Entity} {id : EntityId} {u : User} {v : UserId}

namespace Consistent

variable (hc : h.Consistent) (hapart : h.tree.Apart)

include hc

/-- Listed is every entity at or below one on which the user has a membership that administrates
users. -/
theorem mem_administrable_iff_membership :
    e ∈ h.tree.administrable v ↔ h.tree.entity e.id = some e ∧
      ∃ a, h.tree.AtOrAbove a e.id ∧
        ∃ m ∈ h.tree.staff a, m.user = v ∧ m.permissions.holds .administrateUsers := by
  have hheld : ∀ m, m ∈ h.tree.heldBy v ↔ (∃ a, m ∈ h.tree.staff a) ∧ m.user = v := by
    intro m
    change m ∈ h.memberships.filter (·.user == v) ↔ _
    rw [List.mem_filter, mem_memberships_iff, beq_iff_eq]
  simp only [Tree.administrable, List.mem_eraseDups, List.mem_flatMap, List.mem_filter, hheld,
    hc.linked.mem_branch_downward_iff, Permissions.has_single]
  constructor
  · rintro ⟨m, ⟨⟨⟨a, hm⟩, huser⟩, hf⟩, he, habove⟩
    rw [hc.id_of_mem_staff hm] at habove
    exact ⟨he, a, habove, m, hm, huser, hf⟩
  · rintro ⟨he, a, habove, m, hm, huser, hf⟩
    rw [← hc.id_of_mem_staff hm] at habove
    exact ⟨m, ⟨⟨⟨a, hm⟩, huser⟩, hf⟩, he, habove⟩

include hapart

/-- Listed is every entity on which the user may administrate users. -/
theorem mem_administrable_iff :
    e ∈ h.tree.administrable u.id ↔
      h.tree.entity e.id = some e ∧ (h.tree.rights e.id u).has (.single .administrateUsers) := by
  rw [hc.mem_administrable_iff_membership, Permissions.has_single, hc.linked.holds_rights_iff]
  simp only [hapart.holds_localRights_iff, Tree.homeRights_administrateUsers, Bool.false_eq_true,
    or_false]

/-- An id is reported as missing exactly if no listed entity has it. -/
theorem require_administrateUsers_eq_notFound_iff :
    h.tree.require u id (.single .administrateUsers) = .error .notFound ↔
      ∀ e ∈ h.tree.administrable u.id, e.id ≠ id := by
  rw [Tree.require_eq_notFound_iff]
  simp only [ne_eq, Tree.require_eq_ok_iff, hc.mem_administrable_iff hapart]
  constructor
  · rintro hnone e ⟨he, hrights⟩ rfl
    exact hnone e ⟨he, hrights⟩
  · rintro hnone e ⟨he, hrights⟩
    obtain rfl := hc.linked.entity_id he
    exact hnone e ⟨he, hrights⟩ rfl

end Consistent

/-- In a reachable hierarchy the entities listed for a user are those on which the user holds the
administration of users, and those on which the guard lets the user grant the empty set. Whatever is
to be granted, the guard reports an id as missing exactly if it is none of them, and so does the
service when it is asked for the staff. The home of the user makes no difference to any of this. -/
theorem Reachable.administrable_iff_guard (hr : h.Reachable) (user : UserId)
    (institution : Option EntityId) (isTeacher : Bool) :
    let actor : User := ⟨user, institution, isTeacher⟩
    (∀ e, (e ∈ h.tree.administrable user ↔ h.tree.entity e.id = some e ∧
        (h.tree.rights e.id actor).has (.single .administrateUsers)) ∧
      (e ∈ h.tree.administrable user ↔ h.tree.entity e.id = some e ∧
        h.tree.mayGrant actor e.id ∅ = .ok ())) ∧
    ∀ id,
      (∀ requested, h.tree.mayGrant actor id requested = .error .notFound ↔
        ∀ e ∈ h.tree.administrable user, e.id ≠ id) ∧
      ∀ s : Service, s.hierarchy = h →
        (s.staffOf actor id = .error .notFound ↔ ∀ e ∈ h.tree.administrable user, e.id ≠ id) := by
  intro actor
  obtain ⟨hc, hapart⟩ := hr.consistent_and_apart
  refine ⟨fun e => ⟨hc.mem_administrable_iff (u := actor) hapart, ?_⟩,
    fun id => ⟨fun requested => ?_, ?_⟩⟩
  · rw [hc.mem_administrable_iff (u := actor) hapart, Tree.mayGrant_empty_eq_ok_iff]
    simp only [Tree.require_eq_ok_iff, exists_and_right, ← and_assoc]
    refine and_congr_left fun _ => ⟨fun he => ⟨he, e, he⟩, fun he => he.1⟩
  · rw [Tree.mayGrant_eq_notFound_iff]
    exact hc.require_administrateUsers_eq_notFound_iff (u := actor) hapart
  · rintro s rfl
    rw [← hc.require_administrateUsers_eq_notFound_iff (u := actor) hapart, Service.staffOf]
    cases s.hierarchy.tree.require actor id (.single .administrateUsers) <;> simp [Except.map]

/-- A user with a membership on an institution is listed its faculty, and nothing of another. -/
theorem Reachable.administrable_iff_guard_of_two_institutions :
    let h := (∅ : Hierarchy).run [.insertEntity ⟨.institution, .ofNat 1⟩ none,
      .insertEntity ⟨.faculty, .ofNat 2⟩ (some (.ofNat 1)),
      .insertEntity ⟨.institution, .ofNat 3⟩ none,
      .insertMembership ⟨.ofNat 5, .ofNat 7, ⟨.institution, .ofNat 1⟩, .full, none⟩]
    let actor : User := .student (.ofNat 7)
    ⟨.faculty, .ofNat 2⟩ ∈ h.tree.administrable actor.id ∧
      h.tree.mayGrant actor (.ofNat 2) ∅ = .ok () ∧
      ∀ requested, h.tree.mayGrant actor (.ofNat 3) requested = .error .notFound := by
  intro h actor
  have hagree := Reachable.administrable_iff_guard (h := h) (.run .empty _) (.ofNat 7) none false
  have hlisted : ⟨.faculty, .ofNat 2⟩ ∈ h.tree.administrable actor.id := by decide +kernel
  have hnone : ∀ e ∈ h.tree.administrable actor.id, e.id ≠ .ofNat 3 := by decide +kernel
  exact ⟨hlisted, ((hagree.1 _).2.1 hlisted).2, fun requested =>
    ((hagree.2 (.ofNat 3)).1 requested).2 hnone⟩

end Hierarchy

end StaffRights
