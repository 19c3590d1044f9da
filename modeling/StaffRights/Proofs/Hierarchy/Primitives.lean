import StaffRights.Proofs.Hierarchy.Runs

/-!
# What the operations on links and staff need

The operations on links and staff do their part wherever it applies and skip the rest, without a
word. Here is what each of them needs so as not to skip anything, and what it does then. `whole`
operations are those of a hierarchy but stop where these would skip something, and changes that
never meet such a case are the same over both.
-/

namespace StaffRights

namespace Hierarchy

variable (h : Hierarchy)

/-! ## What an operation needs -/

/-- The id is free, and the parent is there to list the entity. -/
def canAttach (e : Entity) (parent : Option Entity) : Bool :=
  (h.node? e.id).isNone && parent.all fun p => (h.node? p.id).isSome

/-- The entity is there, without children and staff, and listed by its parent. -/
def canDetach (id : EntityId) : Bool :=
  (h.node? id).any fun n => n.children.isEmpty && n.staff.isEmpty &&
    n.parent.all fun p => (h.tree.children p.id).any (·.id == id)

/-- The entity is there and listed by its parent, and the new parent is there to list it. -/
def canRelink (id : EntityId) (parent : Entity) : Bool :=
  (h.tree.parent id).any (fun p => (h.tree.children p.id).any (·.id == id)) &&
    (h.node? parent.id).isSome

/-- The entity is there to take the membership. -/
def canPut (m : Membership) : Bool := (h.node? m.entity.id).isSome

/-- The index leads to an entity with the membership on its staff. -/
def canDrop (mid : MembershipId) : Bool :=
  (h.index[mid]?).any fun id => (h.tree.staff id).any (·.id == mid)

/-! ## What an operation does -/

variable {h} {id : EntityId} {e p : Entity} {q : Option Entity} {m : Membership}
  {mid : MembershipId}

/-- The entity is stored without anything below it and listed last by its parent; nothing else
changes. -/
theorem attach_of_canAttach (hcan : h.canAttach e q) :
    (h.attach e q).node? e.id = some { entity := e, parent := q } ∧
      (∀ p, q = some p → ∃ n, h.node? p.id = some n ∧
        (h.attach e q).node? p.id = some { n with children := n.children ++ [e] }) ∧
      (∀ j, e.id ≠ j → q.map (·.id) ≠ some j → (h.attach e q).node? j = h.node? j) ∧
      (h.attach e q).index = h.index := by
  simp only [canAttach, Bool.and_eq_true, Option.isNone_iff_eq_none, Option.all_eq_true,
    Option.isSome_iff_exists] at hcan
  obtain ⟨hfree, hparent⟩ := hcan
  refine ⟨by simp [node?_attach], ?_, fun j hj hq => by rw [node?_attach, if_neg hj, if_neg hq],
    h.index_attach e q⟩
  rintro p rfl
  obtain ⟨n, hn⟩ := hparent p rfl
  have hne : e.id ≠ p.id := by
    intro hid
    rw [hid, hn] at hfree
    cases hfree
  exact ⟨n, hn, by simp [node?_attach, hne, hn]⟩

/-- The entity is gone and no longer listed by its parent; nothing else changes. -/
theorem detach_of_canDetach (hcan : h.canDetach id) :
    ∃ n, h.node? id = some n ∧ (h.detach id).1 = some n ∧ (h.detach id).2.node? id = none ∧
      (∀ p, n.parent = some p → ∃ x, h.node? p.id = some x ∧
        (h.detach id).2.node? p.id = some { x with children := x.children.filter (·.id ≠ id) }) ∧
      (∀ j, id ≠ j → n.parent.map (·.id) ≠ some j → (h.detach id).2.node? j = h.node? j) ∧
      (h.detach id).2.index = h.index := by
  simp only [canDetach, Option.any_eq_true, Bool.and_eq_true, List.isEmpty_iff,
    Option.all_eq_true] at hcan
  obtain ⟨n, hn, ⟨hchildren, -⟩, hparent⟩ := hcan
  refine ⟨n, hn, by rw [detach_fst, hn], by simp [node?_detach], fun p hp => ?_,
    fun j hj hq => by rw [node?_detach, if_neg hj, hn, Option.bind_some, if_neg hq],
    h.index_detach id⟩
  have hlisted := hparent p hp
  cases hx : h.node? p.id with
  | none => simp [tree_children, hx] at hlisted
  | some x =>
    -- an entity without children is not its own parent
    have hne : id ≠ p.id := by
      rintro rfl
      rw [hn, Option.some.injEq] at hx
      simp [tree_children, hn, hchildren] at hlisted
    exact ⟨x, rfl, by simp [node?_detach, hne, hn, hp, hx]⟩

/-- The entity has the new parent, the old one no longer lists it, and then the new one lists it
last; nothing else changes. -/
theorem relink_of_canRelink (hcan : h.canRelink id p) :
    ∃ n old, h.node? id = some n ∧ n.parent = some old ∧ (h.relink id p).tree.parent id = some p ∧
      (∀ j, (h.relink id p).tree.children j =
        (if old.id = j then (h.tree.children j).filter (·.id ≠ id) else h.tree.children j) ++
          if p.id = j then [n.entity] else []) ∧
      (∀ j, id ≠ j → (h.relink id p).tree.parent j = h.tree.parent j) ∧
      (h.relink id p).tree.entity = h.tree.entity ∧ (h.relink id p).tree.staff = h.tree.staff ∧
      (h.relink id p).tree.awarded = h.tree.awarded ∧ (h.relink id p).index = h.index := by
  simp only [canRelink, Bool.and_eq_true, Option.any_eq_true, Option.isSome_iff_exists] at hcan
  obtain ⟨⟨old, hold, -⟩, x, hx⟩ := hcan
  obtain ⟨n, hn, hparent⟩ : ∃ n, h.node? id = some n ∧ n.parent = some old :=
    Option.bind_eq_some_iff.1 hold
  have he := h.entity_of_node? hn
  refine ⟨n, old, hn, hparent, by rw [h.tree_parent_relink he, if_pos rfl], fun j => ?_,
    fun j hj => by rw [h.tree_parent_relink he, if_neg hj],
    funext fun j => h.tree_entity_relink he, funext fun j => h.tree_staff_relink he,
    funext fun j => h.tree_awarded_relink he, h.index_relink id p⟩
  have hnode := h.node?_relink hn p
  cases hj : h.node? j with
  | none =>
    -- the new parent has a node, so it is another id
    have hne : p.id ≠ j := by
      rintro rfl
      rw [hx] at hj
      cases hj
    simp [tree_children, hnode, hj, hne]
  | some m => simp [tree_children, hnode, hj, hparent]

/-- The membership is what is found where it was put. -/
theorem find?_putStaff (m : Membership) (ms : List Membership) :
    (putStaff m ms).find? (·.id == m.id) = some m := by
  induction ms with
  | nil => simp [putStaff]
  | cons x xs ih =>
    rw [putStaff]
    split
    · simp
    · next hx => rw [List.find?_cons_of_neg (by simpa using hx), ih]

/-- The membership is on the staff of its entity and found under its id; nothing else changes. -/
theorem putMembership_of_canPut (hcan : h.canPut m) :
    ∃ n, h.node? m.entity.id = some n ∧
      (h.putMembership m).node? m.entity.id = some { n with staff := putStaff m n.staff } ∧
      (∀ j, m.entity.id ≠ j → (h.putMembership m).node? j = h.node? j) ∧
      (h.putMembership m).index = h.index.insert m.id m.entity.id ∧
      (h.putMembership m).membership? m.id = some m := by
  obtain ⟨n, hn⟩ := Option.isSome_iff_exists.1 hcan
  have hnode : (h.putMembership m).node? m.entity.id =
      some { n with staff := putStaff m n.staff } := by
    rw [node?_putMembership, if_pos rfl, hn, Option.map_some]
  have hindex := h.index_putMembership m hcan
  refine ⟨n, hn, hnode, fun j hj => by rw [node?_putMembership, if_neg hj], hindex, ?_⟩
  rw [node?] at hnode
  simp [membership?, hindex, hnode, find?_putStaff]

/-- A membership with the id is struck from the staff that the index names, and no longer found;
nothing else changes. -/
theorem dropMembership_of_canDrop (hcan : h.canDrop mid) :
    ∃ m id n, h.index[mid]? = some id ∧ h.node? id = some n ∧ m ∈ n.staff ∧ m.id = mid ∧
      (h.dropMembership mid).1 = some m ∧
      (h.dropMembership mid).2.node? id =
        some { n with staff := n.staff.eraseP (·.id == mid) } ∧
      (∀ j, id ≠ j → (h.dropMembership mid).2.node? j = h.node? j) ∧
      (h.dropMembership mid).2.index = h.index.erase mid ∧
      (h.dropMembership mid).2.membership? mid = none := by
  obtain ⟨id, hid, hstaff⟩ := (Option.any_eq_true ..).1 hcan
  cases hn : h.node? id with
  | none => simp [tree_staff, hn] at hstaff
  | some n =>
    rw [h.staff_of_node? hn] at hstaff
    obtain ⟨m, hm⟩ := Option.isSome_iff_exists.1 (List.find?_isSome.2 (List.any_eq_true.1 hstaff))
    have hfound : h.membership? mid = some m := by
      have hn : h.nodes[id]? = some n := hn
      simp [membership?, hid, hn, hm]
    refine ⟨m, id, n, hid, hn, List.mem_of_find?_eq_some hm, by simpa using List.find?_some hm,
      by rw [dropMembership_fst, hfound], by rw [node?_dropMembership, if_pos hid, hn]; rfl,
      fun j hj => ?_, h.index_dropMembership mid, ?_⟩
    · rw [node?_dropMembership, if_neg fun h => hj (Option.some.inj (hid.symm.trans h))]
    · simp [membership?, index_dropMembership]

end Hierarchy

namespace Primitives

/-- The operations of a hierarchy, stopped where they would skip something. -/
def whole : Primitives Option where
  attach h e parent := if h.canAttach e parent then some (h.attach e parent) else none
  detach h id := if h.canDetach id then some (h.detach id) else none
  relink h id parent := if h.canRelink id parent then some (h.relink id parent) else none
  putMembership h m := if h.canPut m then some (h.putMembership m) else none
  dropMembership h mid := if h.canDrop mid then some (h.dropMembership mid) else none

/-- Attempts a change over the given operations. -/
def attempt {M : Type → Type} [Monad M] (P : Primitives M) (h : Hierarchy) :
    (c : Change) → M (Attempt c.Value)
  | .insertEntity e parent => P.insertEntity h e parent
  | .saveEntity id => pure (h.saveEntity id)
  | .moveEntity id parent => P.moveEntity h id parent
  | .deleteEntity id => P.deleteEntity h id
  | .setAwarded id count => pure (h.setAwarded id count)
  | .insertMembership m => P.insertMembership h m
  | .updateMembership id permissions => P.updateMembership h id permissions
  | .removeMembership id => P.removeMembership h id

/-- Where nothing is to be skipped, the operations do what those of a hierarchy do. -/
structure Agrees {M : Type → Type} [Monad M] (P : Primitives M) : Prop where
  attach : ∀ {h e parent}, h.canAttach e parent → P.attach h e parent = pure (h.attach e parent)
  detach : ∀ {h id}, h.canDetach id → P.detach h id = pure (h.detach id)
  relink : ∀ {h id parent}, h.canRelink id parent → P.relink h id parent = pure (h.relink id parent)
  putMembership : ∀ {h m}, h.canPut m → P.putMembership h m = pure (h.putMembership m)
  dropMembership : ∀ {h mid}, h.canDrop mid → P.dropMembership h mid = pure (h.dropMembership mid)

/-- Plain operations agree in every case. -/
theorem plain_agrees {M : Type → Type} [Monad M] : (plain : Primitives M).Agrees where
  attach _ := rfl
  detach _ := rfl
  relink _ := rfl
  putMembership _ := rfl
  dropMembership _ := rfl

/-- Operations that stop do the same wherever they go on. -/
theorem whole_agrees : whole.Agrees where
  attach hcan := if_pos hcan
  detach hcan := if_pos hcan
  relink hcan := if_pos hcan
  putMembership hcan := if_pos hcan
  dropMembership hcan := if_pos hcan

end Primitives

end StaffRights
