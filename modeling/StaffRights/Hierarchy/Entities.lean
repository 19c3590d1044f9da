import StaffRights.Hierarchy.Attempt
import StaffRights.Tree.Branch

/-!
# Changes to entities

Entities are inserted, saved, moved and deleted. An entity stands below an entity of the kind just
above its own and never leaves its institution. Deleting takes everything below along, unless
credentials were awarded for any of it.

Reference: `SPEC_FULL.md` 4.4 and 10.7 (`insert_entity`, `move_entity`, `delete_entity`,
`set_awarded_instances`).
-/

namespace StaffRights

/-- What a deletion removed. -/
structure Removed where
  /-- The entities, those below before those above. -/
  entities : List Entity := []
  memberships : List Membership := []
  deriving DecidableEq, Repr

namespace Hierarchy

/-- May an entity of kind `child` stand below `parent`? -/
def checkKind (child : Kind) (parent : Entity) : Except Refusal Unit :=
  if child.above = some parent.kind then .ok () else .error (.wrongParent child parent.kind)

/-- The event that the parent of an entity is out of date, if there is a parent. -/
def invalidateParent (parent : Option Entity) : List Invalidation :=
  (parent.map Invalidation.mk).toList

/-! ## What the changes look at -/

/-- The parent under which a new entity may be inserted: none for an institution without one. -/
def placeFor (h : Hierarchy) (e : Entity) (parent : Option EntityId) :
    Except Refusal (Option Entity) :=
  match h.tree.entity e.id, parent with
  | some _, _ => .error .alreadyExists
  | none, some parentId =>
    match h.tree.entity parentId with
    | none => .error .notFound
    | some p => (checkKind e.kind p).map fun _ => some p
  | none, none =>
    if e.kind.above.isSome then .error (.parentRequired e.kind) else .ok none

/-- Would some user, once the entity is below `parent`, have memberships on two entities of which
one is above the other? -/
def clashesBelow (h : Hierarchy) (id parent : EntityId) : Bool :=
  ((h.tree.branch id .downward).flatMap fun e => h.tree.staff e.id).any fun m =>
    (h.tree.branch parent .upward).any fun e =>
      (h.tree.staff e.id).any (·.user == m.user)

end Hierarchy

/-! ## Changes over given operations -/

namespace Primitives

open Hierarchy (checkKind invalidateParent)

variable {M : Type → Type} [Monad M] (P : Primitives M)

/-- Inserts an entity below a parent, or an institution without one. -/
def insertEntity (h : Hierarchy) (e : Entity) (parent : Option EntityId) : M (Attempt Entity) :=
  match h.placeFor e parent with
  | .error r => return .refuse r h
  | .ok p => return .done e (invalidateParent p) .everyone (← P.attach h e p)

/-- Moves an entity with everything below it under another parent of the same institution. -/
def moveEntity (h : Hierarchy) (id parent : EntityId) : M (Attempt Entity) :=
  match h.tree.entity id, h.tree.entity parent with
  | some e, some p =>
    match checkKind e.kind p with
    | .error r => return .refuse r h
    | .ok () =>
      if h.tree.institution? id ≠ h.tree.institution? p.id then return .refuse .notFound h
      else if h.tree.parent id = some p then return .done e [⟨p⟩] .nobody h
      else if h.clashesBelow id p.id then return .refuse .conflictingMembership h
      else do
        let after ← P.relink h id p
        return .done e (invalidateParent (h.tree.parent id) ++ [⟨p⟩]) .everyone after
  | _, _ => return .refuse .notFound h

/-- Drops the memberships with the given ids, noting those that were there. -/
def dropStaff (ids : List MembershipId) (state : Hierarchy × Removed) : M (Hierarchy × Removed) :=
  ids.foldlM (fun (h, removed) id => do
    match ← P.dropMembership h id with
    | (some m, h) => return (h, { removed with memberships := removed.memberships ++ [m] })
    | (none, h) => return (h, removed)) state

/-- Drops an entity whose children are gone: first its memberships, then the entity itself. -/
def dropEntity (e : Entity) (state : Hierarchy × Removed) : M (Hierarchy × Removed) := do
  let (h, removed) ← P.dropStaff ((state.1.tree.staff e.id).map (·.id)) state
  match ← P.detach h e.id with
  | (some _, h) => return (h, { removed with entities := removed.entities ++ [e] })
  | (none, h) => return (h, removed)

/-- Drops an entity and everything below it, the children first, through at most `n` nested steps.
-/
def dropSubtreeWithin : Nat → Entity → Hierarchy × Removed → OptionT M (Hierarchy × Removed)
  | 0, _, _ => failure
  | n + 1, e, state => do
    let state ← (state.1.tree.children e.id).foldlM (fun s c => dropSubtreeWithin n c s) state
    P.dropEntity e state

/-- Drops an entity and everything below it. -/
def dropSubtree (h : Hierarchy) (e : Entity) : M (Hierarchy × Removed) := do
  let out ← (P.dropSubtreeWithin h.tree.bound e (h, {})).run
  return out.getD (h, {})

/-- Deletes an entity and everything below it, if no credentials were awarded for any of it. -/
def deleteEntity (h : Hierarchy) (id : EntityId) : M (Attempt Removed) :=
  match h.tree.entity id with
  | none => return .refuse .notFound h
  | some e =>
    if (h.tree.branch id .downward).any (fun d => h.tree.awarded d.id) then
      return .refuse (.awarded e.kind) h
    else do
      let (after, removed) ← P.dropSubtree h e
      return .done removed (invalidateParent (h.tree.parent id)) .everyone after

end Primitives

/-! ## Changes to a hierarchy

Saving an entity and setting its count need no operation on links and staff. -/

namespace Hierarchy

/-- Saves an entity again, after a change to what is not stored here. -/
def saveEntity (h : Hierarchy) (id : EntityId) : Attempt Entity :=
  match h.tree.entity id with
  | none => .refuse .notFound h
  | some e => .done e (invalidateParent (h.tree.parent id)) .nobody h

/-- Sets the number of credentials awarded for an entity. -/
def setAwarded (h : Hierarchy) (id : EntityId) (count : UInt32) : Attempt Unit :=
  match h.nodes[id]? with
  | none => .refuse .notFound h
  | some _ => .done () [] .nobody (h.modify id fun n => { n with awarded := count })

@[inherit_doc Primitives.insertEntity]
def insertEntity (h : Hierarchy) (e : Entity) (parent : Option EntityId) : Attempt Entity :=
  Id.run (Primitives.plain.insertEntity h e parent)

@[inherit_doc Primitives.moveEntity]
def moveEntity (h : Hierarchy) (id parent : EntityId) : Attempt Entity :=
  Id.run (Primitives.plain.moveEntity h id parent)

@[inherit_doc Primitives.dropStaff]
def dropStaff (ids : List MembershipId) (state : Hierarchy × Removed) : Hierarchy × Removed :=
  Id.run (Primitives.plain.dropStaff ids state)

@[inherit_doc Primitives.dropEntity]
def dropEntity (e : Entity) (state : Hierarchy × Removed) : Hierarchy × Removed :=
  Id.run (Primitives.plain.dropEntity e state)

@[inherit_doc Primitives.dropSubtreeWithin]
def dropSubtreeWithin (n : Nat) (e : Entity) (state : Hierarchy × Removed) :
    Option (Hierarchy × Removed) :=
  Id.run (Primitives.plain.dropSubtreeWithin n e state).run

@[inherit_doc Primitives.dropSubtree]
def dropSubtree (h : Hierarchy) (e : Entity) : Hierarchy × Removed :=
  Id.run (Primitives.plain.dropSubtree h e)

@[inherit_doc Primitives.deleteEntity]
def deleteEntity (h : Hierarchy) (id : EntityId) : Attempt Removed :=
  Id.run (Primitives.plain.deleteEntity h id)

/-! ## What each change comes to -/

variable (h : Hierarchy)

/-- What passes the check is attached. -/
theorem insertEntity_eq (e : Entity) (parent : Option EntityId) :
    h.insertEntity e parent = .guarded h (h.placeFor e parent) fun p =>
      .done e (invalidateParent p) .everyone (h.attach e p) := by
  unfold insertEntity Primitives.insertEntity
  cases h.placeFor e parent <;> rfl

/-- What passes all checks is relinked, unless it is where it should go. -/
theorem moveEntity_eq (id parent : EntityId) :
    h.moveEntity id parent =
      match h.tree.entity id, h.tree.entity parent with
      | some e, some p =>
        .guarded h (checkKind e.kind p) fun _ =>
          if h.tree.institution? id ≠ h.tree.institution? p.id then .refuse .notFound h
          else if h.tree.parent id = some p then .done e [⟨p⟩] .nobody h
          else if h.clashesBelow id p.id then .refuse .conflictingMembership h
          else
            .done e (invalidateParent (h.tree.parent id) ++ [⟨p⟩]) .everyone (h.relink id p)
      | _, _ => .refuse .notFound h := by
  unfold moveEntity Primitives.moveEntity
  cases h.tree.entity id with
  | none => rfl
  | some e =>
    cases h.tree.entity parent with
    | none => rfl
    | some p => cases hk : checkKind e.kind p <;> simp only [hk] <;> rfl

@[simp] theorem dropStaff_nil (state : Hierarchy × Removed) : dropStaff [] state = state := rfl

/-- One membership is dropped before the others. -/
theorem dropStaff_cons (id : MembershipId) (ids : List MembershipId) (removed : Removed) :
    dropStaff (id :: ids) (h, removed) =
      dropStaff ids (match h.dropMembership id with
        | (some m, h) => (h, { removed with memberships := removed.memberships ++ [m] })
        | (none, h) => (h, removed)) := by
  unfold dropStaff Primitives.dropStaff
  rw [List.foldlM_cons]
  rcases hd : h.dropMembership id with ⟨_ | m, after⟩ <;> simp [Primitives.plain, hd]

/-- The entity is detached after its staff is dropped. -/
theorem dropEntity_eq (e : Entity) (state : Hierarchy × Removed) :
    dropEntity e state =
      match dropStaff ((state.1.tree.staff e.id).map (·.id)) state with
      | (h, removed) =>
        match h.detach e.id with
        | (some _, h) => (h, { removed with entities := removed.entities ++ [e] })
        | (none, h) => (h, removed) := rfl

@[simp] theorem dropSubtreeWithin_zero (e : Entity) (state : Hierarchy × Removed) :
    dropSubtreeWithin 0 e state = none := rfl

/-- Dropping siblings stops at the first that is not reached, in either way. -/
theorem run_foldlM (n : Nat) (cs : List Entity) (s : Hierarchy × Removed) :
    Id.run (cs.foldlM (fun s c => Primitives.plain.dropSubtreeWithin n c s) s).run =
      cs.foldlM (fun s c => dropSubtreeWithin n c s) s := by
  induction cs generalizing s with
  | nil => rfl
  | cons c cs ih =>
    rw [List.foldlM_cons, List.foldlM_cons, OptionT.run_bind]
    change Id.run ((dropSubtreeWithin n c s).elim (pure none) fun s =>
      (cs.foldlM (fun s c => Primitives.plain.dropSubtreeWithin n c s) s).run) = _
    cases dropSubtreeWithin n c s with
    | none => rfl
    | some s => exact ih s

/-- The children are dropped one after the other, and then the entity. -/
theorem dropSubtreeWithin_succ (n : Nat) (e : Entity) (state : Hierarchy × Removed) :
    dropSubtreeWithin (n + 1) e state =
      ((state.1.tree.children e.id).foldlM (fun s c => dropSubtreeWithin n c s) state).map
        (dropEntity e) := by
  rw [← run_foldlM]
  rfl

/-- The nested steps are as many as the tree can need. -/
theorem dropSubtree_eq (e : Entity) :
    h.dropSubtree e = (dropSubtreeWithin h.tree.bound e (h, {})).getD (h, {}) := rfl

/-- What is not protected is dropped. -/
theorem deleteEntity_eq (id : EntityId) :
    h.deleteEntity id =
      match h.tree.entity id with
      | none => .refuse .notFound h
      | some e =>
        if (h.tree.branch id .downward).any (fun d => h.tree.awarded d.id) then
          .refuse (.awarded e.kind) h
        else
          .done (h.dropSubtree e).2 (invalidateParent (h.tree.parent id)) .everyone
            (h.dropSubtree e).1 := rfl

end Hierarchy

end StaffRights
