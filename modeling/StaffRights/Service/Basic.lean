import StaffRights.Cache
import StaffRights.Delivery
import StaffRights.Hierarchy.Entities
import StaffRights.Hierarchy.Staff
import StaffRights.Settings
import StaffRights.Tree.Guard

/-!
# The staff service

The service holds the committed hierarchy, the cache of resolved rights and the sink of
invalidations. A change runs on the committed hierarchy and takes effect as a whole or not at all:
when it succeeds, its hierarchy is committed, stale rights are forgotten and its events are
delivered; when it is refused, the service stays as it is.

Reference: `SPEC_FULL.md` 5 and 10.8 (`StaffService`).
-/

namespace StaffRights

/-- The state of the service. -/
structure Service where
  hierarchy : Hierarchy
  cache : Cache
  sink : Sink
  deriving DecidableEq

namespace Service

/-- A service with an empty cache. -/
def start (h : Hierarchy) (settings : Settings) (sink : Sink) : Service :=
  ⟨h, { enabled := settings.permissionCache }, sink⟩

/-- A service that delivers to a channel with a subscriber. -/
def startBroadcast (h : Hierarchy) (settings : Settings) : Service :=
  start h settings (.channel (.new (max settings.invalidationBuffer 1)))

variable {α : Type}

/-- Commits a change, or keeps the service as it is. -/
def transact (s : Service) (change : Hierarchy → Attempt α) : Except Refusal α × Service :=
  match change s.hierarchy with
  | ⟨.error r, _⟩ => (.error r, s)
  | ⟨.ok o, h⟩ =>
    (.ok o.value, ⟨h, s.cache.forget o.stale, s.sink.publishAll o.events⟩)

/-! ## Reading -/

/-- The rights of a user on an entity; those on existing entities are remembered. -/
def rights (s : Service) (user : User) (entity : EntityId) : Permissions × Service :=
  match s.cache.get? entity user with
  | some p => (p, s)
  | none =>
    let p := s.hierarchy.tree.rights entity user
    if (s.hierarchy.tree.entity entity).isSome then
      (p, { s with cache := s.cache.insert entity user p })
    else (p, s)

/-- Does the entity exist, and may the user do all that is required on it? -/
def permits (s : Service) (user : User) (entity : EntityId) (required : Permissions) :
    Bool × Service :=
  if (s.hierarchy.tree.entity entity).isSome then
    let (p, s) := s.rights user entity
    (p.has required, s)
  else (false, s)

/-- The branch of an entity. -/
def branch (s : Service) (entity : EntityId) (reach : Reach) : List Entity :=
  s.hierarchy.tree.branch entity reach

/-- The entities whose staff a user may administrate. -/
def administrable (s : Service) (user : UserId) : List Entity :=
  s.hierarchy.tree.administrable user

/-- The memberships of a user. -/
def membershipsOf (s : Service) (user : UserId) : List Membership :=
  s.hierarchy.tree.heldBy user

/-- The staff of an entity, for an actor who may administrate it. -/
def staffOf (s : Service) (actor : User) (entity : EntityId) : Except Refusal (List Membership) :=
  (s.hierarchy.tree.require actor entity (.single .administrateUsers)).map fun _ =>
    s.hierarchy.tree.staff entity

/-! ## Memberships -/

/-- The entity of a membership, if it is of the given kind. -/
def membershipEntity (h : Hierarchy) (kind : Kind) (id : MembershipId) : Except Refusal Entity :=
  match (h.membership? id).map (·.entity) with
  | some e => if e.kind = kind then .ok e else .error .notFound
  | none => .error .notFound

/-- Grants permissions on an entity to a recipient, under a new id. -/
def grant (s : Service) (actor recipient : User) (entity : EntityId) (permissions : Permissions)
    (fresh : MembershipId) : Except Refusal Membership × Service :=
  s.transact fun h =>
    .guarded h (h.tree.mayGrant actor entity permissions) fun _ =>
    .guarded h (h.tree.mayReceive recipient entity) fun _ =>
      match h.tree.entity entity with
      | none => .refuse .notFound h
      | some e => h.insertMembership ⟨fresh, recipient.id, e, permissions, some actor.id⟩

/-- Replaces the permissions of a membership on an entity of the given kind. -/
def regrant (s : Service) (actor : User) (kind : Kind) (id : MembershipId)
    (permissions : Permissions) : Except Refusal Membership × Service :=
  s.transact fun h =>
    .guarded h (membershipEntity h kind id) fun e =>
    .guarded h (h.tree.mayGrant actor e.id permissions) fun _ =>
      h.updateMembership id permissions

/-- Revokes a membership on an entity of the given kind. -/
def revoke (s : Service) (actor : User) (kind : Kind) (id : MembershipId) :
    Except Refusal Membership × Service :=
  s.transact fun h =>
    .guarded h (membershipEntity h kind id) fun e =>
    .guarded h (h.tree.require actor e.id (.single .administrateUsers)) fun _ =>
      h.removeMembership id

/-! ## Entities -/

/-- Founds an institution under a new id; no actor is asked for. -/
def createInstitution (s : Service) (fresh : EntityId) : Except Refusal Entity × Service :=
  s.transact fun h => h.insertEntity ⟨.institution, fresh⟩ none

/-- Gives a teacher of an institution all permissions on it; no actor is asked for. -/
def addAdministrator (s : Service) (institution : EntityId) (user : User) (fresh : MembershipId) :
    Except Refusal Membership × Service :=
  s.transact fun h =>
    match (h.tree.entity institution).filter (·.kind == .institution) with
    | none => .refuse .notFound h
    | some e =>
      .guarded h (h.tree.mayReceive user institution) fun _ =>
        h.insertMembership ⟨fresh, user.id, e, .full, none⟩

/-- Creates an entity below a parent on which the actor may create. -/
def create (s : Service) (actor : User) (kind : Kind) (parent fresh : EntityId) :
    Except Refusal Entity × Service :=
  s.transact fun h =>
    .guarded h (h.tree.require actor parent (.single .create)) fun _ =>
      h.insertEntity ⟨kind, fresh⟩ (some parent)

/-- Saves an entity that the actor may update. -/
def save (s : Service) (actor : User) (id : EntityId) : Except Refusal Entity × Service :=
  s.transact fun h =>
    .guarded h (h.tree.require actor id (.single .update)) fun _ => h.saveEntity id

/-- Moves an entity that the actor may update below one on which the actor may create. -/
def move (s : Service) (actor : User) (id parent : EntityId) : Except Refusal Entity × Service :=
  s.transact fun h =>
    .guarded h (h.tree.require actor id (.single .update)) fun _ =>
    .guarded h (h.tree.require actor parent (.single .create)) fun _ =>
      h.moveEntity id parent

/-- Deletes an entity that the actor may delete, with everything below it. -/
def delete (s : Service) (actor : User) (id : EntityId) : Except Refusal Removed × Service :=
  s.transact fun h =>
    .guarded h (h.tree.require actor id (.single .delete)) fun _ => h.deleteEntity id

/-- Sets the number of credentials awarded for an entity. -/
def setAwarded (s : Service) (id : EntityId) (count : UInt32) : Except Refusal Unit × Service :=
  s.transact fun h => h.setAwarded id count

end Service

end StaffRights
