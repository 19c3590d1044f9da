import StaffRights.Service.Basic

/-!
# Calls of the service

Every call of the service as a value, with one step function over all of them, so that a run of the
service is a list of calls. Calls that make something new carry the id to be given to it.

Reference: `SPEC_FULL.md` 10.8 (operations of `StaffService`).
-/

namespace StaffRights

/-- A call of the service. -/
inductive Call where
  | createInstitution (fresh : EntityId)
  | addAdministrator (institution : EntityId) (user : User) (fresh : MembershipId)
  | create (actor : User) (kind : Kind) (parent fresh : EntityId)
  | save (actor : User) (id : EntityId)
  | move (actor : User) (id parent : EntityId)
  | delete (actor : User) (id : EntityId)
  | setAwarded (id : EntityId) (count : UInt32)
  | grant (actor recipient : User) (entity : EntityId) (permissions : Permissions)
      (fresh : MembershipId)
  | regrant (actor : User) (kind : Kind) (id : MembershipId) (permissions : Permissions)
  | revoke (actor : User) (kind : Kind) (id : MembershipId)
  | rights (user : User) (entity : EntityId)
  | permits (user : User) (entity : EntityId) (required : Permissions)
  | branch (entity : EntityId) (reach : Reach)
  | administrable (user : UserId)
  | membershipsOf (user : UserId)
  | staffOf (actor : User) (entity : EntityId)
  deriving DecidableEq, Repr

/-- What a call that was carried out answers. -/
inductive Reply where
  | done
  | entity (e : Entity)
  | membership (m : Membership)
  | removed (r : Removed)
  | permissions (p : Permissions)
  | answer (b : Bool)
  | entities (es : List Entity)
  | memberships (ms : List Membership)
  deriving DecidableEq, Repr

namespace Service

/-- Puts the value of a transaction into a reply. -/
def reply {α : Type} (f : α → Reply) (r : Except Refusal α × Service) :
    Except Refusal Reply × Service :=
  (r.1.map f, r.2)

/-- Carries out one call. -/
def step (s : Service) : Call → Except Refusal Reply × Service
  | .createInstitution fresh => reply .entity (s.createInstitution fresh)
  | .addAdministrator institution user fresh =>
    reply .membership (s.addAdministrator institution user fresh)
  | .create actor kind parent fresh => reply .entity (s.create actor kind parent fresh)
  | .save actor id => reply .entity (s.save actor id)
  | .move actor id parent => reply .entity (s.move actor id parent)
  | .delete actor id => reply .removed (s.delete actor id)
  | .setAwarded id count => reply (fun _ => .done) (s.setAwarded id count)
  | .grant actor recipient entity permissions fresh =>
    reply .membership (s.grant actor recipient entity permissions fresh)
  | .regrant actor kind id permissions => reply .membership (s.regrant actor kind id permissions)
  | .revoke actor kind id => reply .membership (s.revoke actor kind id)
  | .rights user entity =>
    let (p, s) := s.rights user entity
    (.ok (.permissions p), s)
  | .permits user entity required =>
    let (b, s) := s.permits user entity required
    (.ok (.answer b), s)
  | .branch entity reach => (.ok (.entities (s.branch entity reach)), s)
  | .administrable user => (.ok (.entities (s.administrable user)), s)
  | .membershipsOf user => (.ok (.memberships (s.membershipsOf user)), s)
  | .staffOf actor entity => ((s.staffOf actor entity).map .memberships, s)

end Service

end StaffRights
