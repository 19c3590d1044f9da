import StaffRights.Document.Snapshot
import StaffRights.Json.Printer
import StaffRights.Service.Basic
import StaffRights.Snapshot.Replay

/-!
# Inspecting rights

The inspector reports what a user of a snapshot may do: on one entity, or on every entity whose
staff the user may administrate. A `Query` is what is asked for; it is answered with a `Report` or
refused, and either is printed.

Reference: `SPEC_FULL.md` 10.13 (`staff-inspect`).
-/

namespace StaffRights

/-- What the inspector is asked: a user, an entity if only one is of interest, and where the
snapshot is. -/
structure Query where
  user : UserId
  entity : Option EntityId
  path : String
  deriving DecidableEq, Repr

/-- What a user may do on some entities. -/
structure Report where
  user : UserId
  rights : List (EntityId × PermissionRecord)
  deriving DecidableEq, Repr

/-- Why nothing is reported. -/
inductive InspectError where
  | noUser
  | badUser (error : Uuid.ReadError)
  | badEntity (error : Uuid.ReadError)
  | noPath
  | notLoaded (path : String) (error : Snapshot.LoadError)
  | unknownUser (id : UserId)
  | notReplayed (error : ReplayError)
  deriving DecidableEq, Repr

namespace InspectError

/-- What failed. -/
def message : InspectError → String
  | .noUser => "usage: staff-inspect <user-id> [entity-id]"
  | .badUser _ => "invalid user id"
  | .badEntity _ => "invalid entity id"
  | .noPath => "STAFF_SNAPSHOT_PATH is not set"
  | .notLoaded path _ => "loading " ++ path
  | .unknownUser id => "user " ++ id.text ++ " is not in the snapshot"
  | .notReplayed error => error.message

/-- What made it fail, the nearest cause first. -/
def causes : InspectError → List String
  | .badUser error => [error.message]
  | .badEntity error => [error.message]
  | .notLoaded _ error => [error.message, error.cause]
  | .notReplayed error => [error.cause.message]
  | _ => []

/-- Sets the lines of a text below each other, the first behind `first`, the others behind as many
spaces. -/
def hang (first : String) (s : String) : String :=
  let indent := "\n" ++ String.ofList (List.replicate first.length ' ')
  first ++ indent.intercalate ((Text.pieces '\n' s.toList).map String.ofList)

/-- The causes below each other, numbered if there are several. -/
def causeLines : List String → List String
  | [cause] => [hang "    " cause]
  | causes => causes.zipIdx.map fun (cause, n) => hang s!"    {n}: " cause

/-- The error as it is printed. -/
def text (e : InspectError) : String :=
  let lines := match e.causes with
    | [] => ["Error: " ++ e.message]
    | causes => ["Error: " ++ e.message, "", "Caused by:"] ++ causeLines causes
  "\n".intercalate lines ++ "\n"

end InspectError

namespace Report

/-- The document of a report. -/
def toJson (r : Report) : Json :=
  .obj [("user", r.user.toJson),
    ("permissions", .obj (r.rights.map fun (id, record) => (id.text, record.toJson)))]

/-- The report as it is printed: its document in canonical form, over several lines. -/
def text (r : Report) : String := r.toJson.canonical.pretty ++ "\n"

end Report

namespace Service

/-- The rights of a user on several entities. -/
def rightsOn (s : Service) (user : User) : List EntityId → List (EntityId × Permissions)
  | [] => []
  | id :: ids =>
    let (p, s) := s.rights user id
    (id, p) :: s.rightsOn user ids

end Service

namespace Query

/-- Makes a query of the arguments of the command line and the settings. -/
def ofArguments (arguments : List String) (settings : Settings) : Except InspectError Query := do
  match arguments with
  | [] => .error .noUser
  | user :: more =>
    let user ← (Id.parse user).mapError .badUser
    let entity ← match more with
      | [] => .ok none
      | entity :: _ => ((Id.parse entity).map some).mapError .badEntity
    match settings.snapshotPath with
    | none => .error .noPath
    | some path => .ok ⟨user, entity, path⟩

/-- Answers a query about a snapshot. -/
def ask (q : Query) (settings : Settings) (s : Snapshot) : Except InspectError Report := do
  match s.findUser q.user with
  | none => .error (.unknownUser q.user)
  | some user =>
    let h ← s.toHierarchy.mapError .notReplayed
    let service := Service.start h settings .discard
    let ids := match q.entity with
      | some id => [id]
      | none => (service.administrable user.id).map (·.id)
    .ok ⟨user.id, (service.rightsOn user ids).map fun (id, p) => (id, p.record)⟩

/-- Answers a query, given what is found at its path: bytes, or the reason why there are none. -/
def answer (q : Query) (settings : Settings) (fresh : Nat → MembershipId)
    (contents : Except String ByteArray) : Except InspectError Report := do
  let s ← ((contents.mapError .unreadable).bind (Snapshot.load fresh)).mapError (.notLoaded q.path)
  q.ask settings s

end Query

end StaffRights
