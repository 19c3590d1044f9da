import StaffRights.Document.Staff
import StaffRights.Snapshot.Basic

/-!
# Documents of snapshots

A snapshot is an object of three lists, each of which may be missing. A membership without an id
gets a new one; which one is for the caller to say, for each place in the list.

Reference: `SPEC_FULL.md` 10.13 (`HierarchySnapshot`).
-/

namespace StaffRights

namespace EntityRecord

/-- The document of an entity of a snapshot. -/
def toJson (r : EntityRecord) : Json :=
  .obj [("id", r.id.toJson), ("kind", r.kind.toJson), ("parent", .ofOption Id.toJson r.parent),
    ("awarded_instances", .int r.awarded.toNat)]

/-- The form of an entity of a snapshot. -/
def form : Json.Form EntityRecord :=
  Json.record "EntityRecord" ⟨.ofNat 0, .institution, none, 0⟩
    [.needed "id" Id.decoder fun id r => { r with id },
      .needed "kind" Kind.decoder fun kind r => { r with kind },
      .optional "parent" (.nullable Id.decoder) fun parent r => { r with parent },
      .optional "awarded_instances" .uint32 fun awarded r => { r with awarded }]

/-- Decodes an entity of a snapshot. -/
def decoder : Json.Decoder EntityRecord := form.decoder

end EntityRecord

namespace MembershipRecord

/-- The document of a membership of a snapshot. -/
def toJson (r : MembershipRecord) : Json :=
  .obj [("id", r.id.toJson), ("user_id", r.user.toJson), ("entity_id", r.entity.toJson),
    ("permissions", r.permissions.toJson), ("granted_by", .ofOption Id.toJson r.grantedBy)]

/-- The form of a membership of a snapshot, with the id to be given to one without. -/
def form (fresh : MembershipId) : Json.Form MembershipRecord :=
  Json.record "MembershipRecord" ⟨fresh, .ofNat 0, .ofNat 0, {}, none⟩
    [.optional "id" Id.decoder fun id r => { r with id },
      .needed "user_id" Id.decoder fun user r => { r with user },
      .needed "entity_id" Id.decoder fun entity r => { r with entity },
      .optional "permissions" PermissionRecord.decoder fun permissions r => { r with permissions },
      .optional "granted_by" (.nullable Id.decoder) fun grantedBy r => { r with grantedBy }]

/-- Decodes a membership of a snapshot. -/
def decoder (fresh : MembershipId) : Json.Decoder MembershipRecord := (form fresh).decoder

end MembershipRecord

namespace Snapshot

/-- The document of a snapshot. -/
def toJson (s : Snapshot) : Json :=
  .obj [("users", .arr (s.users.map User.toJson)),
    ("entities", .arr (s.entities.map EntityRecord.toJson)),
    ("memberships", .arr (s.memberships.map MembershipRecord.toJson))]

/-- The form of a snapshot. -/
def form (fresh : Nat → MembershipId) : Json.Form Snapshot :=
  Json.record "HierarchySnapshot" {}
    [.optional "users" (.list fun _ => User.decoder) fun users s => { s with users },
      .optional "entities" (.list fun _ => EntityRecord.decoder) fun entities s =>
        { s with entities },
      .optional "memberships" (.list fun i => MembershipRecord.decoder (fresh i))
        fun memberships s => { s with memberships }]

/-- Decodes a snapshot. -/
def decoder (fresh : Nat → MembershipId) : Json.Decoder Snapshot := (form fresh).decoder

/-! ## Stored snapshots -/

/-- Why a stored snapshot cannot be loaded. -/
inductive LoadError where
  /-- The bytes cannot be had, or are not text. -/
  | unreadable (reason : String)
  | undecodable (error : Json.DecodeError)
  deriving DecidableEq, Repr

/-- The wording of a refusal. -/
def LoadError.message : LoadError → String
  | .unreadable reason => "Failed to read snapshot: " ++ reason
  | .undecodable error => "Malformed snapshot: " ++ error.message

/-- What is wrong with the error a refusal is due to. -/
def LoadError.cause : LoadError → String
  | .unreadable reason => reason
  | .undecodable error => error.message

/-- Loads a snapshot from the bytes of its document. -/
def load (fresh : Nat → MembershipId) (bytes : ByteArray) : Except LoadError Snapshot :=
  match String.fromUTF8? bytes with
  | none => .error (.unreadable "stream did not contain valid UTF-8")
  | some s => (Json.decodeText (decoder fresh) s).mapError .undecodable

end Snapshot

end StaffRights
