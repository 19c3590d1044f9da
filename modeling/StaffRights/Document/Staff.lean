import StaffRights.Document.Entity
import StaffRights.Document.Permissions
import StaffRights.Staff

/-!
# Documents of users and memberships

A user is an object of an identity, a home institution and a role; a membership is an object in
which the permissions stand as a record.

Reference: `SPEC_FULL.md` 10.3 (`StaffMembership`) and 10.13 (snapshots).
-/

namespace StaffRights

/-- The document of a value that may be missing. -/
def Json.ofOption {α : Type} (toJson : α → Json) : Option α → Json
  | some a => toJson a
  | none => .null

namespace User

/-- The document of a user. -/
def toJson (u : User) : Json :=
  .obj [("id", u.id.toJson), ("institution_id", .ofOption Id.toJson u.institution),
    ("is_teacher", .bool u.isTeacher)]

/-- The form of a user. -/
def form : Json.Form User :=
  Json.record "User" (student (.ofNat 0))
    [.needed "id" Id.decoder fun id u => { u with id },
      .optional "institution_id" (.nullable Id.decoder) fun institution u => { u with institution },
      .optional "is_teacher" .bool fun isTeacher u => { u with isTeacher }]

/-- Decodes a user. -/
def decoder : Json.Decoder User := form.decoder

end User

/-- The document of a membership, less the time at which it was granted. -/
def Membership.toJson (m : Membership) : Json :=
  .obj [("id", m.id.toJson), ("user_id", m.user.toJson), ("entity", m.entity.toJson),
    ("permissions", m.permissions.record.toJson),
    ("granted_by", .ofOption Id.toJson m.grantedBy)]

end StaffRights
