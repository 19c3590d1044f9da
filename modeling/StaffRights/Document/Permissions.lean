import StaffRights.Json.Decoding
import StaffRights.Permissions.Record
import StaffRights.Permissions.Text

/-!
# Documents of permissions

A permission record is an object with a zero or a one for each flag; truth values are read as well,
and a missing flag is a no. A set of permissions by itself is a string in the text form.

Reference: `SPEC_FULL.md` 10.2 (`PermissionRecord`).
-/

namespace StaffRights

namespace PermissionRecord

/-- The record with another answer for one flag. -/
def set (r : PermissionRecord) (f : Flag) (answer : Bool) : PermissionRecord :=
  ofFn fun g => if g = f then answer else r.get g

/-- The answer for one flag as a number. -/
def digit (answer : Bool) : Json := .int (if answer then 1 else 0)

/-- The document of a record. -/
def toJson (r : PermissionRecord) : Json :=
  .obj (Flag.all.map fun f => (f.field, digit (r.get f)))

/-- Decodes the answer for one flag, which is read whole before it is looked at. -/
def answer : Json.Decoder Bool := fun site v =>
  match if site.medium = .text then v.readFault site.depth else none with
  | some fault => .error (.malformed fault)
  | none =>
    match v with
    | .bool b => .ok b
    | .int 0 => .ok false
    | .int 1 => .ok true
    | .int n =>
      if n < Nat.pow 2 63 then .error (.refused s!"permission flag must be 0 or 1, got {n}")
      else .error (.refused "data did not match any variant of untagged enum RawFlag")
    | _ => .error (.refused "data did not match any variant of untagged enum RawFlag")

/-- The form of a record. -/
def form : Json.Form PermissionRecord :=
  Json.record "PermissionRecord" {}
    (Flag.all.map fun f => .optional f.field answer fun b r => r.set f b)

/-- Decodes a record. -/
def decoder : Json.Decoder PermissionRecord := form.decoder

end PermissionRecord

namespace Permissions

/-- The document of a set of permissions. -/
def toJson (p : Permissions) : Json := .str p.text

/-- Decodes a set of permissions. -/
def decoder : Json.Decoder Permissions :=
  .string "a string value of `|` separated flags" fun s => (ofText s).mapError TextError.message

end Permissions

end StaffRights
