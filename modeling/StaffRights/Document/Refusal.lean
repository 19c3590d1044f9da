import StaffRights.Json.Basic
import StaffRights.Refusal

/-!
# Documents of refusals

The body of the reply to a request that was turned down. Clients show the message of a refused
submission beside the form it came from, and any other as an error of its own.

Reference: `SPEC_FULL.md` 10.10.
-/

namespace StaffRights

/-- The body of the reply. -/
def Refusal.body (r : Refusal) : Json :=
  if r.isValidation then .obj [("fields", .obj [("error_message", .str r.message)])]
  else .obj [("error", .str r.message)]

end StaffRights
