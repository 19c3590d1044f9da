import StaffRights.Permissions.Basic

/-!
# Permission records

A record answers yes or no for each of the seven flags. It cannot express an unnamed bit, so the way
from a set to its record and back keeps exactly the seven flags.

Reference: `SPEC_FULL.md` 10.2 (`PermissionRecord`).
-/

namespace StaffRights

/-- One answer for each flag. -/
structure PermissionRecord where
  create : Bool := false
  read : Bool := false
  update : Bool := false
  delete : Bool := false
  sign : Bool := false
  award : Bool := false
  administrateUsers : Bool := false
  deriving DecidableEq, Repr

namespace PermissionRecord

/-- The answer for one flag. -/
def get (r : PermissionRecord) : Flag → Bool
  | .create => r.create
  | .read => r.read
  | .update => r.update
  | .delete => r.delete
  | .sign => r.sign
  | .award => r.award
  | .administrateUsers => r.administrateUsers

/-- The record with the given answers. -/
def ofFn (answer : Flag → Bool) : PermissionRecord where
  create := answer .create
  read := answer .read
  update := answer .update
  delete := answer .delete
  sign := answer .sign
  award := answer .award
  administrateUsers := answer .administrateUsers

/-- A record answers as it was made to. -/
@[simp] theorem get_ofFn (answer : Flag → Bool) (f : Flag) : (ofFn answer).get f = answer f := by
  cases f <;> rfl

@[simp] theorem ofFn_get (r : PermissionRecord) : ofFn r.get = r := rfl

/-- The set of the flags with a yes. -/
def permissions (r : PermissionRecord) : Permissions :=
  .ofFlags (Flag.all.filter r.get)

end PermissionRecord

/-- The record of a set; an unnamed bit is lost. -/
def Permissions.record (p : Permissions) : PermissionRecord := .ofFn p.holds

end StaffRights
