import StaffRights.Text.Pieces

/-!
# Settings

Settings come from environment variables. A variable that is unset, or whose value is not UTF-8,
leaves the default; a value that cannot be read gives the default as well.

Reference: `SPEC_FULL.md` 10.12 (`StaffConfig`).
-/

namespace StaffRights

/-- The settings of the staff service and its inspector. -/
structure Settings where
  /-- Are resolved rights remembered? -/
  permissionCache : Bool := true
  /-- The capacity of the channel of invalidations. -/
  invalidationBuffer : Nat := 256
  /-- Is the log written as JSON? -/
  logJson : Bool := true
  /-- Where the snapshot to be inspected is found. -/
  snapshotPath : Option String := none
  deriving DecidableEq, Repr

namespace Settings

/-- Reads a truth value; anything but the two words counts as `true`. -/
def readSwitch (s : String) : Bool := s ≠ "false"

/-- Reads a capacity: a positive numeral of at most 64 bits, or else 256. -/
def readCapacity (s : String) : Nat :=
  ((Text.unsigned? 10 Text.decimalDigit? (Nat.pow 2 64) s.toList).filter (0 < ·)).getD 256

/-- Reads a path; blank text is none. -/
def readPath (s : String) : Option String :=
  if (Text.trim s.toList).isEmpty then none else some s

/-- The settings that an environment makes; it answers the value of a variable that is set. -/
def ofEnvironment (value? : String → Option ByteArray) : Settings :=
  let text? (name : String) : Option String := (value? name).bind String.fromUTF8?
  { permissionCache := (text? "STAFF_PERMISSION_CACHE").elim true readSwitch
    invalidationBuffer := (text? "STAFF_INVALIDATION_BUFFER").elim 256 readCapacity
    logJson := (text? "STAFF_LOG_JSON").elim true readSwitch
    snapshotPath := (text? "STAFF_SNAPSHOT_PATH").bind readPath }

end Settings

end StaffRights
