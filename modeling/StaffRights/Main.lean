import StaffRights.Inspection

/-!
# The inspector's command line

The arguments are the id of a user and, optionally, that of an entity. The report goes to standard
output, an error to the error output.

Reference: `SPEC_FULL.md` 10.13 (`staff-inspect`).
-/

namespace StaffRights.CommandLine

/-- An error of the system by its text and number; some numbers come with their sign turned. -/
def systemError (code : UInt32) (details : String) : String :=
  let number := if code < 0x80000000 then code else -code
  s!"{details.capitalize} (os error {number})"

/-- The reason why a file could not be read. -/
def unreadableReason : IO.Error → String
  | .noFileOrDirectory _ code details => systemError code details
  | .permissionDenied _ code details => systemError code details
  | .inappropriateType _ code details => systemError code details
  | .invalidArgument _ code details => systemError code details
  | .resourceExhausted _ code details => systemError code details
  | .otherError code details => systemError code details
  | e => toString e

/-- The settings that the environment of the process makes. -/
def readSettings : IO Settings := do
  let names := ["STAFF_PERMISSION_CACHE", "STAFF_INVALIDATION_BUFFER", "STAFF_LOG_JSON",
    "STAFF_SNAPSHOT_PATH"]
  let values ← names.mapM fun name => return (name, (← IO.getEnv name).map String.toUTF8)
  return Settings.ofEnvironment fun name => (values.lookup name).join

/-- Ids for the memberships of a snapshot that have none, from a random first one on. -/
def freshIds : IO (Nat → MembershipId) := do
  let bytes ← IO.getRandomBytes 16
  let first := bytes.foldl (fun n b => 256 * n + b.toNat) 0
  return fun i => .ofNat (first + i)

end StaffRights.CommandLine

open StaffRights CommandLine

def main (arguments : List String) : IO UInt32 := do
  let settings ← readSettings
  let answered ← match Query.ofArguments arguments settings with
    | .error e => pure (.error e)
    | .ok q =>
      let contents ← try
          pure (.ok (← IO.FS.readBinFile q.path))
        catch e =>
          pure (.error (unreadableReason e))
      pure (q.answer settings (← freshIds) contents)
  match answered with
  | .ok report =>
    IO.print report.text
    return 0
  | .error e =>
    IO.eprint e.text
    return 1
