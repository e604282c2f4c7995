import Std.Time.DateTime.Timestamp
import Loadout.CommandLine
import Loadout.Timestamp

/-!
# The program

Reads files, the environment and the clock, and prints the outcome of the command.
-/

open Loadout CommandLine

def reasonOf : IO.Error → Unreadable
  | .noFileOrDirectory .. => .missing
  | .inappropriateType _ 20 _ => .notDirectory
  | .inappropriateType .. => .isDirectory
  | .permissionDenied .. => .denied
  | .invalidArgument _ 36 _ => .nameTooLong
  | e => .other (toString e)

/-- The content of a file, or why it cannot be read. -/
def readTextFile : FileReader IO := fun path => do
  try
    return .ok (← IO.FS.readFile path)
  catch e =>
    return .error (reasonOf e)

/-- The files, environment and clock of the machine. -/
def machine : IO (Surroundings IO) := do
  return {
    files := readTextFile
    dataDir := ← IO.getEnv "SMITHY_DATA_DIR"
    now := do
      let moment ← Std.Time.Timestamp.now
      return Timestamp.text moment.toSecondsSinceUnixEpoch.toInt.toNat }

def main (args : List String) : IO UInt32 := do
  let outcome ← (← machine).run args
  for line in outcome.output do
    IO.println line
  for line in outcome.complaints do
    IO.eprintln line
  return outcome.code.toUInt32
