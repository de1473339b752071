import MarketScan.CommandLine

/-!
# The program

Reads the surroundings of the program and does what `CommandLine.run` says. This build has no sockets
of its own, so its network is one that nothing can be reached over, and every run ends with the
message that says so or with an earlier one.
-/

namespace MarketScan

/-- The text of a file, if there is one. -/
def readTextFile? (name : String) : IO (Option (String × String)) := do
  try
    return some (name, ← IO.FS.readFile name)
  catch _ =>
    return none

/-- The files that settings may come from. -/
def readSettingsFiles : IO Settings.Files := do
  let names := [Settings.defaultFile, Settings.defaultFile ++ ".toml"]
  return (← names.mapM readTextFile?).filterMap id

/-- One variable of the environment. -/
def splitVariable (entry : String) : Option (String × String) :=
  let s := entry.toList
  match s.dropWhile (· ≠ '=') with
  | _ :: value => some (String.ofList (s.takeWhile (· ≠ '=')), String.ofList value)
  | [] => none

/-- The environment of the process, where the system shows it as a file. -/
def readEnvironmentFile : IO Settings.Environment := do
  match ← readTextFile? "/proc/self/environ" with
  | some (_, text) => return (text.splitOn "\x00").filterMap splitVariable
  | none => return []

end MarketScan

open MarketScan in
/-- Runs the program with its arguments. -/
def main (args : List String) : IO UInt32 := do
  let outcome := CommandLine.run args (← readSettingsFiles) (← readEnvironmentFile) .plain .unreachable
  IO.print outcome.output
  match outcome.failure with
  | some e => IO.eprintln e.message
  | none => pure ()
  return outcome.exitCode.toUInt32
