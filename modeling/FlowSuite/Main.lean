import FlowSuite.CommandLine.Run
import FlowSuite.Yaml.Value

/-!
# The program

Runs the command of the arguments on the files of the machine. Documents are written in YAML.
-/

namespace FlowSuite

/-- The number of a system error in domain words. -/
def fileError (e : IO.Error) : FileError :=
  match e with
  | .noFileOrDirectory .. => .notFound
  | .alreadyExists .. => .alreadyThere
  | .inappropriateType _ 20 _ => .notFolder
  | .inappropriateType _ 21 _ => .isFolder
  | e => .other (toString e)

/-- The result of an action on files. -/
def fileResult (action : IO α) : IO (Except FileError α) := do
  match ← action.toBaseIO with
  | .ok a => return .ok a
  | .error e => return .error (fileError e)

/-- The files of the machine. -/
def machine : Storage IO where
  read path := fileResult (IO.FS.readFile path)
  makeFolders path := fileResult (IO.FS.createDirAll path)
  write path text := fileResult (IO.FS.writeFile path text)

end FlowSuite

open FlowSuite in
/-- Runs the command of the arguments. -/
def main (args : List String) : IO UInt32 := do
  let env : Environment :=
    { apiKeyEnv := ← IO.getEnv "ARAZZO_API_KEY_ENV", serverUrl := ← IO.getEnv "ARAZZO_SERVER_URL" }
  let outcome ← runArguments Yaml.parse? machine env args
  IO.print outcome.output
  for notice in outcome.report do
    for line in notice.lines do
      IO.eprintln line
  return outcome.status.toUInt32
