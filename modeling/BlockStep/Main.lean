import BlockStep.Document.Read
import BlockStep.DryRun.Output

namespace BlockStep.DryRun

/-- The texts of the files that exist. -/
def readFiles (paths : List String) : IO (Keyed String) :=
  paths.foldlM (fun texts (path : String) => do
    try
      return Keyed.put path (← IO.FS.readFile path) texts
    catch _ => return texts) []

/-- The columns of a file that holds a mapping. -/
def columnsIn? (file : String × String) : Option (String × Keyed Value) :=
  match Value.ofJson? file.2 with
  | some (.map columns) => some (file.1, columns)
  | _ => none

def writeFile (file : String × String) : IO Unit := do
  IO.FS.createDirAll (Text.Path.parent file.1)
  IO.FS.writeFile file.1 file.2

/-- Runs, writes the files of the run, and shows its records; the exit code. -/
def runWith (args : List String) : IO Nat := do
  let (settings, particles) := Arguments.filesOf (Arguments.parse args)
  let files : Files := {
    texts := ← readFiles settings
    columns := (← readFiles particles).filterMap columnsIn? }
  let (result, events) := run files args
  match result with
  | .error refusal =>
    (shown .warning events).forM IO.eprintln
    if refusal.exitCode = 0 then IO.println refusal.text else IO.eprintln refusal.text
    return refusal.exitCode
  | .ok result =>
    (shown result.level events).forM IO.eprintln
    result.files.forM writeFile
    return result.status.exitCode

end BlockStep.DryRun

def main (args : List String) : IO UInt32 := do
  return UInt32.ofNat (← BlockStep.DryRun.runWith args)
