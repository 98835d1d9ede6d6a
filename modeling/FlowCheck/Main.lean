import FlowCheck.Command.Run

/-!
# The program

Looks at the files and found that a command line may ask for, runs the command on what it saw,
and writes the outcome.
-/
namespace FlowCheck.Main

/-- What a path leads to. A directory opens but cannot be read, so its error names no file. -/
def look (path : String) : IO Entry := do
  try
    return .file (← IO.FS.readBinFile path).toList
  catch
    | .inappropriateType (some _) .. => return .blocked
    | .inappropriateType none .. => return .directory
    | _ => return .missing

/-- Pairs of keys and what was found for them. -/
def lookAll (look : String → IO α) (keys : List String) : IO (List (String × α)) :=
  keys.mapM fun key => return (key, ← look key)

def keys : List String :=
  ["warnings_as_errors", "jobs", "max_errors", "format", "passes", "verify", "dump_before",
    "dump_after", "dump_func"]

/-- The paths that a command line may read. -/
def paths (w : World) (args : List String) : List String :=
  match Invocation.ofArgs args with
  | .ok i => (i.text? "config").toList ++ Config.candidates w ++ i.args
  | .error _ => []

def world (args : List String) : IO World := do
  let found ← lookAll (fun name => IO.getEnv name) (keys.map Config.variableOf)
  let blind : World :=
    { dir := (← IO.currentDir).toString
      home := ← IO.getEnv "HOME"
      env := fun name => (found.lookup name).join
      entry := fun _ => .missing }
  let entries ← lookAll look (paths blind args)
  return { blind with entry := fun path => (entries.lookup path).getD .missing }

end FlowCheck.Main

def main (args : List String) : IO UInt32 := do
  let outcome := FlowCheck.Command.run (← FlowCheck.Main.world args) args
  (← IO.getStdout).putStr outcome.output.stdout
  (← IO.getStderr).putStr outcome.output.stderr
  match outcome.failure with
  | none => return 0
  | some .checkFailed => return 1
  | some e =>
    (← IO.getStderr).putStr ("kestrelc: " ++ e.message ++ "\n")
    return 1
