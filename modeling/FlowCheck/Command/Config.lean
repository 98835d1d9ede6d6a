import FlowCheck.Command.Line
import FlowCheck.Command.World
import FlowCheck.Settings.Basic
import FlowCheck.Settings.File

/-!
# Settings of a command

A flag that is given wins over a variable of the environment, and that over the settings file. The
file is the one that a flag names, or else the first one found under its usual names.
-/
namespace FlowCheck

inductive ConfigError where
  | unreadable (e : FileError)
  | unsupported (type : String)
  | malformed (path : String)
  deriving DecidableEq, Repr

def ConfigError.message : ConfigError → String
  | unreadable e => "read config: " ++ e.message
  | unsupported type => "read config: Unsupported Config Type " ++ Quoted.text type
  | malformed path => "read config: While parsing config: " ++ path ++ " holds no settings"

namespace Config

/-- Where settings files are looked for, in order. -/
def candidates (w : World) : List String :=
  ["kestrelc", ".kestrelc"].flatMap fun name =>
    (w.dir :: w.home.toList).flatMap fun dir =>
      (SettingsFormat.endings.map fun e => dir ++ "/" ++ name ++ "." ++ e.1) ++ [dir ++ "/" ++ name]

def isFile (w : World) (path : String) : Bool :=
  match w.entry path with
  | .file _ => true
  | _ => false

/-- What follows the last point in the last part of a path. -/
def endingOf (path : String) : String :=
  let last := (path.toList.reverse.takeWhile (· ≠ '/'))
  if last.contains '.' then String.ofList (last.takeWhile (· ≠ '.')).reverse else ""

def readFile (w : World) (format : SettingsFormat) (path : String) : Except ConfigError Setting :=
  match w.read path with
  | .ok bytes =>
    match (String.fromUTF8? ⟨bytes.toArray⟩).bind (format.read? w.env) with
    | some v => .ok v
    | none => .error (.malformed path)
  | .error e => .error (.unreadable e)

/-- The settings file, and where it was found if no flag named it. A file that no flag names is read
as YAML, whatever its ending. -/
def load (w : World) (i : Invocation) : Except ConfigError (Setting × Option String) := do
  let named := (i.text? "config").getD ""
  if named ≠ "" then
    match SettingsFormat.endings.lookup (endingOf named) with
    | some format => return (← readFile w format named, none)
    | none => throw (.unsupported (endingOf named))
  else match (candidates w).find? (isFile w) with
    | some path => return (← readFile w .yaml path, some path)
    | none => return (.null, none)

/-- The flags that settings can be given by. -/
def flagOf? (command : Command) (key : String) : Option String :=
  let shared :=
    [("warnings_as_errors", "warnings-as-errors"), ("jobs", "jobs"), ("verify", "verify"),
      ("dump_before", "dump-before"), ("dump_after", "dump-after"), ("dump_func", "dump-func")]
  let own := if command = .check then [("format", "format"), ("max_errors", "max-errors")] else []
  (shared ++ own).lookup key

/-- The variable of the environment that gives a setting. -/
def variableOf (key : String) : String := "KESTREL_" ++ key.map Char.toUpper

/-- A variable that is empty counts as not set. -/
def environment? (w : World) (key : String) : Option Setting :=
  match w.env (variableOf key) with
  | none => none
  | some s => if s = "" then none else some (.text s)

/-- The settings in effect for a command. -/
def settings (w : World) (i : Invocation) (file : Setting) : Except SettingsError Settings :=
  Settings.load <| Settings.layered
    [fun key => (flagOf? i.command key).bind i.flags.get?, environment? w, file.get?]

end Config

end FlowCheck
