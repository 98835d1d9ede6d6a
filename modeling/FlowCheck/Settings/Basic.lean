import FlowCheck.Flow.Pipeline
import FlowCheck.Settings.Value
import FlowCheck.Text.Quoted

/-!
# Settings

How files are checked and how the outcome is shown. Every setting has a default. Settings of passes
may stand on their own or together in a map under `passes`; those on their own win.
-/
namespace FlowCheck

/-- How diagnostics are written. -/
inductive ReportFormat where
  | text
  | yaml
  deriving DecidableEq, Repr

structure Settings where
  warningsAsErrors : Bool := false
  /-- The number of functions analyzed at a time, or as many as there are processors. -/
  jobs : Option Nat := none
  /-- The number of diagnostics shown for a file, or all if it is zero. -/
  maxErrors : Nat := 10
  format : ReportFormat := .text
  passes : PassOptions := {}
  deriving DecidableEq, Repr

/-- Why a setting of passes was refused. -/
inductive PassSettingFault where
  | notBoolean (name text : String)
  | wrongType (name wanted type value : String)
  deriving DecidableEq, Repr

def PassSettingFault.message : PassSettingFault → String
  | notBoolean name text =>
    "cannot parse '" ++ name ++ "' as bool: strconv.ParseBool: parsing " ++ Quoted.text text
      ++ ": invalid syntax"
  | wrongType name wanted type value =>
    "'" ++ name ++ "' expected type '" ++ wanted ++ "', got unconvertible type '" ++ type
      ++ "', value: '" ++ value ++ "'"

inductive SettingsError where
  | passesNotMap (kind : String)
  | passes (faults : List PassSettingFault)
  | unknownFormat (text : String)
  | negativeLimit
  deriving DecidableEq, Repr

def SettingsError.message : SettingsError → String
  | passesNotMap kind => "config: passes: '' expected a map, got '" ++ kind ++ "'"
  | passes faults =>
    let lines := (faults.map fun f => "* " ++ f.message).mergeSort fun a b => a ≤ b
    "config: passes: " ++ toString faults.length ++ " error(s) decoding:\n\n"
      ++ "\n".intercalate lines
  | unknownFormat text => "config: unknown format " ++ Quoted.text text ++ " (want text or yaml)"
  | negativeLimit => "config: max_errors must not be negative"

namespace PassOptions

/-- A boolean of the map of pass settings, which is less forgiving than a setting on its own. -/
def flagOf (name : String) : Setting → Except PassSettingFault Bool
  | .null => .ok false
  | .flag b => .ok b
  | .int z | .long z => .ok (z ≠ 0)
  | .number x => .ok !x.isZero
  | .text s =>
    match Boolean.parse? s with
    | some b => .ok b
    | none => if s = "" then .ok false else .error (.notBoolean name s)
  | v => .error (.wrongType name "bool" v.type v.describe)

/-- A text of the map of pass settings. -/
def textOf (name : String) : Setting → Except PassSettingFault String
  | .null => .ok ""
  | .flag b => .ok (if b then "1" else "0")
  | .int z | .long z => .ok (toString z)
  | .number x => .ok x.text
  | .text s => .ok s
  | v => .error (.wrongType name "string" v.type v.describe)

def faultOf : Except PassSettingFault α → List PassSettingFault
  | .ok _ => []
  | .error e => [e]

/-- The map of pass settings; all faults are collected. A time counts as a map without members. -/
def ofSetting (v : Setting) : Except SettingsError PassOptions :=
  match v with
  | .map members =>
    let member (name : String) := (members.lookup name).getD .null
    let verify := flagOf "verify" (member "verify")
    let dumpBefore := textOf "dump_before" (member "dump_before")
    let dumpAfter := textOf "dump_after" (member "dump_after")
    let dumpFunc := textOf "dump_func" (member "dump_func")
    match verify, dumpBefore, dumpAfter, dumpFunc with
    | .ok verify, .ok dumpBefore, .ok dumpAfter, .ok dumpFunc =>
      .ok { verify, dumpBefore, dumpAfter, dumpFunc }
    | _, _, _, _ =>
      .error (.passes
        (faultOf verify ++ faultOf dumpBefore ++ faultOf dumpAfter ++ faultOf dumpFunc))
  | .time _ | .civil _ => .ok {}
  | v => .error (.passesNotMap v.kind)

end PassOptions

namespace Settings

def formatOf (text : String) : Except SettingsError ReportFormat :=
  if text = "text" then .ok .text
  else if text = "yaml" then .ok .yaml
  else .error (.unknownFormat text)

/-- The value of a key as `convert` reads it, or the default. -/
def valueOf (find : String → Option Setting) (key : String) (convert : Setting → α) (default : α) :
    α :=
  (find key).elim default convert

/-- Settings from a look-up of values by key. Keys that have no value get their defaults. -/
def load (find : String → Option Setting) : Except SettingsError Settings := do
  let jobs := valueOf find "jobs" Setting.toInt 0
  let maxErrors := valueOf find "max_errors" Setting.toInt 10
  let grouped ← (find "passes").elim (.ok {}) PassOptions.ofSetting
  let format ← formatOf (valueOf find "format" Setting.toText "text")
  if maxErrors < 0 then .error .negativeLimit
  return {
    warningsAsErrors := valueOf find "warnings_as_errors" Setting.toFlag false
    jobs := if 0 < jobs then some jobs.toNat else none
    maxErrors := maxErrors.toNat
    format
    passes := {
      verify := valueOf find "verify" Setting.toFlag grouped.verify
      dumpBefore := valueOf find "dump_before" Setting.toText grouped.dumpBefore
      dumpAfter := valueOf find "dump_after" Setting.toText grouped.dumpAfter
      dumpFunc := valueOf find "dump_func" Setting.toText grouped.dumpFunc } }

/-- A look-up that asks several sources, the first one that has the key wins. -/
def layered (sources : List (String → Option Setting)) (key : String) : Option Setting :=
  sources.findSome? fun source => source key

end Settings

end FlowCheck
