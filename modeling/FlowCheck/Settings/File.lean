import FlowCheck.Settings.Format.Dotenv
import FlowCheck.Settings.Format.Hcl
import FlowCheck.Settings.Format.Ini
import FlowCheck.Settings.Format.Json
import FlowCheck.Settings.Format.Properties
import FlowCheck.Settings.Format.Toml
import FlowCheck.Settings.Format.Yaml

/-!
# Settings files

The ending of the name of a file tells in which format its settings are written.
-/
namespace FlowCheck

inductive SettingsFormat where
  | yaml
  | json
  | toml
  | properties
  | dotenv
  | ini
  | hcl
  deriving DecidableEq, Repr

namespace SettingsFormat

/-- The endings of the names of settings files, in the order in which they are looked for. -/
def endings : List (String × SettingsFormat) :=
  [("json", json), ("toml", toml), ("yaml", yaml), ("yml", yaml), ("properties", properties),
    ("props", properties), ("prop", properties), ("hcl", hcl), ("tfvars", hcl), ("dotenv", dotenv),
    ("env", dotenv), ("ini", ini)]

/-- The settings in a text. Some formats take in variables of the environment. Keys are in lower
case. -/
def read? (format : SettingsFormat) (env : String → Option String) (s : String) : Option Setting :=
  let v := match format with
    | yaml => YamlSettings.read? s
    | json => JsonSettings.read? s
    | toml => TomlSettings.read? s
    | properties => PropertySettings.read? env s
    | dotenv => DotenvSettings.read? env s
    | ini => IniSettings.read? s
    | hcl => HclSettings.read? s
  v.map Setting.lowered

end SettingsFormat

end FlowCheck
