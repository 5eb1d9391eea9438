import ChainIndex.Json.Parser
import ChainIndex.Settings.Path
import ChainIndex.Toml.Parser

/-!
# Where settings come from

* `SettingsFormat`: the formats of settings files, told apart by the extension. `SettingsFormat.layer?`
  reads a layer of settings.
* `Environment.layer`: the settings that stand in environment variables.
-/

namespace ChainIndex

/-- A layer of settings: entries of which each may be a path. -/
abbrev SettingsLayer := List (String × Setting)

/-- The layer of a table. -/
def SettingsLayer.ofSetting? : Setting → Option SettingsLayer
  | .table entries => some entries
  | _ => none

/-- A format of settings files. -/
inductive SettingsFormat where
  | json
  | toml
deriving DecidableEq, Repr

namespace SettingsFormat

/-- All formats. -/
def all : List SettingsFormat := [json, toml]

/-- The extension of the files of a format. -/
def extension : SettingsFormat → String
  | json => "json"
  | toml => "toml"

/-- The format of files with an extension. -/
def ofExtension? (extension : String) : Option SettingsFormat :=
  all.find? (·.extension = extension)

/-- The layer that a text holds; it must be a table. -/
def layer? (text : String) : SettingsFormat → Option SettingsLayer
  | json => do SettingsLayer.ofSetting? (.ofJson (← Json.parse? text))
  | toml => Toml.parse? text

end SettingsFormat

namespace Environment

/-- The beginning of the names of all environment variables that hold settings, in lower case. -/
def marker : List Char := "watchtower__".toList

/-- A character in lower case. The Kelvin sign is the only letter outside ASCII whose lower case is in it. -/
def lower (c : Char) : Char := if c = '\u212a' then 'k' else c.toLower

/-- Dots in place of double underscores. -/
def dotted : List Char → List Char
  | '_' :: '_' :: rest => '.' :: dotted rest
  | c :: rest => c :: dotted rest
  | [] => []

/-- The key that the name of a variable stands for. -/
def key? (name : String) : Option String :=
  let name := name.toList.map lower
  if marker.isPrefixOf name then some (String.ofList (dotted (name.drop marker.length))) else none

/-- The settings in an environment, all of them texts. -/
def layer (environment : List (String × String)) : SettingsLayer :=
  environment.filterMap fun (name, value) => do return (← key? name, .text value)

end Environment

end ChainIndex
