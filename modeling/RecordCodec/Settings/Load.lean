import RecordCodec.Config.Environment
import RecordCodec.Error
import RecordCodec.Settings.Toml
import RecordCodec.Toml.Document

/-!
Loading settings. They start from a configuration text, if there is one, and variables of the
environment override it. Where a text is wanted, a number or truth value is shown in its plain
form; where a single character is wanted, it does not fit. Keys and policies count without regard
to case.
-/

namespace RecordCodec

namespace ConfigValue

/-- A list is taken for the table whose first keys have its items as values. -/
def settingsEntries? (keys : List String) : ConfigValue → Option (List (String × ConfigValue))
  | .table entries => some entries
  | .list items => some (keys.zip items)
  | _ => none

def items? : ConfigValue → Option (List ConfigValue)
  | .list items => some items
  | _ => none

def text? : ConfigValue → Option String
  | .text s => some s
  | .number shown => some shown
  | .flag true => some "true"
  | .flag false => some "false"
  | _ => none

def character? : ConfigValue → Option Char
  | .text s => onlyCharacter? s
  | _ => none

/-- A policy is its text, or a table with the text as its only key. -/
def policy? : ConfigValue → Option UntypedPolicy
  | .text s => UntypedPolicy.find? (· = Text.lower s)
  | .table [(s, _)] => UntypedPolicy.find? (· = Text.lower s)
  | _ => none

/-- How configuration spells settings. -/
def settingsForm : SettingsForm ConfigValue where
  entries? := settingsEntries?
  items? := items?
  text? := text?
  character? := character?
  policy? := policy?

end ConfigValue

/-- A configuration file: one that does not exist, one with a text, or none asked for. -/
inductive ConfigFile where
  | none
  | missing
  | text (content : String)

/-- The entries of the file, as routes and what they lead to. -/
def ConfigFile.read? : ConfigFile → Option (List (String × ConfigValue))
  | .none => some []
  | .missing => Option.none
  | .text content => Toml.read? content

/-- Loads settings from a file and the variables of the environment. -/
def Settings.load (file : ConfigFile) (assignments : List (String × String)) :
    Except Error Settings := do
  let some entries := file.read? | .error .configuration
  let config ← ConfigValue.ofEntries entries
  let config ← assignments.foldlM Environment.override config
  -- Set once more, for a key can become a route in lower case.
  let config ← ConfigValue.ofEntries config.entries
  match ConfigValue.settingsForm.settings? config with
  | some s => .ok s
  | none => .error .configuration

end RecordCodec
