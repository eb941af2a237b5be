import RecordCodec.Json.Basic
import RecordCodec.Settings.Form

/-!
Settings as JSON. An array is taken for the object whose first keys have its items as values. A
policy is a string, or an object that holds null under that string alone.
-/

namespace RecordCodec

namespace Json

def settingsEntries? (keys : List String) : Json → Option (List (String × Json))
  | .object entries => some entries
  | .array items => if items.length ≤ keys.length then some (keys.zip items) else none
  | _ => none

def items? : Json → Option (List Json)
  | .array items => some items
  | _ => none

def string? : Json → Option String
  | .string s => some s
  | _ => none

def policy? : Json → Option UntypedPolicy
  | .string s => UntypedPolicy.find? (· = s)
  | .object [(s, .null)] => UntypedPolicy.find? (· = s)
  | _ => none

/-- How JSON spells settings. -/
def settingsForm : SettingsForm Json where
  entries? := settingsEntries?
  items? := items?
  text? := string?
  character? := fun j => j.string?.bind onlyCharacter?
  policy? := policy?

end Json

namespace Naming.Style

def ofJson? (j : Json) : Option Style := Json.settingsForm.style? j

/-- The settings of a style with their keys, in the order in which they are written. -/
def entries (style : Style) : List (String × Json) :=
  [("root_namespace", .string style.rootScope), ("model_namespace", .string style.modelScope),
    ("encoder_namespace", .string style.encoderScope),
    ("decoder_namespace", .string style.decoderScope),
    ("builder_namespace", .string style.builderScope),
    ("encoder_suffix", .string style.encoderSuffix),
    ("decoder_suffix", .string style.decoderSuffix),
    ("builder_suffix", .string style.builderSuffix),
    ("collision_marker", .string (String.singleton style.marker)),
    ("acronyms", .array (style.acronyms.map .string))]

end Naming.Style

namespace Settings

def ofJson? (j : Json) : Option Settings := Json.settingsForm.settings? j

/-- The tables of the settings, in the order in which they are written. -/
def tables (s : Settings) : List (String × List (String × Json)) :=
  [("naming", s.naming.entries),
    ("classification", [("untyped_fields", .string s.untyped.text)]),
    ("external", [("identities", .array (s.external.map .string))])]

def toJson (s : Settings) : Json :=
  .object (Entries.ofList (s.tables.map fun t => (t.1, .object (Entries.ofList t.2))))

end Settings
end RecordCodec
