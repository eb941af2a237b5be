import RecordCodec.Entries
import RecordCodec.Settings.Basic

/-!
Reading settings from documents of any kind. A form says how the document spells tables, texts and
the rest. Every key may be absent and then keeps its default; a key that is there must have the
right shape, and keys that are not known are ignored.
-/

namespace RecordCodec

def UntypedPolicy.text : UntypedPolicy → String
  | .asString => "default_to_string"
  | .reject => "reject"

/-- The policy whose text meets a condition. -/
def UntypedPolicy.find? (is : String → Bool) : Option UntypedPolicy :=
  [UntypedPolicy.asString, .reject].find? fun policy => is policy.text

/-- Strings in order, each once. -/
def sortedSet (items : List String) : List String :=
  Entries.keys (Entries.ofList (items.map fun s => (s, ())))

/-- How settings are spelled in documents of one kind. -/
structure SettingsForm (α : Type) where
  /-- The entries of a table with the given keys. -/
  entries? : List String → α → Option (List (String × α))
  items? : α → Option (List α)
  text? : α → Option String
  character? : α → Option Char
  policy? : α → Option UntypedPolicy

namespace SettingsForm

variable {α β : Type}

/-- The value of a key that may be absent, read in a way that may refuse it. -/
def keyOr (entries : List (String × α)) (key : String) (default : β) (read : α → Option β) :
    Option β :=
  match Entries.get? key entries with
  | none => some default
  | some j => read j

def texts? (form : SettingsForm α) (a : α) : Option (List String) :=
  (form.items? a).bind fun items => items.mapM form.text?

def style? (form : SettingsForm α) (a : α) : Option Naming.Style := do
  let entries ← form.entries? ["root_namespace", "model_namespace", "encoder_namespace",
    "decoder_namespace", "builder_namespace", "encoder_suffix", "decoder_suffix",
    "builder_suffix", "collision_marker", "acronyms"] a
  let style : Naming.Style := {}
  let text (key default : String) := keyOr entries key default form.text?
  return {
    rootScope := ← text "root_namespace" style.rootScope
    modelScope := ← text "model_namespace" style.modelScope
    encoderScope := ← text "encoder_namespace" style.encoderScope
    decoderScope := ← text "decoder_namespace" style.decoderScope
    builderScope := ← text "builder_namespace" style.builderScope
    encoderSuffix := ← text "encoder_suffix" style.encoderSuffix
    decoderSuffix := ← text "decoder_suffix" style.decoderSuffix
    builderSuffix := ← text "builder_suffix" style.builderSuffix
    marker := ← keyOr entries "collision_marker" style.marker form.character?
    acronyms := ← (keyOr entries "acronyms" style.acronyms form.texts?).map sortedSet }

def untyped? (form : SettingsForm α) (a : α) : Option UntypedPolicy := do
  let entries ← form.entries? ["untyped_fields"] a
  keyOr entries "untyped_fields" .asString form.policy?

def external? (form : SettingsForm α) (a : α) : Option (List String) := do
  let entries ← form.entries? ["identities"] a
  keyOr entries "identities" [] form.texts?

def settings? (form : SettingsForm α) (a : α) : Option Settings := do
  let entries ← form.entries? ["naming", "classification", "external"] a
  return {
    naming := ← keyOr entries "naming" {} form.style?
    untyped := ← keyOr entries "classification" .asString form.untyped?
    external := ← keyOr entries "external" [] form.external? }

end SettingsForm

/-- The only character of a text. -/
def onlyCharacter? (s : String) : Option Char :=
  match s.toList with
  | [c] => some c
  | _ => none

end RecordCodec
