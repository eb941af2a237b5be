import RecordCodec.Naming.UsedNames
import RecordCodec.Naming.Words
import RecordCodec.QualifiedName

/-!
How names are made. A naming style gives the scopes and suffixes of artifacts, the marker that
tells colliding identifiers apart, and the acronyms that keep their capitals. From it come type
names, accessors and constants, and the names of everything generated for a record.
-/

namespace RecordCodec.Naming

structure Style where
  rootScope : String := "generated"
  modelScope : String := "model"
  encoderScope : String := "encoder"
  decoderScope : String := "decoder"
  builderScope : String := "builder"
  encoderSuffix : String := "Encoder"
  decoderSuffix : String := "Decoder"
  builderSuffix : String := "Builder"
  marker : Char := '_'
  /-- In order, each once. -/
  acronyms : List String :=
    ["API", "HTTP", "ID", "IO", "JSON", "SQL", "UI", "URI", "URL", "UUID", "XML"]
deriving DecidableEq, Repr

/-- The constant of every record that holds its fingerprint. -/
def fingerprintConstant : String := "FINGERPRINT"

namespace Style

/-- A scope below the root scope. -/
def scope (style : Style) (leaf : String) : String :=
  if style.rootScope = "" then leaf else style.rootScope ++ "." ++ leaf

/-- Puts a word into title case; an acronym goes all upper case. -/
def titleWord (style : Style) (word : String) : String :=
  let upper := Text.upper word
  if style.acronyms.contains upper then upper
  else match word.toList with
    | [] => ""
    | c :: rest => String.ofList (Text.upperChar c ++ rest.map Char.toLower)

/-- The name of a type. A name without separators keeps its casing apart from the first letter. -/
def typeName (style : Style) (raw : String) : String :=
  if raw.toList.any isSeparator then String.join ((words raw).map style.titleWord)
  else Text.capitalize raw

/-- The name of an accessor, in camel case. -/
def accessor (style : Style) (raw : String) : String :=
  match words raw with
  | [] => ""
  | first :: rest => Text.lower first ++ String.join (rest.map style.titleWord)

/-- The name of a constant, in capitals with underscores between the words. -/
def constant (raw : String) : String := "_".intercalate ((words raw).map Text.upper)

/-- Accessors of sibling fields, told apart by markers. -/
def accessors (style : Style) (raw : List String) : List String :=
  UsedNames.empty.claimAll style.marker (raw.map style.accessor)

/-- Constants of sibling fields, told apart by markers from each other and from the constant that
holds the fingerprint. -/
def constants (style : Style) (raw : List String) : List String :=
  (UsedNames.reserving [fingerprintConstant]).claimAll style.marker (raw.map constant)

/-- The name a record asks for: its identity, or else the name of the record around it followed by
the field's name. -/
def baseName (style : Style) (identity : Option String) (enclosing field : String) : String :=
  match identity with
  | some identity => style.typeName identity
  | none => enclosing ++ style.typeName field

/-- The names of all artifacts of the record with this simple name. -/
def artifactNames (style : Style) (record : String) : ArtifactNames where
  record := ⟨style.scope style.modelScope, record⟩
  encoder := ⟨style.scope style.encoderScope, record ++ style.encoderSuffix⟩
  decoder := ⟨style.scope style.decoderScope, record ++ style.decoderSuffix⟩
  builder := ⟨style.scope style.builderScope, record ++ style.builderSuffix⟩

@[simp] theorem length_accessors (style : Style) (raw : List String) :
    (style.accessors raw).length = raw.length := by
  simp [accessors]

end Style
end RecordCodec.Naming
