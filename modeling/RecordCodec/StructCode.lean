import RecordCodec.Catalog
import RecordCodec.Naming.Style

/-!
Source code for the records of a catalog: for each record a Rust struct with a field per declared
field and constants for its fingerprint and keys, and for each root a constructor that takes the
positional fields. Codecs need no code of their own.

Code is a list of lines. What a field's code may depend on is its accessor, key, type, target and
description.
-/

namespace RecordCodec.StructCode

open Text (quoted)

/-! ### Types -/

/-- The types that stand for scalars, free documents and maps; in the last a pair of empty braces
is replaced by the type of the values. -/
structure TypeMappings where
  string : String := "String"
  int : String := "i32"
  long : String := "i64"
  decimal : String := "serde_json::Number"
  boolean : String := "bool"
  document : String := "serde_json::Value"
  map : String := "std::collections::BTreeMap<String, \x7b\x7d>"
deriving DecidableEq, Repr

def TypeMappings.scalar (m : TypeMappings) : ScalarKind → String
  | .string => m.string
  | .int => m.int
  | .long => m.long
  | .decimal => m.decimal
  | .boolean => m.boolean

/-- Replaces every pair of empty braces. -/
def fillHoles (value : List Char) : List Char → List Char
  | '\x7b' :: '\x7d' :: rest => value ++ fillHoles value rest
  | c :: rest => c :: fillHoles value rest
  | [] => []

/-- The type at the leaf of a field with a struct leaf. -/
def structType (m : TypeMappings) (f : RecordField) : String :=
  let inner := match f.refersTo? with
    | some record => record.name
    | none => m.document
  if f.boxed then "Box<" ++ inner ++ ">" else inner

def typeText (m : TypeMappings) (f : RecordField) : FieldType → String
  | .scalar kind => m.scalar kind
  | .struct => structType m f
  | .list item => "Vec<" ++ typeText m f item ++ ">"
  | .map value => String.ofList (fillHoles (typeText m f value).toList m.map.toList)

/-! ### Field names -/

/-- Snake case: an underscore before each ASCII capital that follows a small letter or a digit,
and in place of each dash or blank. -/
def snakeFrom (afterLower : Bool) : List Char → List Char
  | [] => []
  | c :: rest =>
      if c.isUpper then
        (if afterLower then ['_'] else []) ++ c.toLower :: snakeFrom false rest
      else if c = '-' ∨ c = ' ' then '_' :: snakeFrom false rest
      else c :: snakeFrom (c.isLower || c.isDigit) rest

def snakeCase (s : String) : String := String.ofList (snakeFrom false s.toList)

/-- Words that cannot be used as names as they are. -/
def reservedWords : List String :=
  ["as", "async", "await", "break", "const", "continue", "crate", "dyn", "else", "enum", "extern",
   "false", "fn", "for", "if", "impl", "in", "let", "loop", "match", "mod", "move", "mut", "pub",
   "ref", "return", "static", "struct", "trait", "true", "type", "unsafe", "use", "where", "while",
   "yield"]

/-- The name of a field in code; a reserved word is written in raw form. -/
def fieldName (f : RecordField) : String :=
  let snake := snakeCase f.accessor
  if reservedWords.contains snake then "r#" ++ snake else snake

/-- A name without the marks of raw form in front. -/
def withoutRaw : List Char → List Char
  | 'r' :: '#' :: rest => withoutRaw rest
  | cs => cs

/-! ### Records -/

def fieldLines (m : TypeMappings) (f : RecordField) : List String :=
  let name := fieldName f
  (f.description.map fun d => "    /// " ++ d).toList ++
    (if withoutRaw name.toList = f.wireKey.toList then []
    else ["    #[serde(rename = " ++ quoted f.wireKey ++ ")]"]) ++
    ["    #[serde(default)]", "    pub " ++ name ++ ": Option<" ++ typeText m f f.type ++ ">,"]

def constantLine (f : RecordField) : String :=
  "    pub const " ++ f.constant ++ ": &'static str = " ++ quoted f.wireKey ++ ";"

def recordLines (m : TypeMappings) (r : RecordDefinition) : List String :=
  ["/// " ++ r.description.getD r.name.name,
    "#[derive(Debug, Clone, Default, PartialEq, Serialize, Deserialize)]",
    "pub struct " ++ r.name.name ++ " \x7b"] ++
  r.fields.flatMap (fieldLines m) ++
  ["\x7d", "",
    "impl " ++ r.name.name ++ " \x7b",
    "    pub const " ++ Naming.fingerprintConstant ++ ": i64 = " ++ r.fingerprint.text ++ ";"] ++
  r.fields.map constantLine ++
  ["\x7d", ""]

/-- The constructor that a builder becomes, for the record it builds. -/
def builderLines (m : TypeMappings) (b : Builder) (r : RecordDefinition) : List String :=
  let params := b.positional.filterMap r.field?
  ["impl " ++ b.record.name ++ " \x7b",
    "    pub fn new(" ++
      ", ".intercalate (params.map fun f => fieldName f ++ ": " ++ typeText m f f.type) ++
      ") -> Self \x7b",
    "        Self \x7b"] ++
  params.map (fun f => "            " ++ fieldName f ++ ": Some(" ++ fieldName f ++ "),") ++
  ["            ..Default::default()", "        \x7d", "    \x7d", "\x7d", ""]

def headerLines : List String :=
  ["//! Generated by schemac - DO NOT EDIT", "", "use serde::\x7bDeserialize, Serialize\x7d;", ""]

/-! ### Artifacts one after another -/

/-- The code so far, with the records already seen, the last one first. -/
structure Draft where
  lines : List String := headerLines
  seen : List RecordDefinition := []
deriving DecidableEq

/-- Adds the code of one artifact. A builder whose record has not been seen yet adds nothing. -/
def Draft.add (m : TypeMappings) (d : Draft) : Artifact → Draft
  | .record r => ⟨d.lines ++ recordLines m r, r :: d.seen⟩
  | .builder b =>
      match d.seen.find? (·.name = b.record) with
      | some r => { d with lines := d.lines ++ builderLines m b r }
      | none => d
  | .decoder _ => d
  | .encoder _ => d

def ofArtifacts (m : TypeMappings) (artifacts : List Artifact) : Draft :=
  artifacts.foldl (Draft.add m) {}

def Draft.text (d : Draft) : String := String.join (d.lines.map (· ++ "\n"))

/-- The number of structs in the code. -/
def Draft.typeCount (d : Draft) : Nat := d.seen.length

end RecordCodec.StructCode
