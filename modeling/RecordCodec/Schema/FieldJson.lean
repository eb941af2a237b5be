import RecordCodec.Error
import RecordCodec.Json.Settled
import RecordCodec.Schema.Field

/-!
Fields as JSON. Writing leaves out what a field does not declare; a field is written to a text, or
as a document, whose objects are in key order. Reading ignores keys it does not know and takes null
for an absent key wherever a key may be absent; a default or sample of null is therefore no default
or sample. Keys are looked at in their order, and the first that does not fit is the reason of
refusal. The roots of a schema have settled defaults and samples.
-/

namespace RecordCodec.Field

/-! ### Writing -/

def stringEntry (key : String) : Option String → List (String × Json)
  | some s => [(key, .string s)]
  | none => []

def jsonEntry (key : String) : Option Json → List (String × Json)
  | some j => [(key, j)]
  | none => []

def positionEntry (position : Option UInt32) : List (String × Json) :=
  match position.bind fun p => Numeral.ofText? (Text.natText p.toNat) with
  | some n => [("position", .number n)]
  | none => []

def listEntry (key : String) (items : List Json) : List (String × Json) :=
  if items.isEmpty then [] else [(key, .array items)]

/-- What a field declares, in the order of declaration, with its nested fields written already. -/
def entries (f : Field) (nested : List Json) : List (String × Json) :=
  [("name", .string f.name)] ++ stringEntry "type" (f.type.map FieldType.text) ++
    stringEntry "wireName" f.wireName ++ stringEntry "description" f.description ++
    jsonEntry "defaultValue" f.default ++ jsonEntry "sampleValue" f.sample ++
    listEntry "properties" nested ++ stringEntry "objectIdentity" f.identity ++
    listEntry "capabilities" (f.capabilities.map .string) ++ positionEntry f.position

mutual

/-- A field as it is written to a text: the keys stand in the order of declaration. -/
def toJson : Field → Json
  | f@{ properties := ps, .. } => .object (f.entries (allToJson ps))

def allToJson : List Field → List Json
  | [] => []
  | f :: rest => toJson f :: allToJson rest

end

mutual

/-- A field as a document: the entries of an object stand in key order. -/
def document : Field → Json
  | f@{ properties := ps, .. } => .object (Entries.ofList (f.entries (documents ps)))

def documents : List Field → List Json
  | [] => []
  | f :: rest => document f :: documents rest

end

/-! ### Reading -/

/-- A key that may be absent and holds a string. -/
def readString (entries : List (String × Json)) (key : String) :
    Except JsonFault (Option String) :=
  match Entries.get? key entries with
  | none => .ok none
  | some .null => .ok none
  | some (.string s) => .ok (some s)
  | some _ => .error .misfit

/-- A key that may be absent and holds any document that the reader takes. -/
def readDocument (take : Json → Option Json) (entries : List (String × Json)) (key : String) :
    Except JsonFault (Option Json) :=
  match Entries.get? key entries with
  | none => .ok none
  | some .null => .ok none
  | some j =>
      match take j with
      | some j => .ok (some j)
      | none => .error .misfit

def readStrings : List Json → Except JsonFault (List String)
  | [] => .ok []
  | .string s :: rest => (readStrings rest).map (s :: ·)
  | _ :: _ => .error .misfit

def readCapabilities (entries : List (String × Json)) : Except JsonFault (List String) :=
  match Entries.get? "capabilities" entries with
  | none => .ok []
  | some (.array items) => readStrings items
  | some _ => .error .misfit

/-- The name, if the key is there; whether it may be missing is decided last. -/
def readName (entries : List (String × Json)) : Except JsonFault (Option String) :=
  match Entries.get? "name" entries with
  | none => .ok none
  | some (.string s) => .ok (some s)
  | some _ => .error .misfit

/-- A position is written in digits alone and has 32 bits. -/
def readPosition (entries : List (String × Json)) : Except JsonFault (Option UInt32) :=
  match Entries.get? "position" entries with
  | none => .ok none
  | some .null => .ok none
  | some (.number n) =>
      match Text.natOfDigits? n.text.toList with
      | some p => if p < UInt32.size then .ok (some (UInt32.ofNat p)) else .error .misfit
      | none => .error .misfit
  | some _ => .error .misfit

def readType (entries : List (String × Json)) : Except JsonFault (Option FieldType) :=
  match readString entries "type" with
  | .error fault => .error fault
  | .ok none => .ok none
  | .ok (some text) =>
      match FieldType.ofText? text with
      | .ok type => .ok (some type)
      | .error fault => .error (.typeName text fault)

mutual

/-- Reads a field whose default, sample and those below it are taken as `take` gives them. -/
def ofJson (take : Json → Option Json) : Json → Except JsonFault Field
  | .object entries => do
      let capabilities ← readCapabilities entries
      let default ← readDocument take entries "defaultValue"
      let description ← readString entries "description"
      let name? ← readName entries
      let identity ← readString entries "objectIdentity"
      let position ← readPosition entries
      let properties ← propertiesOf take entries
      let sample ← readDocument take entries "sampleValue"
      let type ← readType entries
      let wireName ← readString entries "wireName"
      match name? with
      | none => .error .misfit
      | some name =>
          .ok { name, type, wireName, description, default, sample, properties, identity,
                capabilities, position }
  | _ => .error .misfit

/-- The nested fields among an object's entries. -/
def propertiesOf (take : Json → Option Json) :
    List (String × Json) → Except JsonFault (List Field)
  | [] => .ok []
  | (key, j) :: rest =>
      if key = "properties" then
        match j with
        | .array items => allOfJson take items
        | _ => .error .misfit
      else propertiesOf take rest

def allOfJson (take : Json → Option Json) : List Json → Except JsonFault (List Field)
  | [] => .ok []
  | j :: rest => do
      let f ← ofJson take j
      let fs ← allOfJson take rest
      return f :: fs

end

/-- The roots of a schema: an array of fields, whose defaults and samples are settled. -/
def rootsOfJson : Json → Except JsonFault (List Field)
  | .array items => allOfJson Json.settled? items
  | _ => .error .misfit

end RecordCodec.Field
