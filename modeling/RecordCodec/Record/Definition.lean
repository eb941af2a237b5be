import RecordCodec.Codec.Basic
import RecordCodec.Fingerprint
import RecordCodec.Record.Methods

/-!
Definitions of generated records. A field whose leaf is a struct points at another generated
record or at a free document; from its type and target follow its signature and the plans by which
it is decoded, encoded, compared and copied.
-/

namespace RecordCodec

/-- What a field with a struct leaf points at. -/
inductive Target where
  | generated (names : ArtifactNames)
  | document
deriving DecidableEq, Repr

def Target.names? : Target → Option ArtifactNames
  | .generated names => some names
  | .document => none

def Target.record? (t : Target) : Option QualifiedName := t.names?.map (·.record)

structure RecordField where
  name : String
  wireKey : String
  accessor : String
  constant : String
  type : FieldType
  /-- Present for struct leaves only. -/
  target : Option Target
  /-- The text of the type that enters the fingerprint. -/
  signature : String
  description : Option String := none
  default : Option Value := none
  sample : Option Json := none
  position : Option UInt32 := none
  /-- A direct reference into the record's own cycle. -/
  boxed : Bool := false
deriving DecidableEq

namespace RecordField

def names? (f : RecordField) : Option ArtifactNames := f.target.bind Target.names?

/-- The record that the field refers to. -/
def refersTo? (f : RecordField) : Option QualifiedName := f.target.bind Target.record?

end RecordField

/-- The text of a type with the name of the target in place of a struct leaf. -/
def signature (target : Option Target) : FieldType → String
  | .scalar kind => kind.token
  | .struct => ((target.bind Target.record?).map (·.name)).getD FieldType.struct.text
  | .list item => signature target item ++ "_LIST"
  | .map value => signature target value ++ "_MAP"

structure RecordDefinition where
  names : ArtifactNames
  identity : Option String := none
  description : Option String := none
  fields : List RecordField
  capabilities : List String := []
  fingerprint : Fingerprint := ⟨0⟩
  methods : List FieldMethod := []
  /-- Made for a root of the schema. -/
  root : Bool := false
  /-- Part of a cycle of references. -/
  recursive : Bool := false
deriving DecidableEq

namespace RecordDefinition

def name (r : RecordDefinition) : QualifiedName := r.names.record

def field? (r : RecordDefinition) (name : String) : Option RecordField :=
  r.fields.find? (·.name = name)

end RecordDefinition

/-! ### What follows from the fields -/

namespace RecordField

def decodeRef? (f : RecordField) : Option CodecRef :=
  f.names?.map fun n => ⟨n.record, n.decoder⟩

def encodeRef? (f : RecordField) : Option CodecRef :=
  f.names?.map fun n => ⟨n.record, n.encoder⟩

def decodeField (f : RecordField) : DecodeField :=
  ⟨f.name, f.wireKey, .ofType f.decodeRef? f.type, f.default⟩

def encodeField (f : RecordField) : EncodeField :=
  ⟨f.name, f.wireKey, .ofType f.encodeRef? f.type⟩

def method (f : RecordField) : FieldMethod :=
  ⟨f.name, f.accessor, .ofType f.refersTo? f.type, .ofType f.refersTo? f.type⟩

end RecordField

/-- Both codecs of a record. -/
def CodecPair.generate (names : ArtifactNames) (fields : List RecordField) : CodecPair where
  decoder := ⟨names.decoder, names.record, fields.map RecordField.decodeField⟩
  encoder := ⟨names.encoder, names.record, fields.map RecordField.encodeField⟩

end RecordCodec
