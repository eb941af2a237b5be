import RecordCodec.Error
import RecordCodec.Record.Definition

/-!
Builders of root records. The fields that have a position are taken in the order of their
positions, fields with the same position in the order of declaration; all others are set by name.
A builder starts from the record's initial state and accepts declared fields only.
-/

namespace RecordCodec

structure Builder where
  name : QualifiedName
  record : QualifiedName
  positional : List String
  setters : List String
deriving DecidableEq, Repr

namespace Builder

/-- The fields with their positions, in the order in which a builder takes them. -/
def positionalFields (fields : List RecordField) : List (UInt32 × String) :=
  (fields.filterMap fun f => f.position.map fun p => (p, f.name)).mergeSort fun a b => a.1 ≤ b.1

def ofRecord (r : RecordDefinition) : Builder where
  name := r.names.builder
  record := r.name
  positional := (positionalFields r.fields).map Prod.snd
  setters := (r.fields.filter (·.position.isNone)).map (·.name)

/-- Is the field one that the builder knows? -/
def declares (b : Builder) (field : String) : Bool :=
  (b.positional ++ b.setters).contains field

/-- Sets one field by name. -/
def set (b : Builder) (record : Record) (field : String) (value : Value) : Except Error Record :=
  if b.declares field then .ok (record.set field value)
  else .error (.unknownField b.record.text field)

/-- Gives values to slots in order. -/
def fill (tooMany : Error) (record : Record) : List String → List Value → Except Error Record
  | _, [] => .ok record
  | [], _ :: _ => .error tooMany
  | slot :: slots, value :: values => fill tooMany (record.set slot value) slots values

/-- Gives values to the positional fields, from the first one on. -/
def setPositional (b : Builder) (record : Record) (values : List Value) : Except Error Record :=
  fill (.unknownField b.record.text
      ("<positional #" ++ Text.natText (b.positional.length + 1) ++ ">"))
    record b.positional values

end Builder
end RecordCodec
