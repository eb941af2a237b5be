import RecordCodec.Codec.Plan
import RecordCodec.Value

/-!
The generated decoder and encoder of a record. A decoder finds fields by their key in a document,
in any order; an encoder writes them in the order of declaration.
-/

namespace RecordCodec

structure DecodeField where
  field : String
  wireKey : String
  plan : Plan CodecRef
  /-- What the field holds when its key is absent. -/
  default : Option Value
deriving DecidableEq

structure Decoder where
  name : QualifiedName
  record : QualifiedName
  fields : List DecodeField
deriving DecidableEq

namespace Decoder

/-- The field to which a key belongs; values under other keys are skipped. -/
def fieldFor? (d : Decoder) (key : String) : Option DecodeField :=
  d.fields.find? (·.wireKey = key)

/-- The record before any key is read: defaults where there are any, null elsewhere. -/
def initial (d : Decoder) : Record :=
  d.fields.foldl (fun r f => r.set f.field (f.default.getD .null)) (.blank d.record)

end Decoder

structure EncodeField where
  field : String
  wireKey : String
  plan : Plan CodecRef
deriving DecidableEq, Repr

structure Encoder where
  name : QualifiedName
  record : QualifiedName
  fields : List EncodeField
deriving DecidableEq, Repr

/-- The two codecs of one record. -/
structure CodecPair where
  decoder : Decoder
  encoder : Encoder
deriving DecidableEq

end RecordCodec
