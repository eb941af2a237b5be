import RecordCodec.Digest
import RecordCodec.Text.Digits

/-!
Compatibility fingerprints: the head of the digest of a text that spells out a record's shape, as
a signed number of 64 bits.
-/

namespace RecordCodec

structure Fingerprint where
  value : Int64
deriving DecidableEq, Repr

namespace Fingerprint

/-- The number that eight bytes write, the highest first. -/
def foldBytes (bytes : List UInt8) : UInt64 :=
  bytes.foldl (fun n b => (n <<< 8) ||| b.toUInt64) 0

def ofBytes (bytes : List UInt8) : Fingerprint :=
  ⟨(foldBytes ((Digest.sha256 bytes).take 8)).toInt64⟩

/-- A record's name, its fields with the signatures of their types, and its capabilities, run
together. -/
def shapeText (name : String) (fields : List (String × String)) (capabilities : List String) :
    String :=
  name ++ String.join (fields.map fun f => f.1 ++ ":" ++ f.2) ++ String.join capabilities

def ofShape (name : String) (fields : List (String × String)) (capabilities : List String) :
    Fingerprint :=
  ofBytes (shapeText name fields capabilities).toUTF8.toList

def text (f : Fingerprint) : String := Text.intText f.value.toInt

end Fingerprint
end RecordCodec
