import RecordCodec.Text.Digits
import RecordCodec.Text.Quoted

/-!
Where a value stands. A `Path` leads from the root of a record to a value in a document and is
shown by messages about documents; a `Place` leads through the nested properties of a schema and
is shown by messages about schemas.
-/

namespace RecordCodec

open Text (quoted natText)

inductive Segment where
  | root (name : String)
  | field (name : String)
  | index (position : Nat)
  | key (name : String)
deriving DecidableEq, Repr

def Segment.text : Segment → String
  | .root name => name
  | .field name => "." ++ name
  | .index position => "[" ++ natText position ++ "]"
  | .key name => "[" ++ quoted name ++ "]"

structure Path where
  segments : List Segment
deriving DecidableEq, Repr

namespace Path

def empty : Path := ⟨[]⟩

def root (name : String) : Path := ⟨[.root name]⟩

def push (path : Path) (segment : Segment) : Path := ⟨path.segments ++ [segment]⟩

/-- Drops the last segment, if there is one. -/
def pop (path : Path) : Path := ⟨path.segments.dropLast⟩

def text (path : Path) : String :=
  if path.segments.isEmpty then "<root>" else String.join (path.segments.map Segment.text)

end Path

/-- A place in a schema: the names from a root field downwards. -/
abbrev Place := List String

def Place.text (place : Place) : String := ".".intercalate place

end RecordCodec
