import RecordCodec.Codec.Basic

/-!
Codecs under way. A record's name is reserved before its fields are generated, so that a reference
back to it is seen to be one; the codecs fill the reservation when they are done and are taken out
once at the end.
-/

namespace RecordCodec

/-- Names with their codecs, or with none while they are only reserved. -/
structure Reservations where
  slots : List (QualifiedName × Option CodecPair)
deriving DecidableEq

namespace Reservations

def empty : Reservations := ⟨[]⟩

def holds (r : Reservations) (name : QualifiedName) : Bool := r.slots.any (·.1 = name)

/-- Reserves a name unless it is there already. -/
def reserve? (r : Reservations) (name : QualifiedName) : Option Reservations :=
  if r.holds name then none else some ⟨(name, none) :: r.slots⟩

def without (r : Reservations) (name : QualifiedName) :
    List (QualifiedName × Option CodecPair) :=
  r.slots.filter (·.1 ≠ name)

/-- Stores the codecs of the record they decode. -/
def fill (r : Reservations) (pair : CodecPair) : Reservations :=
  ⟨(pair.decoder.record, some pair) :: r.without pair.decoder.record⟩

def find? (r : Reservations) (name : QualifiedName) : Option CodecPair :=
  (r.slots.find? (·.1 = name)).bind (·.2)

/-- Takes codecs out; a mere reservation stays. -/
def take? (r : Reservations) (name : QualifiedName) : Option (CodecPair × Reservations) :=
  (r.find? name).map fun pair => (pair, ⟨r.without name⟩)

/-- The names reserved without codecs, in order. -/
def pending (r : Reservations) : List QualifiedName :=
  ((r.slots.filter (·.2.isNone)).map (·.1)).mergeSort fun a b => a.compare b != .gt

end Reservations
end RecordCodec
