/-!
Sets of characters and maps between characters, given by runs of code points. A run holds every
`step`-th code point from `first` to `last`; alphabets that alternate upper and lower case need
step two. Tables stay short this way, and a question about a character is one pass over them.
-/

namespace RecordCodec.Text

structure CodeRun where
  first : Nat
  last : Nat
  step : Nat
deriving DecidableEq, Repr

def CodeRun.contains (r : CodeRun) (n : Nat) : Bool :=
  r.first ≤ n && n ≤ r.last && (n - r.first) % r.step == 0

/-- Is the character in one of the runs? -/
def inRuns (runs : List CodeRun) (c : Char) : Bool :=
  runs.any (·.contains c.toNat)

/-- A run of characters that a mapping moves by one distance. -/
structure ShiftRun extends CodeRun where
  shift : Int
deriving DecidableEq, Repr

/-- The image of a character under the first run that holds it. -/
def shifted? (runs : List ShiftRun) (c : Char) : Option Char :=
  (runs.find? (·.contains c.toNat)).map fun r =>
    Char.ofNat ((c.toNat : Int) + r.shift).toNat

end RecordCodec.Text
