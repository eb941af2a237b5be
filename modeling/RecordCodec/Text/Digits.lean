import RecordCodec.Text.DigitTable

/-!
Digits, the texts of integers, and reading integers back. Reading takes an optional sign and at
least one ASCII digit; leading zeros are allowed.
-/

namespace RecordCodec.Text

def isAsciiDigit (c : Char) : Bool := '0' ≤ c && c ≤ '9'

/-- A decimal digit of any script. -/
def isDecimalDigit (c : Char) : Bool :=
  if c.toNat < 128 then isAsciiDigit c else inRuns decimalDigitRuns c

/-- The number that a row of ASCII digits writes. -/
def digitsValue (cs : List Char) : Nat :=
  cs.foldl (fun n c => 10 * n + (c.toNat - 48)) 0

def natOfDigits? (cs : List Char) : Option Nat :=
  if cs ≠ [] ∧ cs.all isAsciiDigit then some (digitsValue cs) else none

/-- Reads an integer with an optional sign. -/
def readInt? : List Char → Option Int
  | '+' :: cs => (natOfDigits? cs).map Int.ofNat
  | '-' :: cs => (natOfDigits? cs).map fun n => -Int.ofNat n
  | cs => (natOfDigits? cs).map Int.ofNat

def natDigits (n : Nat) : List Char := Nat.toDigits 10 n

def intDigits (i : Int) : List Char :=
  if i < 0 then '-' :: natDigits i.natAbs else natDigits i.natAbs

def natText (n : Nat) : String := String.ofList (natDigits n)

def intText (i : Int) : String := String.ofList (intDigits i)

/-- Reads an integer of 32 bits; a number out of range is refused. -/
def readInt32? (s : String) : Option Int32 :=
  match readInt? s.toList with
  | some i =>
      if Int32.minValue.toInt ≤ i ∧ i ≤ Int32.maxValue.toInt then some (Int32.ofInt i) else none
  | none => none

/-- Reads an integer of 64 bits; a number out of range is refused. -/
def readInt64? (s : String) : Option Int64 :=
  match readInt? s.toList with
  | some i =>
      if Int64.minValue.toInt ≤ i ∧ i ≤ Int64.maxValue.toInt then some (Int64.ofInt i) else none
  | none => none

end RecordCodec.Text
