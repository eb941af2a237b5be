import RecordCodec.Binary64
import RecordCodec.Decimal

/-!
Texts of 64-bit floating-point numbers. Reading takes the nearest number and knows infinity and the
number that is none; writing is positional and uses the fewest digits that are read back as the
same number, the upper ones where two are as near.
-/

namespace RecordCodec

/-- A floating-point number; finite magnitudes are counted in units of the least. -/
inductive Binary64 where
  | nan
  | infinite (negative : Bool)
  | finite (negative : Bool) (magnitude : Nat)
deriving DecidableEq, Repr

namespace Binary64

open Text (isAsciiDigit digitsValue natOfDigits? natDigits)

/-- The number nearest to digits times ten to the exponent. Far outside the range of finite
magnitudes the power of ten is not worked out. -/
def ofDigits (negative : Bool) (digits : List Char) (exponent : Int) : Binary64 :=
  let digits := digits.dropWhile (· = '0')
  let places := digits.length + exponent
  if digits.isEmpty || places < -330 then .finite negative 0
  else if 310 < places then .infinite negative
  else
    let magnitude := ofDecimal (digitsValue digits) exponent
    if magnitude < bound then .finite negative magnitude else .infinite negative

/-- Reads an exponent with its mark; where nothing is left, it is zero. -/
def readExponent? : List Char → Option Int
  | [] => some 0
  | mark :: rest => if mark = 'e' || mark = 'E' then Text.readInt? rest else none

/-- Reads a fraction, if one begins here, with what follows it. The point may stand alone. -/
def readFraction : List Char → List Char × List Char
  | '.' :: rest => (rest.takeWhile isAsciiDigit, rest.dropWhile isAsciiDigit)
  | rest => ([], rest)

/-- Reads digits with an optional point among or beside them and an optional exponent. -/
def readFinite? (negative : Bool) (cs : List Char) : Option Binary64 :=
  let whole := cs.takeWhile isAsciiDigit
  let (fraction, rest) := readFraction (cs.dropWhile isAsciiDigit)
  if whole.isEmpty && fraction.isEmpty then none
  else (readExponent? rest).map fun exponent =>
    ofDigits negative (whole ++ fraction) (exponent - fraction.length)

/-- Reads a number whose sign is off. Words count in small and capital letters. -/
def readUnsigned? (negative : Bool) (cs : List Char) : Option Binary64 :=
  let word := cs.map Char.toLower
  if word = "inf".toList || word = "infinity".toList then some (.infinite negative)
  else if word = "nan".toList then some .nan
  else readFinite? negative cs

/-- Reads a text that is a number and nothing else. -/
def ofText? (text : String) : Option Binary64 :=
  match text.toList with
  | '+' :: rest => readUnsigned? false rest
  | '-' :: rest => readUnsigned? true rest
  | cs => readUnsigned? false cs

/-- The digits of a magnitude, as an exact decimal. Zero keeps its sign. -/
def toDecimal (negative : Bool) (magnitude : Nat) : Decimal :=
  match if magnitude = 0 then none else shortest? .up magnitude with
  | some (digits, exponent) => ⟨negative, natDigits digits, -exponent⟩
  | none => ⟨negative, ['0'], 0⟩

/-- The number in positional notation. -/
def text : Binary64 → String
  | .nan => "NaN"
  | .infinite negative => if negative then "-inf" else "inf"
  | .finite negative magnitude => (toDecimal negative magnitude).text

end Binary64
end RecordCodec
