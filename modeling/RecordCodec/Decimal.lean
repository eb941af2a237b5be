import RecordCodec.Text.Blank
import RecordCodec.Text.Digits

/-!
Exact decimal numbers. A decimal is a sign, a row of digits and a scale: the number is the digits
times ten to the minus scale. Normal form drops zeros at both ends, so that equal numbers have
equal digits; zero is the single digit `0`.

Literals may use the digits of any script, which are kept as they are written. The length of a row
of digits, which decides where the point falls, is counted in bytes of UTF-8; for the digits `0`
to `9` that is their number.
-/

namespace RecordCodec

structure Decimal where
  negative : Bool
  digits : List Char
  scale : Int
deriving DecidableEq, Repr

namespace Decimal

open Text (isDecimalDigit natDigits readInt?)

def zero : Decimal := ⟨false, ['0'], 0⟩

def isZero (d : Decimal) : Bool := d.digits = ['0']

def byteLength (cs : List Char) : Nat := cs.foldr (fun c n => c.utf8Size + n) 0

/-- The number of zeros at the end of a row of digits. -/
def trailingZeros (digits : List Char) : Nat := (digits.reverse.takeWhile (· = '0')).length

/-- The decimal of any row of digits, in normal form. -/
def normalize (negative : Bool) (digits : List Char) (scale : Int) : Decimal :=
  let digits := digits.dropWhile (· = '0')
  if digits = [] then zero
  else
    let zeros := trailingZeros digits
    ⟨negative, digits.take (digits.length - zeros), scale - zeros⟩

def ofInt (i : Int) : Decimal := normalize (i < 0) (natDigits i.natAbs) 0

/-! ### Reading

A literal is an optional sign, digits, an optional fraction and an optional exponent, with blanks
around it. -/

/-- Why a text denotes no decimal. An exponent equal to the least 64-bit integer has no magnitude
among those integers, and is told apart from a literal out of form. -/
inductive Fault where
  | malformed
  | exponentOverflow
deriving DecidableEq, Repr

/-- The largest magnitude of an exponent. -/
def maxExponent : Int := 4096

/-- Takes a sign off the front. -/
def takeSign : List Char → Bool × List Char
  | '+' :: r => (false, r)
  | '-' :: r => (true, r)
  | r => (false, r)

/-- Takes a fraction off the front: its digits, none if no point is there. -/
def takeFraction? : List Char → Option (List Char × List Char)
  | '.' :: r =>
      let digits := r.takeWhile isDecimalDigit
      if digits = [] then none else some (digits, r.dropWhile isDecimalDigit)
  | r => some ([], r)

def readExponent : List Char → Except Fault Int
  | [] => .ok 0
  | mark :: r =>
      if mark = 'e' ∨ mark = 'E' then
        match readInt? r with
        | none => .error .malformed
        | some e =>
            if e = Int64.minValue.toInt then .error .exponentOverflow
            else if e.natAbs ≤ maxExponent then .ok e
            else .error .malformed
      else .error .malformed

/-- Reads a literal whose blanks and sign are off. -/
def readUnsigned (negative : Bool) (cs : List Char) : Except Fault Decimal :=
  let whole := cs.takeWhile isDecimalDigit
  if whole = [] then .error .malformed
  else match takeFraction? (cs.dropWhile isDecimalDigit) with
    | none => .error .malformed
    | some (fraction, rest) =>
        (readExponent rest).map fun e =>
          normalize negative (whole ++ fraction) (byteLength fraction - e)

def read (text : String) : Except Fault Decimal :=
  let (negative, cs) := takeSign (Text.trim text.toList)
  readUnsigned negative cs

/-! ### Order -/

/-- Orders by distance from zero: by the place of the leading digit, then digit by digit. -/
def compareMagnitude (a b : Decimal) : Ordering :=
  match a.isZero, b.isZero with
  | true, true => .eq
  | true, false => .lt
  | false, true => .gt
  | false, false =>
      (compare ((byteLength a.digits : Int) - a.scale) ((byteLength b.digits : Int) - b.scale)).then
        (compare a.digits b.digits)

def compare (a b : Decimal) : Ordering :=
  match a.negative, b.negative with
  | false, true => .gt
  | true, false => .lt
  | false, false => a.compareMagnitude b
  | true, true => b.compareMagnitude a

/-! ### Writing -/

/-- Cuts a text after its first `n` bytes, or after the character in which that byte lies. -/
def splitBytes (n : Nat) : List Char → List Char × List Char
  | [] => ([], [])
  | c :: cs =>
      if n = 0 then ([], c :: cs)
      else
        let (front, back) := splitBytes (n - c.utf8Size) cs
        (c :: front, back)

/-- The number of bytes before the point, when the point falls among the digits. -/
def wholeBytes (d : Decimal) : Nat := ((byteLength d.digits : Int) - d.scale).toNat

/-- Does the point fall between two characters? For the digits `0` to `9` it always does. -/
def isWritable (d : Decimal) : Bool :=
  d.scale ≤ 0 || (byteLength d.digits : Int) ≤ d.scale ||
    byteLength (splitBytes d.wholeBytes d.digits).1 = d.wholeBytes

def magnitudeChars (d : Decimal) : List Char :=
  if d.scale ≤ 0 then d.digits ++ List.replicate (-d.scale).toNat '0'
  else if (byteLength d.digits : Int) ≤ d.scale then
    '0' :: '.' :: (List.replicate (d.scale - byteLength d.digits).toNat '0' ++ d.digits)
  else
    let (front, back) := splitBytes d.wholeBytes d.digits
    front ++ '.' :: back

def chars (d : Decimal) : List Char :=
  if d.negative then '-' :: d.magnitudeChars else d.magnitudeChars

/-- The decimal in positional notation, without an exponent. -/
def text (d : Decimal) : String := String.ofList d.chars

end Decimal
end RecordCodec
