import RecordCodec.Binary64.Text
import RecordCodec.Json.Basic

/-!
Settled documents. A literal that a machine number stands for exactly as it is written is settled
as that number, and is then written as the number is. Integers of up to 128 bits are written
without a sign in front of zero. Any other literal must be the positional text of a floating-point
number; the number is written with the fewest digits, the even ones of two as near, and with an
exponent when the first digit stands below the fifth decimal place or above the 16th place before
the point. Every other literal stays as it is.
-/

namespace RecordCodec

namespace Numeral

open Text (digitsValue natDigits)

/-- A number in scientific notation. -/
def scientific (negative : Bool) (digits : List Char) (exponent : Int) : List Char :=
  let mantissa := match digits with
    | d :: e :: rest => d :: '.' :: e :: rest
    | digits => digits
  (if negative then ['-'] else []) ++ mantissa ++
    'e' :: (if exponent < 0 then '-' else '+') :: natDigits exponent.natAbs

/-- Digits times ten to the exponent, which is a fraction or has more than 16 places. -/
def floatChars (negative : Bool) (digits : List Char) (exponent : Int) : List Char :=
  let place := digits.length + exponent - 1
  if -5 ≤ place && place < 16 then (Decimal.mk negative digits (-exponent)).chars
  else scientific negative digits place

/-- An integer of up to 128 bits. -/
def isMachineInteger (negative : Bool) (magnitude : Nat) : Bool :=
  if negative then magnitude ≤ Nat.pow 2 127 else magnitude < Nat.pow 2 128

/-- The literal of the floating-point number whose positional text this is. -/
def settledFloat? (text : String) : Option (List Char) :=
  match Binary64.ofText? text with
  | some (.finite negative magnitude) =>
      if magnitude ≠ 0 && (Binary64.finite negative magnitude).text = text then
        (Binary64.shortest? .even magnitude).map fun (digits, exponent) =>
          floatChars negative (natDigits digits) exponent
      else none
  | _ => none

/-- The literal of the machine number that stands for a literal in pieces, if it differs. -/
def settledChars? (p : Parts) : Option (List Char) :=
  if p.exponent.isNone then
    if p.fraction.isEmpty && isMachineInteger p.negative (digitsValue p.whole) then
      if p.negative && p.whole = ['0'] then some ['0'] else none
    else settledFloat? (String.ofList p.chars)
  else none

def settled (n : Numeral) : Numeral :=
  match ((read? n.text.toList).bind settledChars?).bind fun cs => ofText? (String.ofList cs) with
  | some m => m
  | none => n

end Numeral

namespace Json

/-- What settled entries stand for: an object whose least key is the number key spells a number. -/
def ofSettled? (entries : List (String × Json)) : Option Json :=
  match entries.head? with
  | some (key, value) =>
      if key = numberKey then spelledNumber? value entries.length else some (.object entries)
  | none => some (.object [])

mutual

/-- The document with every number settled, unless an object in it spells no number although it has
the number key. -/
def settled? : Json → Option Json
  | .null => some .null
  | .bool b => some (.bool b)
  | .number n => some (.number n.settled)
  | .string s => some (.string s)
  | .array items => (settledItems? items).map .array
  | .object entries => (settledEntries? entries).bind ofSettled?

def settledItems? : List Json → Option (List Json)
  | [] => some []
  | j :: rest => do
      let j ← settled? j
      let rest ← settledItems? rest
      return j :: rest

def settledEntries? : List (String × Json) → Option (List (String × Json))
  | [] => some []
  | (key, j) :: rest => do
      let j ← settled? j
      let rest ← settledEntries? rest
      return (key, j) :: rest

end

end Json
end RecordCodec
