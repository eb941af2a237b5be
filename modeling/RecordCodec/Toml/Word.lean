import RecordCodec.Binary64.Text
import RecordCodec.Config.Basic
import RecordCodec.Json.Parser
import RecordCodec.Toml.Moment

/-!
The values of TOML that are written without quotes: truth values, whole and floating-point numbers,
dates and times. Between two digits of a number one underscore may stand.
-/

namespace RecordCodec.Toml

open Text (isAsciiDigit)

/-- Takes the underscores out of a row of digits. -/
def ungroup? (isDigit : Char → Bool) : List Char → Option (List Char)
  | [] => none
  | [d] => if isDigit d then some [d] else none
  | d :: '_' :: rest => if isDigit d then (ungroup? isDigit rest).map (d :: ·) else none
  | d :: rest => if isDigit d then (ungroup? isDigit rest).map (d :: ·) else none

/-- Takes a sign off the front. -/
def takeSign : List Char → List Char × List Char
  | '+' :: rest => (['+'], rest)
  | '-' :: rest => (['-'], rest)
  | rest => ([], rest)

/-- Decimal digits of a whole number, which do not begin with a zero. -/
def wholeDigits? (cs : List Char) : Option (List Char) :=
  (ungroup? isAsciiDigit cs).filter fun digits => digits.length = 1 || digits.head? ≠ some '0'

/-- A whole number of 64 bits. -/
def wholeNumber? (text : List Char) : Option ConfigValue :=
  (Text.readInt64? (String.ofList text)).map fun i => .number (Text.intText i.toInt)

def readDecimalWord? (cs : List Char) : Option ConfigValue :=
  let (sign, rest) := takeSign cs
  (wholeDigits? rest).bind fun digits => wholeNumber? (sign ++ digits)

/-- A whole number in base 16, 8 or 2, after the zero and the letter of the base. -/
def readBasedWord? (base : Nat) (cs : List Char) : Option ConfigValue :=
  let digit? (c : Char) : Option Nat := (Json.hexValue? c).filter (· < base)
  (ungroup? (fun c => (digit? c).isSome) cs).bind fun digits =>
    wholeNumber? (Text.natDigits
      (digits.foldl (fun n c => base * n + (digit? c).getD 0) 0))

/-- The exponent of a floating-point number, as an exponent that any reader takes. -/
def exponentWord? : List Char → Option (List Char)
  | [] => some []
  | mark :: rest =>
      let (sign, digits) := takeSign rest
      if mark = 'e' || mark = 'E' then
        (ungroup? isAsciiDigit digits).map fun digits => 'e' :: (sign ++ digits)
      else none

/-- The fraction and exponent of a floating-point number without underscores. -/
def fractionWord? : List Char → Option (List Char)
  | '.' :: rest => do
      let isExponent (c : Char) : Bool := c == 'e' || c == 'E'
      let digits ← ungroup? isAsciiDigit (rest.takeWhile fun c => !isExponent c)
      let exponent ← exponentWord? (rest.dropWhile fun c => !isExponent c)
      return '.' :: (digits ++ exponent)
  | rest => exponentWord? rest

/-- A floating-point number, which has a fraction or an exponent; above the finite ones there is
only the word for infinity. -/
def readFloatWord? (cs : List Char) : Option ConfigValue := do
  let (sign, rest) := takeSign cs
  let isWhole (c : Char) : Bool := isAsciiDigit c || c == '_'
  let digits ← wholeDigits? (rest.takeWhile isWhole)
  let fraction ← (fractionWord? (rest.dropWhile isWhole)).filter (!·.isEmpty)
  let number ← Binary64.ofText? (String.ofList (sign ++ digits ++ fraction))
  if number = .infinite false then none else some (.number number.text)

/-- The words that stand for themselves, with or without a sign. -/
def readNamedWord? (cs : List Char) : Option ConfigValue :=
  match String.ofList cs with
  | "true" => some (.flag true)
  | "false" => some (.flag false)
  | "inf" => some (.number (Binary64.infinite false).text)
  | "+inf" => some (.number (Binary64.infinite false).text)
  | "-inf" => some (.number (Binary64.infinite true).text)
  | "nan" => some (.number Binary64.nan.text)
  | "+nan" => some (.number Binary64.nan.text)
  | "-nan" => some (.number Binary64.nan.text)
  | _ => none

/-- Reads a word that is a value without quotes. -/
def readWord? (cs : List Char) : Option ConfigValue :=
  match cs with
  | '0' :: 'x' :: digits => readBasedWord? 16 digits
  | '0' :: 'o' :: digits => readBasedWord? 8 digits
  | '0' :: 'b' :: digits => readBasedWord? 2 digits
  | cs =>
      match readNamedWord? cs, readDecimalWord? cs, readFloatWord? cs with
      | some value, _, _ => some value
      | none, some value, _ => some value
      | none, none, some value => some value
      | none, none, none => (Moment.ofChars? .bare cs).map fun moment => .text moment.text

end RecordCodec.Toml
