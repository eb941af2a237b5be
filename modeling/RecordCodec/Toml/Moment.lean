import RecordCodec.Text.Digits

/-!
Dates and times of TOML. Each is checked against the calendar and the clock, the second 60
included, and has one way to be written: a capital T between date and time, fractions of a second
without zeros at the end and to nine places, an offset in hours and minutes or Z for none.

They stand bare in a text. A quoted string can give one too, where it is said to be one, and the
clock is then read more freely.
-/

namespace RecordCodec.Toml

open Text (isAsciiDigit natOfDigits? natDigits)

structure Date where
  year : Nat
  month : Nat
  day : Nat
deriving DecidableEq, Repr

structure ClockTime where
  hour : Nat
  minute : Nat
  second : Nat
  nanosecond : Nat
deriving DecidableEq, Repr

inductive Offset where
  | zulu
  | minutes (east : Int)
deriving DecidableEq, Repr

inductive Moment where
  | date (date : Date)
  | time (time : ClockTime)
  | dateTime (date : Date) (time : ClockTime) (offset : Option Offset)
deriving DecidableEq, Repr

inductive MomentForm where
  | bare
  | quoted
deriving DecidableEq, Repr

/-- Only a quoted clock may show the hour 24. -/
def MomentForm.lastHour : MomentForm → Nat
  | .bare => 23
  | .quoted => 24

/-- A bare offset is a time of day; a quoted one is any that is not longer than a day. -/
def MomentForm.allowsOffset (form : MomentForm) (hours minutes : Nat) : Bool :=
  match form with
  | .bare => hours ≤ 23 && minutes ≤ 59
  | .quoted => 60 * hours + minutes ≤ 1440

/-! ### Reading -/

/-- The number of just so many digits at the front. -/
def takeNumber? (count : Nat) (cs : List Char) : Option (Nat × List Char) :=
  let digits := cs.take count
  if digits.length = count then
    (natOfDigits? digits).map fun n => (n, cs.drop count)
  else none

/-- The same after a mark that must come first. -/
def takeMarked? (mark : Char) (count : Nat) : List Char → Option (Nat × List Char)
  | c :: cs => if c = mark then takeNumber? count cs else none
  | [] => none

def isLeapYear (year : Nat) : Bool := year % 4 = 0 && (year % 100 ≠ 0 || year % 400 = 0)

/-- The number of days in a month; there are none in a month that does not exist. -/
def daysIn (year month : Nat) : Nat :=
  if month = 2 then (if isLeapYear year then 29 else 28)
  else if month = 4 || month = 6 || month = 9 || month = 11 then 30
  else if 1 ≤ month && month ≤ 12 then 31
  else 0

def takeDate? (cs : List Char) : Option (Date × List Char) := do
  let (year, cs) ← takeNumber? 4 cs
  let (month, cs) ← takeMarked? '-' 2 cs
  let (day, cs) ← takeMarked? '-' 2 cs
  if 1 ≤ day && day ≤ daysIn year month then some (⟨year, month, day⟩, cs) else none

/-- Nanoseconds, if a fraction begins here; further places are dropped. -/
def takeNanosecond? : List Char → Option (Nat × List Char)
  | '.' :: cs =>
      let digits := cs.takeWhile isAsciiDigit
      let places := digits.take 9 ++ List.replicate (9 - digits.length) '0'
      if digits.isEmpty then none
      else (natOfDigits? places).map fun n => (n, cs.dropWhile isAsciiDigit)
  | cs => some (0, cs)

def takeTime? (form : MomentForm) (cs : List Char) : Option (ClockTime × List Char) := do
  let (hour, cs) ← takeNumber? 2 cs
  let (minute, cs) ← takeMarked? ':' 2 cs
  let (second, cs) ← takeMarked? ':' 2 cs
  let (nanosecond, cs) ← takeNanosecond? cs
  if hour ≤ form.lastHour && minute ≤ 59 && second ≤ 60 then
    some (⟨hour, minute, second, nanosecond⟩, cs)
  else none

/-- Reads an offset to the end of the word. -/
def readOffset? (form : MomentForm) (cs : List Char) : Option (Option Offset) :=
  match cs with
  | [] => some none
  | ['Z'] => some (some .zulu)
  | ['z'] => some (some .zulu)
  | sign :: rest =>
      match takeNumber? 2 rest with
      | some (hours, rest) =>
          match takeMarked? ':' 2 rest with
          | some (minutes, []) =>
              let east : Int := 60 * hours + minutes
              if !form.allowsOffset hours minutes then none
              else if sign = '+' then some (some (.minutes east))
              else if sign = '-' then some (some (.minutes (-east)))
              else none
          | _ => none
      | none => none

/-- Reads a text that is a date, a time, or both. -/
def Moment.ofChars? (form : MomentForm) (cs : List Char) : Option Moment :=
  match takeDate? cs with
  | some (d, []) => some (.date d)
  | some (d, delimiter :: rest) =>
      if delimiter = 'T' || delimiter = 't' || delimiter = ' ' then do
        let (t, rest) ← takeTime? form rest
        let offset ← readOffset? form rest
        return .dateTime d t offset
      else none
  | none =>
      match takeTime? form cs with
      | some (t, []) => some (.time t)
      | _ => none

/-! ### Writing -/

/-- A number with zeros in front, so that it has at least so many digits. -/
def paddedDigits (count n : Nat) : List Char :=
  List.replicate (count - (natDigits n).length) '0' ++ natDigits n

def Date.chars (d : Date) : List Char :=
  paddedDigits 4 d.year ++ '-' :: (paddedDigits 2 d.month ++ '-' :: paddedDigits 2 d.day)

def fractionChars (nanosecond : Nat) : List Char :=
  if nanosecond = 0 then []
  else '.' :: ((paddedDigits 9 nanosecond).reverse.dropWhile (· = '0')).reverse

def ClockTime.chars (t : ClockTime) : List Char :=
  paddedDigits 2 t.hour ++ ':' :: (paddedDigits 2 t.minute ++ ':' ::
    (paddedDigits 2 t.second ++ fractionChars t.nanosecond))

def Offset.chars : Offset → List Char
  | .zulu => ['Z']
  | .minutes east =>
      (if east < 0 then '-' else '+') ::
        (paddedDigits 2 (east.natAbs / 60) ++ ':' :: paddedDigits 2 (east.natAbs % 60))

def Moment.chars : Moment → List Char
  | .date d => d.chars
  | .time t => t.chars
  | .dateTime d t offset =>
      d.chars ++ 'T' :: (t.chars ++ (match offset with
        | some o => o.chars
        | none => []))

def Moment.text (m : Moment) : String := String.ofList m.chars

end RecordCodec.Toml
