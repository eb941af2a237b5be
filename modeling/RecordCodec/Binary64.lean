/-!
Decimal texts of 64-bit floating-point numbers. Magnitudes are counted in units of the least
positive number, two to the minus 1074, so that every finite magnitude is a natural number and no
step of the arithmetic rounds but the one that is meant to.
-/

namespace RecordCodec.Binary64

/-- The number of units in one. -/
def unit : Nat := Nat.pow 2 1074

/-- Where finite magnitudes end, in units. -/
def bound : Nat := Nat.pow 2 1024 * unit

/-- The quotient as a natural number, a half going to the even neighbour. -/
def roundToEven (num den : Nat) : Nat :=
  let q := num / den
  let r := num % den
  if 2 * r < den ∨ (2 * r = den ∧ q % 2 = 0) then q else q + 1

/-- The units of the magnitude nearest to a quotient. A magnitude has at most 53 binary digits in
front of its zeros. -/
def nearest (num den : Nat) : Nat :=
  let step := Nat.pow 2 (Nat.log2 (num * unit / den) - 52)
  roundToEven (num * unit) (den * step) * step

/-- The units of the magnitude nearest to `digits` times ten to the `exponent`. -/
def ofDecimal (digits : Nat) (exponent : Int) : Nat :=
  nearest (digits * Nat.pow 10 exponent.toNat) (Nat.pow 10 (-exponent).toNat)

/-- Where a magnitude goes that lies halfway between two decimals. -/
inductive Tie where
  | even
  | up
deriving DecidableEq, Repr

/-- Does the decimal above win over the one below, when both have the same nearest magnitude? The
two numbers are the distances from the decimal below and of the two decimals, twice and once. -/
def Tie.goesUp (tie : Tie) (below twice whole : Nat) : Bool :=
  match tie with
  | .even => whole < twice || (twice == whole && below % 2 == 1)
  | .up => whole ≤ twice

/-- The digits of the decimal that is written for a magnitude when its last digit counts ten to the
`exponent`: of the two neighbours those that have this nearest magnitude, of two the nearer. -/
def digitsAt? (tie : Tie) (magnitude : Nat) (exponent : Int) : Option Nat :=
  let num := magnitude * Nat.pow 10 (-exponent).toNat
  let den := unit * Nat.pow 10 exponent.toNat
  let below := num / den
  match ofDecimal below exponent == magnitude, ofDecimal (below + 1) exponent == magnitude with
  | true, true => some (if tie.goesUp below (2 * (num % den)) den then below + 1 else below)
  | true, false => some below
  | false, true => some (below + 1)
  | false, false => none

/-- The decimal with the fewest digits whose nearest magnitude is the given one, as digits and the
exponent of the last of them. Finite magnitudes other than zero have one with a last digit
between the 309th place before and the 324th behind the point. -/
def shortest? (tie : Tie) (magnitude : Nat) : Option (Nat × Int) :=
  (List.range 634).findSome? fun (i : Nat) =>
    let exponent : Int := 309 - (i : Int)
    (digitsAt? tie magnitude exponent).map (·, exponent)

end RecordCodec.Binary64
