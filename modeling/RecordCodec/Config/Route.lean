import RecordCodec.Config.Basic
import RecordCodec.Error
import RecordCodec.Json.Parser

/-!
Routes to a place among configuration values: a key, and from there keys after a point and
positions in brackets, as in `external.identities[0]`. Keys count in lower case, and a position
below zero counts from the end. What is missing on the way is added, and what is in the way is
replaced; only a position before the beginning of a list cannot be added.
-/

namespace RecordCodec

inductive ConfigStep where
  | key (name : String)
  | position (index : Int)
deriving DecidableEq, Repr

namespace ConfigStep

/-- May the character stand in a key of a route? -/
def isNameChar (c : Char) : Bool := c.isAlphanum || c == ' ' || c == '_' || c == '-'

/-- Reads the number between brackets, which has 64 bits and no sign but a minus. -/
def readPosition? (cs : List Char) : Option Int :=
  let isPad (c : Char) : Bool := c == ' ' || c == '\t'
  let cs := ((cs.dropWhile isPad).reverse.dropWhile isPad).reverse
  if cs.head? = some '+' then none
  else (Text.readInt64? (String.ofList cs)).map Int64.toInt

/-- Reads steps up to the end of a text. -/
def readAll? (cs : List Char) : Option (List ConfigStep) :=
  match cs with
  | [] => some []
  | '.' :: rest =>
      let name := rest.takeWhile isNameChar
      if name.isEmpty then none
      else (readAll? (rest.dropWhile isNameChar)).map (.key (String.ofList name) :: ·)
  | '[' :: rest =>
      match _h : rest.dropWhile (· != ']') with
      | _ :: after =>
          match readPosition? (rest.takeWhile (· != ']')), readAll? after with
          | some index, some steps => some (.position index :: steps)
          | _, _ => none
      | [] => none
  | _ => none
termination_by cs.length
decreasing_by
  · exact Nat.lt_succ_of_le (Json.length_dropWhile_le _ _)
  · have hle := Json.length_dropWhile_le (· != ']') rest
    rw [_h] at hle
    exact Nat.lt_succ_of_lt hle

end ConfigStep

namespace ConfigValue

/-- The place in a list of the given length that a position means. There is none before the
beginning, and lists have fewer than `2 ^ 56` items. -/
def placeOf? (index : Int) (length : Nat) : Option Nat :=
  let place := if index < 0 then index + length else index
  if 0 ≤ place && place < 72057594037927936 then some place.toNat else none

/-- Sets the place that steps lead to. A list grows until it has the position. -/
def setAt? (value : ConfigValue) : List ConfigStep → ConfigValue → Option ConfigValue
  | [], _ => some value
  | [.key name], target => some (layUnder name value target)
  | .key name :: steps, target =>
      let old := (Entries.get? (Text.lower name) target.entries).getD .nothing
      (setAt? value steps old).map fun new =>
        .table (Entries.put (Text.lower name) new target.entries)
  | .position index :: steps, target =>
      (placeOf? index target.items.length).bind fun place =>
        let items := target.items ++
          List.replicate (place + 1 - target.items.length) .nothing
        (setAt? value steps (items[place]?.getD .nothing)).map fun new =>
          .list (items.set place new)

/-- Sets what a text leads to, which is a plain key if it is no route. -/
def set (target : ConfigValue) (route : String) (value : ConfigValue) :
    Except Error ConfigValue :=
  match ConfigStep.readAll? ('.' :: route.toList) with
  | some steps =>
      match setAt? value steps target with
      | some config => .ok config
      | none => .error (.positionOutOfReach route)
  | none => .ok (layUnder route value target)

/-- Sets entries, each where its key leads, and starts from nothing. -/
def ofEntries (entries : List (String × ConfigValue)) : Except Error ConfigValue :=
  entries.foldlM (fun config e => config.set e.1 e.2) (.table [])

end ConfigValue
end RecordCodec
