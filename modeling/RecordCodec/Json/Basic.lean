import RecordCodec.Entries
import RecordCodec.Json.Numeral

/-!
JSON documents. Numbers keep their literal, and the entries of an object are meant to be in key
order without repetition (`Entries.put` keeps them so).
-/

namespace RecordCodec

inductive Json where
  | null
  | bool (b : Bool)
  | number (n : Numeral)
  | string (s : String)
  | array (items : List Json)
  | object (entries : List (String × Json))

namespace Json

instance : Inhabited Json := ⟨.null⟩

/-! ### Equality

Two documents are equal when they are built alike. Nested lists need a decision procedure of
their own. -/

mutual

def decEq : (a b : Json) → Decidable (a = b)
  | .null, b => by
      cases b with
      | null => exact isTrue rfl
      | _ => exact isFalse (by simp)
  | .bool x, b => by
      cases b with
      | bool y => exact decidable_of_iff (x = y) (by simp)
      | _ => exact isFalse (by simp)
  | .number x, b => by
      cases b with
      | number y => exact decidable_of_iff (x = y) (by simp)
      | _ => exact isFalse (by simp)
  | .string x, b => by
      cases b with
      | string y => exact decidable_of_iff (x = y) (by simp)
      | _ => exact isFalse (by simp)
  | .array xs, b => by
      cases b with
      | array ys =>
          have := decEqItems xs ys
          exact decidable_of_iff (xs = ys) (by simp)
      | _ => exact isFalse (by simp)
  | .object xs, b => by
      cases b with
      | object ys =>
          have := decEqEntries xs ys
          exact decidable_of_iff (xs = ys) (by simp)
      | _ => exact isFalse (by simp)

def decEqItems : (xs ys : List Json) → Decidable (xs = ys)
  | [], [] => isTrue rfl
  | [], _ :: _ => isFalse (by simp)
  | _ :: _, [] => isFalse (by simp)
  | x :: xs, y :: ys =>
      have := decEq x y
      have := decEqItems xs ys
      decidable_of_iff (x = y ∧ xs = ys) (by simp)

def decEqEntries : (xs ys : List (String × Json)) → Decidable (xs = ys)
  | [], [] => isTrue rfl
  | [], _ :: _ => isFalse (by simp)
  | _ :: _, [] => isFalse (by simp)
  | (k, x) :: xs, (l, y) :: ys =>
      have := decEq x y
      have := decEqEntries xs ys
      decidable_of_iff (k = l ∧ x = y ∧ xs = ys) (by simp [and_assoc])

end

instance : DecidableEq Json := decEq

/-- The name of a document's kind. -/
def typeName : Json → String
  | .null => "null"
  | .bool _ => "boolean"
  | .number _ => "number"
  | .string _ => "string"
  | .array _ => "array"
  | .object _ => "object"

def isNull : Json → Bool
  | .null => true
  | _ => false

/-- The key of an object that spells a number: its only value is the number's literal. -/
def numberKey : String := "$serde_json::private::Number"

/-- The number spelled by the value under the number key, in an object of so many entries. -/
def spelledNumber? (value : Json) (size : Nat) : Option Json :=
  match value with
  | .string literal => if size = 1 then (Numeral.ofText? literal).map .number else none
  | _ => none

/-- The value of an object under a key. -/
def get? (key : String) : Json → Option Json
  | .object entries => Entries.get? key entries
  | _ => none

end Json
end RecordCodec
