import RecordCodec.Decimal
import RecordCodec.Error
import RecordCodec.Json.Printer
import RecordCodec.QualifiedName

/-!
The values that fields of records hold. Maps and records keep their entries in key order. A value
of kind `document` is a JSON document that no record describes; it is held and written as it is.
-/

namespace RecordCodec

open Text (intText)

inductive Value where
  | null
  | string (s : String)
  | int (i : Int32)
  | long (i : Int64)
  | decimal (d : Decimal)
  | boolean (b : Bool)
  | list (items : List Value)
  | map (entries : List (String × Value))
  | record (name : QualifiedName) (fields : List (String × Value))
  | document (json : Json)

/-- An instance of a generated record. -/
structure Record where
  name : QualifiedName
  fields : List (String × Value)

namespace Value

instance : Inhabited Value := ⟨.null⟩

/-! ### Equality -/

mutual

def decEq : (a b : Value) → Decidable (a = b)
  | .null, b => by
      cases b with
      | null => exact isTrue rfl
      | _ => exact isFalse (by simp)
  | .string x, b => by
      cases b with
      | string y => exact decidable_of_iff (x = y) (by simp)
      | _ => exact isFalse (by simp)
  | .int x, b => by
      cases b with
      | int y => exact decidable_of_iff (x = y) (by simp)
      | _ => exact isFalse (by simp)
  | .long x, b => by
      cases b with
      | long y => exact decidable_of_iff (x = y) (by simp)
      | _ => exact isFalse (by simp)
  | .decimal x, b => by
      cases b with
      | decimal y => exact decidable_of_iff (x = y) (by simp)
      | _ => exact isFalse (by simp)
  | .boolean x, b => by
      cases b with
      | boolean y => exact decidable_of_iff (x = y) (by simp)
      | _ => exact isFalse (by simp)
  | .list xs, b => by
      cases b with
      | list ys =>
          have := decEqItems xs ys
          exact decidable_of_iff (xs = ys) (by simp)
      | _ => exact isFalse (by simp)
  | .map xs, b => by
      cases b with
      | map ys =>
          have := decEqEntries xs ys
          exact decidable_of_iff (xs = ys) (by simp)
      | _ => exact isFalse (by simp)
  | .record n xs, b => by
      cases b with
      | record m ys =>
          have := decEqEntries xs ys
          exact decidable_of_iff (n = m ∧ xs = ys) (by simp)
      | _ => exact isFalse (by simp)
  | .document x, b => by
      cases b with
      | document y => exact decidable_of_iff (x = y) (by simp)
      | _ => exact isFalse (by simp)

def decEqItems : (xs ys : List Value) → Decidable (xs = ys)
  | [], [] => isTrue rfl
  | [], _ :: _ => isFalse (by simp)
  | _ :: _, [] => isFalse (by simp)
  | x :: xs, y :: ys =>
      have := decEq x y
      have := decEqItems xs ys
      decidable_of_iff (x = y ∧ xs = ys) (by simp)

def decEqEntries : (xs ys : List (String × Value)) → Decidable (xs = ys)
  | [], [] => isTrue rfl
  | [], _ :: _ => isFalse (by simp)
  | _ :: _, [] => isFalse (by simp)
  | (k, x) :: xs, (l, y) :: ys =>
      have := decEq x y
      have := decEqEntries xs ys
      decidable_of_iff (k = l ∧ x = y ∧ xs = ys) (by simp [and_assoc])

end

instance : DecidableEq Value := decEq

/-! ### Views -/

def isNull : Value → Bool
  | .null => true
  | _ => false

/-- The name of a value's concrete type. A record's type is its simple name. -/
def typeName : Value → String
  | .null => "null"
  | .string _ => "string"
  | .int _ => "int"
  | .long _ => "long"
  | .decimal _ => "decimal"
  | .boolean _ => "boolean"
  | .list _ => "list"
  | .map _ => "map"
  | .record name _ => name.name
  | .document json => json.typeName

def asRecord? : Value → Option Record
  | .record name fields => some ⟨name, fields⟩
  | _ => none

def asList? : Value → Option (List Value)
  | .list items => some items
  | _ => none

def asMap? : Value → Option (List (String × Value))
  | .map entries => some entries
  | _ => none

def asString? : Value → Option String
  | .string s => some s
  | _ => none

/-- The literal of an integer is in normal form as it stands. -/
def integerJson (i : Int) : Json :=
  match Numeral.ofText? (intText i) with
  | some n => .number n
  | none => .string (intText i)

/-- A decimal is a number when its text is a number literal; in the digits of other scripts it can
only be a string. -/
def decimalJson (d : Decimal) : Json :=
  match Numeral.ofText? d.text with
  | some n => .number n
  | none => .string d.text

mutual

/-- The plain JSON view of a value. -/
def toJson : Value → Json
  | .null => .null
  | .string s => .string s
  | .int i => integerJson i.toInt
  | .long i => integerJson i.toInt
  | .decimal d => decimalJson d
  | .boolean b => .bool b
  | .list items => .array (itemsToJson items)
  | .map entries => .object (entriesToJson entries)
  | .record _ fields => .object (entriesToJson fields)
  | .document json => json

def itemsToJson : List Value → List Json
  | [] => []
  | v :: rest => v.toJson :: itemsToJson rest

def entriesToJson : List (String × Value) → List (String × Json)
  | [] => []
  | (k, v) :: rest => (k, v.toJson) :: entriesToJson rest

end

/-- The compact text of the JSON view. -/
def render (v : Value) : String := v.toJson.text

mutual

/-- Every decimal inside can be written. -/
def isWritable : Value → Bool
  | .decimal d => d.isWritable
  | .list items => itemsWritable items
  | .map entries => entriesWritable entries
  | .record _ fields => entriesWritable fields
  | _ => true

def itemsWritable : List Value → Bool
  | [] => true
  | v :: rest => v.isWritable && itemsWritable rest

def entriesWritable : List (String × Value) → Bool
  | [] => true
  | (_, v) :: rest => v.isWritable && entriesWritable rest

end

/-- The compact text of the JSON view, which exists when every decimal inside can be written. -/
def rendering (v : Value) : Except Error String :=
  if v.isWritable then .ok v.render else .error (.pointInsideCharacter v.render)

/-- Orders values by type name, and values of one type by their renderings. -/
def compareRendered (x y : Value) : Except Error Ordering :=
  match compare x.typeName y.typeName with
  | .eq => do return compare (← x.rendering) (← y.rendering)
  | order => .ok order

theorem rendering_eq_ok {v : Value} (h : v.isWritable = true) : v.rendering = .ok v.render := by
  simp [rendering, h]

theorem compareRendered_of_writable {x y : Value} (hx : x.isWritable = true)
    (hy : y.isWritable = true) :
    x.compareRendered y =
      .ok ((compare x.typeName y.typeName).then (compare x.render y.render)) := by
  unfold compareRendered
  rw [rendering_eq_ok hx, rendering_eq_ok hy]
  cases compare x.typeName y.typeName <;> rfl

@[simp] theorem isNull_null : Value.null.isNull = true := rfl

theorem isNull_iff {v : Value} : v.isNull = true ↔ v = .null := by
  cases v <;> simp [isNull]

end Value

namespace Record

instance : DecidableEq Record := fun a b =>
  decidable_of_iff (a.name = b.name ∧ a.fields = b.fields) (by cases a; cases b; simp)

/-- A record without fields. -/
def blank (name : QualifiedName) : Record := ⟨name, []⟩

/-- The value of a field; a field that is not set reads as null. -/
def get (r : Record) (field : String) : Value := (Entries.get? field r.fields).getD .null

def set (r : Record) (field : String) (value : Value) : Record :=
  { r with fields := Entries.put field value r.fields }

def toValue (r : Record) : Value := .record r.name r.fields

@[simp] theorem name_set (r : Record) (field : String) (value : Value) :
    (r.set field value).name = r.name := rfl

end Record
end RecordCodec
