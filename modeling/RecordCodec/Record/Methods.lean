import RecordCodec.Codec.Plan
import RecordCodec.Value

/-!
Equality, order and copies of records, field by field. Each record has one method per declared
field, in order of declaration, with a plan to compare its values and a plan to copy them. Nested
records use the methods of their own kind.

Comparison is prepared from the first value, as encoding is: every entry of a map or record is
made ready to be compared with whatever stands under its key on the other side. It stops at the
first difference, so a value without a text does harm only where its text is asked for.
-/

namespace RecordCodec

structure FieldMethod where
  field : String
  accessor : String
  comparator : Plan QualifiedName
  copy : Plan QualifiedName
deriving DecidableEq, Repr

/-- The methods of every kind of record; none for a kind that is not known. -/
abbrev MethodTable := QualifiedName → Option (List FieldMethod)

/-! ### Scalars -/

/-- What comparing two values comes to. Values of no common order are compared by their texts, and
a value with a decimal that cannot be written has none. -/
abbrev Comparison := Except Error Ordering

/-- The first comparison decides, unless it finds equality. -/
@[macro_inline] def Comparison.thenBy (first second : Comparison) : Comparison :=
  match first with
  | .ok .eq => second
  | decided => decided

/-- The number that a numeric value is. -/
def Value.asDecimal? : Value → Option Decimal
  | .int i => some (.ofInt i.toInt)
  | .long i => some (.ofInt i.toInt)
  | .decimal d => some d
  | _ => none

/-- Orders scalars; numbers compare by value whatever their kinds. -/
def compareScalars (x y : Value) : Comparison :=
  match x, y with
  | .string a, .string b => .ok (compare a b)
  | .boolean a, .boolean b => .ok (compare a b)
  | .int a, .int b => .ok (compare a.toInt b.toInt)
  | .long a, .long b => .ok (compare a.toInt b.toInt)
  | x, y =>
      match x.asDecimal?, y.asDecimal? with
      | some a, some b => .ok (a.compare b)
      | _, _ => x.compareRendered y

/-! ### Order -/

/-- A value ready to be compared with another by any plan. -/
abbrev Comparer := Plan QualifiedName → Value → Comparison

/-- Null comes before everything else. -/
def compareNull : Comparer := fun _ y => .ok (if y.isNull then .eq else .lt)

/-- Item by item; of two lists that agree as far as both go, the shorter comes first. -/
def compareItems (item : Plan QualifiedName) : List Comparer → List Value → Comparison
  | [], [] => .ok .eq
  | [], _ :: _ => .ok .lt
  | _ :: _, [] => .ok .gt
  | c :: cs, y :: ys => (c item y).thenBy (compareItems item cs ys)

/-- By the values under each key in turn; a key that is missing counts as null. -/
def compareKeys (value : Plan QualifiedName) (xs : List (String × Comparer))
    (ys : List (String × Value)) : List String → Comparison
  | [] => .ok .eq
  | key :: rest =>
      (((Entries.get? key xs).getD compareNull) value
        ((Entries.get? key ys).getD .null)).thenBy (compareKeys value xs ys rest)

/-- By the methods of a kind in turn; a field that is not set counts as null. -/
def compareMethods (xs : List (String × Comparer)) (ys : List (String × Value)) :
    List FieldMethod → Comparison
  | [] => .ok .eq
  | m :: rest =>
      (((Entries.get? m.field xs).getD compareNull) m.comparator
        ((Entries.get? m.field ys).getD .null)).thenBy (compareMethods xs ys rest)

/-- Records of different kinds are ordered by the names of their kinds. -/
def compareKinds (a b : QualifiedName) : Ordering :=
  (compare a.name b.name).then (a.compare b)

mutual

/-- Orders two values of one field; null comes first. -/
def compareValue (methods : MethodTable) : Value → Comparer
  | .null, plan, y => compareNull plan y
  | _, _, .null => .ok .gt
  | x, .scalar _, y => compareScalars x y
  | .list xs, .list item, .list ys => compareItems item (itemComparers methods xs) ys
  | .map xs, .map value, .map ys =>
      (compareKeys value (entryComparers methods xs) ys (Entries.unionKeys xs ys)).thenBy
        (.ok (compare xs.length ys.length))
  | .record a xs, .record _, .record b ys =>
      if a = b then
        match methods a with
        | some ms => compareMethods (entryComparers methods xs) ys ms
        | none => (Value.record a xs).compareRendered (.record b ys)
      else .ok (compareKinds a b)
  | x, _, y => x.compareRendered y

def itemComparers (methods : MethodTable) : List Value → List Comparer
  | [] => []
  | x :: xs => compareValue methods x :: itemComparers methods xs

def entryComparers (methods : MethodTable) : List (String × Value) → List (String × Comparer)
  | [] => []
  | (key, x) :: xs => (key, compareValue methods x) :: entryComparers methods xs

end

theorem entryComparers_eq_map (methods : MethodTable) (entries : List (String × Value)) :
    entryComparers methods entries = entries.map fun p => (p.1, compareValue methods p.2) := by
  induction entries with
  | nil => rfl
  | cons p rest ih => simp [entryComparers, ih]

/-! ### Equality -/

/-- What testing two values for equality comes to. -/
abbrev Match := Except Error Bool

/-- Both tests hold; after one that fails nothing is looked at. -/
@[macro_inline] def Match.both (first second : Match) : Match :=
  match first with
  | .ok true => second
  | decided => decided

/-- A value ready to be tested against another by any plan. -/
abbrev Matcher := Plan QualifiedName → Value → Match

def matchItems (item : Plan QualifiedName) : List Matcher → List Value → Match
  | [], [] => .ok true
  | m :: ms, y :: ys => (m item y).both (matchItems item ms ys)
  | _, _ => .ok false

/-- Every entry has a partner under its key. -/
def matchEntries (value : Plan QualifiedName) (ys : List (String × Value)) :
    List (String × Matcher) → Match
  | [] => .ok true
  | (key, m) :: rest =>
      match Entries.get? key ys with
      | some y => (m value y).both (matchEntries value ys rest)
      | none => .ok false

def matchMethods (xs : List (String × Matcher)) (ys : List (String × Value)) :
    List FieldMethod → Match
  | [] => .ok true
  | m :: rest =>
      (((Entries.get? m.field xs).getD fun _ y => .ok y.isNull) m.comparator
        ((Entries.get? m.field ys).getD .null)).both (matchMethods xs ys rest)

/-- Equality as an order finds it. -/
def Comparison.isEq (c : Comparison) : Match := c.map (· == .eq)

mutual

/-- Are two values of one field equal? -/
def equalValue (methods : MethodTable) : Value → Matcher
  | .null, _, y => .ok y.isNull
  | _, _, .null => .ok false
  | .list xs, .list item, .list ys =>
      if xs.length = ys.length then matchItems item (itemMatchers methods xs) ys else .ok false
  | .map xs, .map value, .map ys =>
      if xs.length = ys.length then matchEntries value ys (entryMatchers methods xs) else .ok false
  | .record a xs, .record _, .record b ys =>
      if a = b then
        match methods a with
        | some ms => matchMethods (entryMatchers methods xs) ys ms
        | none => .ok (xs = ys)
      else .ok false
  | x, plan, y => (compareValue methods x plan y).isEq

def itemMatchers (methods : MethodTable) : List Value → List Matcher
  | [] => []
  | x :: xs => equalValue methods x :: itemMatchers methods xs

def entryMatchers (methods : MethodTable) : List (String × Value) → List (String × Matcher)
  | [] => []
  | (key, x) :: xs => (key, equalValue methods x) :: entryMatchers methods xs

end

theorem entryMatchers_eq_map (methods : MethodTable) (entries : List (String × Value)) :
    entryMatchers methods entries = entries.map fun p => (p.1, equalValue methods p.2) := by
  induction entries with
  | nil => rfl
  | cons p rest ih => simp [entryMatchers, ih]

/-! ### Copies -/

mutual

/-- Copies a value by a plan. -/
def copyValue (methods : MethodTable) : Value → Plan QualifiedName → Value
  | .list items, .list item => .list (copyItems methods item items)
  | .map entries, .map value => .map (copyEntries methods value entries)
  | .record name fields, .record _ => .record name (copyFields methods (methods name) fields)
  | v, _ => v

def copyItems (methods : MethodTable) (item : Plan QualifiedName) : List Value → List Value
  | [] => []
  | v :: rest => copyValue methods v item :: copyItems methods item rest

def copyEntries (methods : MethodTable) (value : Plan QualifiedName) :
    List (String × Value) → List (String × Value)
  | [] => []
  | (key, v) :: rest => (key, copyValue methods v value) :: copyEntries methods value rest

/-- Copies each field by its own method, and a field without a method as it is. -/
def copyFields (methods : MethodTable) (own : Option (List FieldMethod)) :
    List (String × Value) → List (String × Value)
  | [] => []
  | (field, v) :: rest =>
      (match own.bind fun ms => ms.find? (·.field = field) with
        | some m => (field, copyValue methods v m.copy)
        | none => (field, v)) :: copyFields methods own rest

end

/-! ### Records -/

namespace Record

/-- The order of records. -/
def compare (methods : MethodTable) (a b : Record) : Comparison :=
  if a.name = b.name then
    match methods a.name with
    | some ms => compareMethods (entryComparers methods a.fields) b.fields ms
    | none => a.toValue.compareRendered b.toValue
  else .ok (compareKinds a.name b.name)

/-- Equality of records; records of different kinds are never equal. -/
def equals (methods : MethodTable) (a b : Record) : Match :=
  if a.name = b.name then
    match methods a.name with
    | some ms => matchMethods (entryMatchers methods a.fields) b.fields ms
    | none => .ok (a.fields = b.fields)
  else .ok false

/-- A copy that shares nothing with the record. -/
def deepCopy (methods : MethodTable) (r : Record) : Record :=
  { r with fields := copyFields methods (methods r.name) r.fields }

/-! ### Sorting -/

/-- Puts a record among others that stand greatest first, before all that it is not less than. -/
def insertByOrder {α : Type} (methods : MethodTable) (x : α × Record) :
    List (α × Record) → Except Error (List (α × Record))
  | [] => .ok [x]
  | y :: ys => do
      if (← x.2.compare methods y.2) = .lt then
        let rest ← insertByOrder methods x ys
        return y :: rest
      else return x :: y :: ys

/-- Labelled records in their order, the least first; records that compare equal stay as they
stood. -/
def sort {α : Type} (methods : MethodTable) (records : List (α × Record)) :
    Except Error (List (α × Record)) := do
  let greatestFirst ← records.foldlM (fun done x => insertByOrder methods x done) []
  return greatestFirst.reverse

end Record
end RecordCodec
