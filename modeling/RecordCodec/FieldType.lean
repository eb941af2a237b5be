/-!
Field types: five scalar kinds and structs, wrapped in any number of list and map layers. The text
of a type names the leaf first and every layer after it, so `STRING_LIST_MAP` is a map of lists of
strings; `ofText?` reads such a text from its last word backwards.
-/

namespace RecordCodec

inductive ScalarKind where
  | string
  | int
  | long
  | decimal
  | boolean
deriving DecidableEq, Repr

namespace ScalarKind

def token : ScalarKind → String
  | .string => "STRING"
  | .int => "INT"
  | .long => "LONG"
  | .decimal => "DECIMAL"
  | .boolean => "BOOLEAN"

def all : List ScalarKind := [.string, .int, .long, .decimal, .boolean]

def ofToken? (token : String) : Option ScalarKind := all.find? (·.token = token)

end ScalarKind

inductive FieldType where
  | scalar (kind : ScalarKind)
  | struct
  | list (item : FieldType)
  | map (value : FieldType)
deriving DecidableEq, Repr

/-- What is left of a type without its layers. -/
inductive Leaf where
  | scalar (kind : ScalarKind)
  | struct
deriving DecidableEq, Repr

/-- Why a text is no type. -/
inductive GrammarFault where
  | emptyName
  | emptySegment
  | missingSubtype (token : String)
  | unknownToken (token : String)
  | terminalAfterSubtype (token : String)
deriving DecidableEq, Repr

def GrammarFault.message : GrammarFault → String
  | .emptyName => "empty type name"
  | .emptySegment => "empty segment"
  | .missingSubtype token => token ++ " requires a subtype"
  | .unknownToken token => "unknown token '" ++ token ++ "'"
  | .terminalAfterSubtype token => "terminal token " ++ token ++ " cannot follow a subtype"

namespace FieldType

def leaf : FieldType → Leaf
  | .scalar kind => .scalar kind
  | .struct => .struct
  | .list item => item.leaf
  | .map value => value.leaf

def isStructLeaf (type : FieldType) : Bool := type.leaf = .struct

/-- The number of layers around the leaf. -/
def depth : FieldType → Nat
  | .scalar _ => 0
  | .struct => 0
  | .list item => item.depth + 1
  | .map value => value.depth + 1

def text : FieldType → String
  | .scalar kind => kind.token
  | .struct => "STRUCT"
  | .list item => item.text ++ "_LIST"
  | .map value => value.text ++ "_MAP"

/-! ### Reading a type

The text is cut at every underscore. The words are then taken from the last one backwards: a word
that has others before it must name a layer, the first word must name the leaf. -/

/-- Cuts a text at every underscore; there is always one word, and more after each cut. -/
def words : List Char → List Char × List (List Char)
  | [] => ([], [])
  | c :: rest =>
      let (word, more) := words rest
      if c = '_' then ([], word :: more) else (c :: word, more)

/-- The type that one word alone names. -/
def ofWord? (word : String) : Except GrammarFault FieldType :=
  if word = "" then .error .emptySegment
  else match ScalarKind.ofToken? word with
    | some kind => .ok (.scalar kind)
    | none =>
      if word = "STRUCT" then .ok .struct
      else if word = "LIST" ∨ word = "MAP" then .error (.missingSubtype word)
      else .error (.unknownToken word)

/-- The type that words name, given the last word and those before it, nearest first. -/
def ofWords? (last : String) : List String → Except GrammarFault FieldType
  | [] => ofWord? last
  | previous :: before =>
      if last = "LIST" then (ofWords? previous before).map .list
      else if last = "MAP" then (ofWords? previous before).map .map
      else if last = "" then .error .emptySegment
      else if (ScalarKind.ofToken? last).isSome ∨ last = "STRUCT" then
        .error (.terminalAfterSubtype last)
      else .error (.unknownToken last)

def ofText? (text : String) : Except GrammarFault FieldType :=
  if text = "" then .error .emptyName
  else
    let (word, more) := words text.toList
    match ((word :: more).map String.ofList).reverse with
    | [] => .error .emptyName
    | last :: before => ofWords? last before

end FieldType
end RecordCodec
