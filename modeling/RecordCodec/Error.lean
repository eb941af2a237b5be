import RecordCodec.FieldType
import RecordCodec.Path
import RecordCodec.Token

/-!
Everything that can go wrong, by cause, and the one wording of each cause. Three causes are not
reported but end the run: an exponent whose magnitude no 64-bit number holds, a decimal point that
would fall inside a character, and a position that a list cannot have. They pass through unchanged
wherever other causes are wrapped.
-/

namespace RecordCodec

/-- What a reader of tokens was looking for. -/
inductive Wanted where
  | value
  | fieldName
  | mapKey
  | token (t : Token)
deriving DecidableEq, Repr

def Wanted.text : Wanted → String
  | .value => "a value"
  | .fieldName => "field name"
  | .mapKey => "map key"
  | .token t => t.describe

/-- How a token stream is out of form. -/
inductive StreamFault where
  | endOfStream
  | endWhileSkipping
  | unterminatedObject
  | unbalancedEnd
  | trailingTokens
  | badNumber (literal : String)
  | unexpected (wanted : Wanted) (found : Token)
deriving DecidableEq, Repr

def StreamFault.message : StreamFault → String
  | .endOfStream => "unexpected end of stream"
  | .endWhileSkipping => "unexpected end of stream while skipping"
  | .unterminatedObject => "unterminated object"
  | .unbalancedEnd => "unbalanced container end"
  | .trailingTokens => "trailing tokens after value"
  | .badNumber literal => "invalid number literal " ++ literal
  | .unexpected wanted found => "expected " ++ wanted.text ++ ", found " ++ found.describe

/-- Why JSON was refused. -/
inductive JsonFault where
  | malformed
  | misfit
  | typeName (text : String) (fault : GrammarFault)
deriving DecidableEq, Repr

def grammarMessage (text : String) (fault : GrammarFault) : String :=
  "Invalid type name '" ++ text ++ "': " ++ fault.message

def JsonFault.message : JsonFault → String
  | .malformed => "malformed text"
  | .misfit => "unexpected shape"
  | .typeName text fault => grammarMessage text fault

inductive Error where
  | grammar (text : String) (fault : GrammarFault)
  | unresolvedReference (identity : String) (place : Place)
  | decodeValue (path : Path) (expected : ScalarKind) (found : Token)
  | malformedStream (path : Path) (fault : StreamFault)
  | duplicateRoot (name : String)
  | duplicateField (parent : Place) (name : String)
  | propertiesOnNonStruct (place : Place) (declared : FieldType)
  | untypedField (place : Place)
  | rootNotStruct (name : String) (found : FieldType)
  | rootWithoutProperties (name : String)
  | defaultOnStruct (place : Place) (type : FieldType)
  | invalidDefault (place : Place) (cause : Error)
  | encodeValue (path : Path) (expected : String) (found : String)
  | unknownRecord (name : String)
  | unknownField (record : String) (field : String)
  | configuration
  | unwritable
  | json (fault : JsonFault)
  | exponentOverflow (literal : String)
  | pointInsideCharacter (digits : String)
  | positionOutOfReach (route : String)
deriving DecidableEq, Repr

namespace Error

def message : Error → String
  | .grammar text fault => grammarMessage text fault
  | .unresolvedReference identity place =>
      "Unresolved object identity '" ++ identity ++ "' referenced from " ++ place.text
  | .decodeValue path expected found =>
      "Cannot decode " ++ path.text ++ ": expected " ++ expected.token ++ ", found " ++
        found.describe
  | .malformedStream path fault =>
      "Malformed token stream at " ++ path.text ++ ": " ++ fault.message
  | .duplicateRoot name => "Duplicate field '" ++ name ++ "' in <roots>"
  | .duplicateField parent name => "Duplicate field '" ++ name ++ "' in " ++ parent.text
  | .propertiesOnNonStruct place declared =>
      "Field " ++ place.text ++ " has type " ++ declared.text ++ " but declares nested properties"
  | .untypedField place => "Field " ++ place.text ++ " declares no type and no properties"
  | .rootNotStruct name found =>
      "Root field '" ++ name ++ "' must describe a struct, found " ++ found.text
  | .rootWithoutProperties name =>
      "Root field '" ++ name ++ "' must describe a struct, found opaque STRUCT"
  | .defaultOnStruct place type =>
      "Invalid default value for " ++ place.text ++ ": defaults are not supported on " ++
        type.text ++ " fields"
  | .invalidDefault place cause =>
      "Invalid default value for " ++ place.text ++ ": " ++ cause.message
  | .encodeValue path expected found =>
      "Cannot encode " ++ path.text ++ ": expected " ++ expected ++ ", found " ++ found
  | .unknownRecord name => "Record not found in artifact set: " ++ name
  | .unknownField record field => "Record " ++ record ++ " has no field '" ++ field ++ "'"
  | .configuration => "Configuration error"
  | .unwritable => "IO error"
  | .json fault => "JSON error: " ++ fault.message
  | .exponentOverflow literal => "exponent out of range in " ++ literal
  | .pointInsideCharacter digits => "decimal point inside a character of " ++ digits
  | .positionOutOfReach route => "no such position in a list: " ++ route

/-- Does the cause end the run instead of being reported? -/
def endsRun : Error → Bool
  | .exponentOverflow _ => true
  | .pointInsideCharacter _ => true
  | .positionOutOfReach _ => true
  | _ => false

end Error

/-- Reads a type; a text out of form is refused with the whole of it. -/
def FieldType.read (text : String) : Except Error FieldType :=
  match FieldType.ofText? text with
  | .ok type => .ok type
  | .error fault => .error (.grammar text fault)

/-! ### Results under a map

A result that is passed on changed succeeds or fails as it did before. -/

section

variable {ε α β : Type} {f : α → β} {r : Except ε α}

theorem map_eq_ok_iff {b : β} : r.map f = .ok b ↔ ∃ a, r = .ok a ∧ f a = b := by
  cases r <;> simp [Except.map]

theorem map_eq_error_iff {e : ε} : r.map f = .error e ↔ r = .error e := by
  cases r <;> simp [Except.map]

end
end RecordCodec
