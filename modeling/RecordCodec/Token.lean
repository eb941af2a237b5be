import RecordCodec.Json.Basic
import RecordCodec.Text.Quoted

/-!
Token streams: the flat form in which records are read and written. A number token holds any
literal, valid or not, since streams need not come from JSON text. `Json.tokens` writes a document
as tokens; reading them back is in `Token.Reading`.
-/

namespace RecordCodec

open Text (quoted)

inductive Token where
  | startObject
  | endObject
  | startArray
  | endArray
  | fieldName (name : String)
  | string (s : String)
  | number (literal : String)
  | boolean (b : Bool)
  | null
deriving DecidableEq, Repr

/-- How messages speak of a token. -/
def Token.describe : Token → String
  | .startObject => "start of object"
  | .endObject => "end of object"
  | .startArray => "start of array"
  | .endArray => "end of array"
  | .fieldName name => "field name " ++ quoted name
  | .string s => "string " ++ quoted s
  | .number literal => "number " ++ literal
  | .boolean true => "boolean true"
  | .boolean false => "boolean false"
  | .null => "null"

namespace Json

mutual

def tokens : Json → List Token
  | .null => [.null]
  | .bool b => [.boolean b]
  | .number n => [.number n.text]
  | .string s => [.string s]
  | .array items => .startArray :: (itemTokens items ++ [.endArray])
  | .object entries => .startObject :: (entryTokens entries ++ [.endObject])

def itemTokens : List Json → List Token
  | [] => []
  | j :: rest => j.tokens ++ itemTokens rest

def entryTokens : List (String × Json) → List Token
  | [] => []
  | (key, j) :: rest => .fieldName key :: (j.tokens ++ entryTokens rest)

end

end Json
end RecordCodec
