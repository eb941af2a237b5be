import RecordCodec.Json.Printer
import RecordCodec.Settings.Json
import RecordCodec.Toml.Quoted

/-!
Settings as configuration text: a table for each group of settings, with a line for each setting.
-/

namespace RecordCodec

namespace Toml

def scalarChars : Json → List Char
  | .string s => quotedChars s
  | j => j.chars

/-- An array of two or more items takes a line for each. -/
def valueChars : Json → List Char
  | .array [] => ['[', ']']
  | .array [j] => '[' :: (scalarChars j ++ [']'])
  | .array items =>
      '[' :: '\n' :: (items.flatMap fun j => "    ".toList ++ scalarChars j ++ [',', '\n']) ++ [']']
  | j => scalarChars j

def tableChars (t : String × List (String × Json)) : List Char :=
  '[' :: (t.1.toList ++ [']', '\n'] ++
    t.2.flatMap fun e => e.1.toList ++ " = ".toList ++ valueChars e.2 ++ ['\n'])

end Toml

/-- The settings as configuration text. -/
def Settings.toToml (s : Settings) : String :=
  String.ofList (List.intercalate ['\n'] (s.tables.map Toml.tableChars))

end RecordCodec
