import RecordCodec.Entries
import RecordCodec.Text.Casing

/-!
Configuration values: what a configuration file or a variable of the environment can hold. Of a
number only its text matters, for settings are texts.

Values from several sources are laid over each other. Tables are joined, anything else replaces
what was there; keys count in lower case.
-/

namespace RecordCodec

inductive ConfigValue where
  | nothing
  | flag (on : Bool)
  | number (shown : String)
  | text (s : String)
  | list (items : List ConfigValue)
  | table (entries : List (String × ConfigValue))

namespace ConfigValue

instance : Inhabited ConfigValue := ⟨.nothing⟩

/-- The entries of a table; anything else has none. -/
def entries : ConfigValue → List (String × ConfigValue)
  | .table entries => entries
  | _ => []

/-- The items of a list; anything else has none. -/
def items : ConfigValue → List ConfigValue
  | .list items => items
  | _ => []

mutual

/-- Lays a value over what stands under a key. Where it is no table, the target becomes one. -/
def layUnder (key : String) : ConfigValue → ConfigValue → ConfigValue
  | .table incoming, target =>
      let old := (Entries.get? (Text.lower key) target.entries).getD (.table [])
      .table (Entries.put (Text.lower key) (layEntries incoming old) target.entries)
  | value, target => .table (Entries.put (Text.lower key) value target.entries)

/-- Lays entries over a value, one after the other. -/
def layEntries : List (String × ConfigValue) → ConfigValue → ConfigValue
  | [], target => target
  | (key, value) :: rest, target => layEntries rest (layUnder key value target)

end

end ConfigValue
end RecordCodec
