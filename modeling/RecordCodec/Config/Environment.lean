import RecordCodec.Binary64.Text
import RecordCodec.Config.Route

/-!
Configuration from variables of the environment: `SCHEMAC__NAMING__ROOT_NAMESPACE` sets the root
namespace. The name of a variable counts without regard to case, and variables with other
beginnings are ignored. A variable that reads as a truth value or a number is taken as such.
-/

namespace RecordCodec.Environment

/-- What every variable begins with. -/
def mark : List Char := "schemac__".toList

/-- Replaces every double underscore by a point, from the left. -/
def pointed : List Char → List Char
  | '_' :: '_' :: rest => '.' :: pointed rest
  | c :: rest => c :: pointed rest
  | [] => []

/-- The route to what a variable sets. -/
def routeOf? (name : String) : Option String :=
  let cs := (Text.lower name).toList
  if mark.isPrefixOf cs then some (String.ofList (pointed (cs.drop mark.length))) else none

/-- What a variable's text stands for. -/
def valueOf (text : String) : ConfigValue :=
  if Text.lower text = "true" then .flag true
  else if Text.lower text = "false" then .flag false
  else match Text.readInt64? text, Binary64.ofText? text with
    | some i, _ => .number (Text.intText i.toInt)
    | none, some x => .number x.text
    | none, none => .text text

/-- Sets what a variable, given by name and text, sets. -/
def override (config : ConfigValue) (assignment : String × String) : Except Error ConfigValue :=
  match routeOf? assignment.1 with
  | some route => config.set route (valueOf assignment.2)
  | none => .ok config

end RecordCodec.Environment
