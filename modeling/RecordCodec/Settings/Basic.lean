import RecordCodec.Naming.Style
import RecordCodec.Schema.Field

/-!
The settings of a compilation: how names are made, what becomes of untyped fields, and which
identities are defined elsewhere.
-/

namespace RecordCodec

structure Settings where
  naming : Naming.Style := {}
  untyped : UntypedPolicy := .asString
  external : List String := []
deriving DecidableEq

end RecordCodec
