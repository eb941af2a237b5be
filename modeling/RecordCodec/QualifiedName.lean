/-!
Names of generated artifacts: a simple name in a scope (a namespace). They are ordered by scope,
then by simple name.
-/

namespace RecordCodec

structure QualifiedName where
  scope : String
  name : String
deriving DecidableEq, Repr

namespace QualifiedName

/-- The dotted spelling; a name in the empty namespace stands alone. -/
def text (q : QualifiedName) : String :=
  if q.scope = "" then q.name else q.scope ++ "." ++ q.name

def compare (a b : QualifiedName) : Ordering :=
  (Ord.compare a.scope b.scope).then (Ord.compare a.name b.name)

end QualifiedName

/-- The names of everything that is generated for one record. -/
structure ArtifactNames where
  record : QualifiedName
  encoder : QualifiedName
  decoder : QualifiedName
  builder : QualifiedName
deriving DecidableEq, Repr

end RecordCodec
