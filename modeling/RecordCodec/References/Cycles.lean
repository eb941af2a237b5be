import RecordCodec.References.Graph

/-!
Cycles of references. Records that reach each other form a component; a component is a cycle when
it has several records, or one that refers to itself, and its records are the recursive ones.
Inside a cycle a direct reference must be boxed, since a record cannot hold itself; lists and maps
are indirect as they are.
-/

namespace RecordCodec

structure BoxedField where
  record : QualifiedName
  field : String
  target : QualifiedName
deriving DecidableEq, Repr

structure CycleGroup where
  members : List QualifiedName
  boxed : List BoxedField
  /-- The members with a field that refers to the member itself. -/
  selfReferring : List QualifiedName
deriving DecidableEq, Repr

namespace ReferenceGraph

/-! ### Components -/

/-- Every node with what is reachable from it. -/
def reaches (g : ReferenceGraph) : List (QualifiedName × List QualifiedName) :=
  g.nodes.map fun n => (n, g.reachable n)

/-- A node with those that it reaches and that reach it. -/
def classOf (reaches : List (QualifiedName × List QualifiedName))
    (p : QualifiedName × List QualifiedName) : List QualifiedName :=
  (reaches.filter fun q => q.1 = p.1 || (p.2.contains q.1 && q.2.contains p.1)).map Prod.fst

/-- The strongly connected components, each made at the first of its nodes. -/
def components (g : ReferenceGraph) : List (List QualifiedName) :=
  let reaches := g.reaches
  (reaches.filter fun p => (classOf reaches p).head? = some p.1).map (classOf reaches)

def isCycle (g : ReferenceGraph) (component : List QualifiedName) : Bool :=
  component.length > 1 || component.any fun n => (g.targets n).contains n

/-! ### Groups -/

def inside (members : List QualifiedName) (r : Reference) : Bool :=
  members.contains r.source && members.contains r.target

/-- By record, then by field; of references with the same field the later comes first. -/
def boxedIn (g : ReferenceGraph) (members : List QualifiedName) : List BoxedField :=
  ((g.references.reverse.filter fun r => inside members r && r.depth == 0).map fun r =>
    (⟨r.source, r.field, r.target⟩ : BoxedField)).mergeSort fun a b =>
      (a.record.compare b.record).then (compare a.field b.field) != .gt

def group (g : ReferenceGraph) (members : List QualifiedName) : CycleGroup where
  members := members
  boxed := g.boxedIn members
  selfReferring := members.filter fun m => (g.targets m).contains m

/-- The groups of those components that are cycles, ordered by their members. -/
def groupsOf (g : ReferenceGraph) (components : List (List QualifiedName)) : List CycleGroup :=
  (((components.filter g.isCycle).map sorted).mergeSort fun a b =>
    a.compareLex QualifiedName.compare b != .gt).map g.group

def cycleGroups (g : ReferenceGraph) : List CycleGroup := g.groupsOf g.components

end ReferenceGraph

/-! ### Asking about one record -/

/-- The group of a record and its number, if the record is recursive. -/
def groupOf? (groups : List CycleGroup) (name : QualifiedName) : Option (Nat × CycleGroup) :=
  (groups.zipIdx.find? fun p => p.1.members.contains name).map fun p => (p.2, p.1)

def isRecursive (groups : List CycleGroup) (name : QualifiedName) : Bool :=
  (groupOf? groups name).isSome

def CycleGroup.boxedFields (group : CycleGroup) (name : QualifiedName) : List String :=
  (group.boxed.filter (·.record = name)).map (·.field)

def needsBox (groups : List CycleGroup) (name : QualifiedName) (field : String) : Bool :=
  match groupOf? groups name with
  | some (_, group) => (group.boxedFields name).contains field
  | none => false

end RecordCodec
