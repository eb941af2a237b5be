import RecordCodec.Record.Definition

/-!
Which records refer to which. A reference leads from a field to the record at the leaf of its type
and counts the list and map layers between them. `reach` collects everything that references lead
to, layer by layer.
-/

namespace RecordCodec

structure Reference where
  source : QualifiedName
  field : String
  /-- The layers around the leaf; without any the reference is direct. -/
  depth : Nat
  target : QualifiedName
deriving DecidableEq, Repr

structure ReferenceGraph where
  nodes : List QualifiedName
  references : List Reference
deriving DecidableEq, Repr

namespace ReferenceGraph

def referencesOf (r : RecordDefinition) : List Reference :=
  r.fields.filterMap fun f => f.refersTo?.map fun target => ⟨r.name, f.name, f.type.depth, target⟩

/-- Every record and every target is a node, once. -/
def ofRecords (records : List RecordDefinition) : ReferenceGraph :=
  let references := records.flatMap referencesOf
  ⟨(records.map (·.name) ++ references.map (·.target)).eraseDups, references⟩

def targets (g : ReferenceGraph) (source : QualifiedName) : List QualifiedName :=
  (g.references.filter (·.source = source)).map (·.target)

def sorted (names : List QualifiedName) : List QualifiedName :=
  names.mergeSort fun a b => a.compare b != .gt

/-- The records that a record's fields refer to, in order and each once. -/
def dependencies (g : ReferenceGraph) (name : QualifiedName) : List QualifiedName :=
  sorted (g.targets name).eraseDups

/-- The names that are not in `front`. -/
def outside (front unseen : List QualifiedName) : List QualifiedName :=
  unseen.filter fun n => !front.contains n

/-- The names among `unseen` that are in `front` or that references lead to from there. Each round
takes the front out of what is unseen, so there are at most as many rounds as names. -/
def reach (next : QualifiedName → List QualifiedName) (unseen front : List QualifiedName) :
    List QualifiedName :=
  match _h : unseen.filter front.contains with
  | [] => []
  | q :: fresh =>
      q :: fresh ++
        reach next (outside front unseen) ((q :: fresh).flatMap next)
termination_by unseen.length
decreasing_by
  have hq : q ∈ unseen.filter front.contains := by simp [_h]
  rw [List.mem_filter] at hq
  exact List.length_filter_lt_length_iff_exists.2 ⟨q, hq.1, by simpa using hq.2⟩

/-- The records reached from a record through one or more references. -/
def reachable (g : ReferenceGraph) (name : QualifiedName) : List QualifiedName :=
  reach g.targets g.nodes (g.targets name)

end ReferenceGraph
end RecordCodec
