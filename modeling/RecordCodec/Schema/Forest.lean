import RecordCodec.Error
import RecordCodec.Schema.Field

/-!
A schema: the trees of fields that are compiled together, and the identities that are defined
elsewhere. `validate` checks what must hold of every field before anything is generated: siblings
have different names, every field has a type, and only structs have nested fields. It reports the
first fault in the order in which the trees are read.
-/

namespace RecordCodec

structure Forest where
  roots : List Field
  external : List String := []
deriving DecidableEq

namespace Forest

/-- The field that owns the definition of an identity. -/
def owner? (forest : Forest) (identity : String) : Option Field :=
  Field.ownerIn? identity forest.roots

def isExternal (forest : Forest) (identity : String) : Bool := forest.external.contains identity

/-- The number of fields in all trees. -/
def fieldCount (forest : Forest) : Nat := Field.countAll forest.roots

end Forest

/-! ### Validation -/

/-- Checks one field by itself, its nested fields left aside. -/
def Field.check (policy : UntypedPolicy) (place : Place) (f : Field) : Except Error Unit :=
  match f.type? policy with
  | none => .error (.untypedField place)
  | some type =>
      if !f.properties.isEmpty && !type.isStructLeaf then
        .error (.propertiesOnNonStruct place type)
      else .ok ()

mutual

def Field.validate (policy : UntypedPolicy) (place : Place) : Field → Except Error Unit
  | f@{ properties := ps, .. } =>
      match f.check policy place with
      | .error e => .error e
      | .ok () => Field.validateNested policy place [] ps

/-- Checks the fields nested at `place`, after those with the names `seen`. -/
def Field.validateNested (policy : UntypedPolicy) (place : Place) (seen : List String) :
    List Field → Except Error Unit
  | [] => .ok ()
  | f :: rest =>
      if seen.contains f.name then .error (.duplicateField place f.name)
      else match Field.validate policy (place ++ [f.name]) f with
        | .error e => .error e
        | .ok () => Field.validateNested policy place (f.name :: seen) rest

end

namespace Forest

def validateRoots (policy : UntypedPolicy) (seen : List String) : List Field → Except Error Unit
  | [] => .ok ()
  | f :: rest =>
      if seen.contains f.name then .error (.duplicateRoot f.name)
      else match f.validate policy [f.name] with
        | .error e => .error e
        | .ok () => validateRoots policy (f.name :: seen) rest

def validate (policy : UntypedPolicy) (forest : Forest) : Except Error Unit :=
  validateRoots policy [] forest.roots

end Forest
end RecordCodec
