import RecordCodec.FieldType
import RecordCodec.Json.Basic

/-!
The fields of a schema. A field describes one value: its name and its key in documents, its type,
its nested fields when it is a struct, and the identity under which a struct may be shared. A
field that declares no type gets one from what else it declares.
-/

namespace RecordCodec

structure Field where
  name : String
  type : Option FieldType := none
  wireName : Option String := none
  description : Option String := none
  default : Option Json := none
  sample : Option Json := none
  properties : List Field := []
  identity : Option String := none
  capabilities : List String := []
  position : Option UInt32 := none

/-- What becomes of a field that declares neither a type nor anything to infer one from. -/
inductive UntypedPolicy where
  | asString
  | reject
deriving DecidableEq, Repr

namespace Field

/-- The key of the field in documents. -/
def wireKey (f : Field) : String := f.wireName.getD f.name

/-- The effective type; there is none for an untyped field that the policy rejects. -/
def type? (policy : UntypedPolicy) (f : Field) : Option FieldType :=
  match f.type with
  | some type => some type
  | none =>
      if !f.properties.isEmpty || f.identity.isSome then some .struct
      else match policy with
        | .asString => some (.scalar .string)
        | .reject => none

/-! ### Equality -/

mutual

def decEq : (a b : Field) → Decidable (a = b)
  | ⟨n, t, w, d, v, s, ps, i, c, p⟩, ⟨n', t', w', d', v', s', ps', i', c', p'⟩ =>
      have := decEqAll ps ps'
      decidable_of_iff
        (n = n' ∧ t = t' ∧ w = w' ∧ d = d' ∧ v = v' ∧ s = s' ∧ ps = ps' ∧ i = i' ∧ c = c' ∧ p = p')
        (by simp)

def decEqAll : (fs gs : List Field) → Decidable (fs = gs)
  | [], [] => isTrue rfl
  | [], _ :: _ => isFalse (by simp)
  | _ :: _, [] => isFalse (by simp)
  | f :: fs, g :: gs =>
      have := decEq f g
      have := decEqAll fs gs
      decidable_of_iff (f = g ∧ fs = gs) (by simp)

end

instance : DecidableEq Field := decEq

/-! ### Shared definitions

A field owns the definition of an identity when it declares the identity together with nested
fields. Several fields may; the first one counts, in the order in which the tree is read. -/

/-- Does the field itself declare the identity together with nested fields? -/
def owns (identity : String) (f : Field) : Bool :=
  f.identity = some identity && !f.properties.isEmpty

mutual

/-- The first owner in a field's tree. -/
def owner? (identity : String) : Field → Option Field
  | f@{ properties := ps, .. } => if f.owns identity then some f else ownerIn? identity ps

/-- The first owner in several trees. -/
def ownerIn? (identity : String) : List Field → Option Field
  | [] => none
  | f :: rest =>
      match owner? identity f with
      | some owner => some owner
      | none => ownerIn? identity rest

end

mutual

/-- The number of fields in a tree. -/
def count : Field → Nat
  | { properties := ps, .. } => countAll ps + 1

def countAll : List Field → Nat
  | [] => 0
  | f :: rest => count f + countAll rest

end

end Field
end RecordCodec
