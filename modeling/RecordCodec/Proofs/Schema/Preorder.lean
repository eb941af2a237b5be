import RecordCodec.Schema.Forest

/-!
The fields of a schema in depth-first preorder: a field, the fields below it, then its later
siblings. The owner of an identity is the first in this order that owns it.
-/

namespace RecordCodec

namespace Field

mutual

/-- A field and all fields below it. -/
def preorder : Field → List Field
  | f@{ properties := ps, .. } => f :: preorderAll ps

/-- The fields of several trees. -/
def preorderAll : List Field → List Field
  | [] => []
  | f :: rest => preorder f ++ preorderAll rest

end

mutual

theorem owner?_eq_find? (identity : String) :
    (f : Field) → owner? identity f = f.preorder.find? (·.owns identity)
  | ⟨n, t, w, d, v, s, ps, i, c, p⟩ => by
      simp only [owner?, preorder, List.find?_cons]
      split
      · rename_i howns
        rw [howns]
      · rename_i howns
        rw [Bool.eq_false_iff.2 howns]
        exact ownerIn?_eq_find? identity ps

theorem ownerIn?_eq_find? (identity : String) :
    (fs : List Field) → ownerIn? identity fs = (preorderAll fs).find? (·.owns identity)
  | [] => rfl
  | f :: rest => by
      simp only [ownerIn?, preorderAll, List.find?_append, ← owner?_eq_find? identity f,
        ← ownerIn?_eq_find? identity rest]
      cases owner? identity f <;> rfl

end

mutual

theorem length_preorder : (f : Field) → f.preorder.length = f.count
  | ⟨n, t, w, d, v, s, ps, i, c, p⟩ => by
      simp only [preorder, count, List.length_cons, length_preorderAll ps]

theorem length_preorderAll : (fs : List Field) → (preorderAll fs).length = countAll fs
  | [] => rfl
  | f :: rest => by
      simp only [preorderAll, countAll, List.length_append, length_preorder f,
        length_preorderAll rest]

end

end Field

namespace Forest

/-- All fields of a schema, in depth-first preorder over the roots. -/
def fields (forest : Forest) : List Field := Field.preorderAll forest.roots

/-- The owner of an identity is the first field that declares it together with nested fields. -/
theorem owner?_eq_find? (forest : Forest) (identity : String) :
    forest.owner? identity = forest.fields.find? (·.owns identity) :=
  Field.ownerIn?_eq_find? identity forest.roots

theorem length_fields (forest : Forest) : forest.fields.length = forest.fieldCount :=
  Field.length_preorderAll forest.roots

end Forest
end RecordCodec
