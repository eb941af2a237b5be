import RecordCodec.FieldType
import RecordCodec.QualifiedName

/-!
Plans: what to do with the value of a field, layer by layer. A plan has the layers of a field type
and says at the leaf what stands there, a scalar, a record or a free document. Decoding, encoding,
comparing and copying all follow plans; they differ in how a plan refers to a record.
-/

namespace RecordCodec

inductive Plan (ρ : Type) where
  | scalar (kind : ScalarKind)
  | list (item : Plan ρ)
  | map (value : Plan ρ)
  | document
  | record (ref : ρ)
deriving DecidableEq, Repr

namespace Plan

variable {ρ σ : Type}

/-- The plan of a type. A struct leaf without a record is a free document. -/
def ofType (ref : Option ρ) : FieldType → Plan ρ
  | .scalar kind => .scalar kind
  | .list item => .list (ofType ref item)
  | .map value => .map (ofType ref value)
  | .struct =>
      match ref with
      | some r => .record r
      | none => .document

/-- The same plan with records referred to otherwise. -/
def mapRef (f : ρ → σ) : Plan ρ → Plan σ
  | .scalar kind => .scalar kind
  | .list item => .list (mapRef f item)
  | .map value => .map (mapRef f value)
  | .document => .document
  | .record r => .record (f r)

theorem ofType_map (f : ρ → σ) (ref : Option ρ) (type : FieldType) :
    ofType (ref.map f) type = (ofType ref type).mapRef f := by
  induction type with
  | scalar kind => rfl
  | struct => cases ref <;> rfl
  | list item ih => simp [ofType, mapRef, ih]
  | map value ih => simp [ofType, mapRef, ih]

/-! ### Plans with one image

Renaming the records keeps the layers of a plan. -/

section

variable {f : ρ → σ} {plan : Plan ρ}

theorem mapRef_eq_scalar {kind : ScalarKind} (h : plan.mapRef f = .scalar kind) :
    plan = .scalar kind := by
  cases plan <;> simp_all [mapRef]

theorem mapRef_eq_list {item : Plan σ} (h : plan.mapRef f = .list item) :
    ∃ item', plan = .list item' ∧ item'.mapRef f = item := by
  cases plan <;> simp_all [mapRef]

theorem mapRef_eq_map {value : Plan σ} (h : plan.mapRef f = .map value) :
    ∃ value', plan = .map value' ∧ value'.mapRef f = value := by
  cases plan <;> simp_all [mapRef]

theorem mapRef_eq_document (h : plan.mapRef f = .document) : plan = .document := by
  cases plan <;> simp_all [mapRef]

theorem mapRef_eq_record {s : σ} (h : plan.mapRef f = .record s) :
    ∃ r, plan = .record r ∧ f r = s := by
  cases plan <;> simp_all [mapRef]

end

end Plan

/-- How a codec's plan refers to a record: the record's name and that of the codec to use. -/
structure CodecRef where
  record : QualifiedName
  codec : QualifiedName
deriving DecidableEq, Repr

end RecordCodec
