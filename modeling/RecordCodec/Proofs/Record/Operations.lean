import RecordCodec.Proofs.Record.Decoded
import RecordCodec.Proofs.Record.Equality
import RecordCodec.Proofs.Record.Order

/-!
Equality and copies of records. Comparable records are tested for equality without failing, as they
are compared. A copy is the record again, whatever the record.
-/

namespace RecordCodec

/-! ### Equality -/

section

variable {kinds : Kinds} {methods : MethodTable}

theorem Match.both_total {first second : Match} (h : ∃ t, first = .ok t)
    (h' : ∃ t, second = .ok t) : ∃ t, first.both second = .ok t := by
  obtain ⟨t, rfl⟩ := h
  cases t with
  | true => exact h'
  | false => exact ⟨false, rfl⟩

theorem isEq_total {c : Comparison} (h : ∃ o, c = .ok o) : ∃ t, c.isEq = .ok t := by
  obtain ⟨o, rfl⟩ := h
  exact ⟨_, rfl⟩

theorem matchItems_total {item : Plan QualifiedName} {P : Value → Prop} {xs ys : List Value}
    (h : ∀ x ∈ xs, ∀ y, P y → ∃ t, equalValue methods x item y = .ok t) (hy : ∀ y ∈ ys, P y) :
    ∃ t, matchItems item (itemMatchers methods xs) ys = .ok t := by
  induction xs generalizing ys with
  | nil =>
      cases ys with
      | nil => exact ⟨true, rfl⟩
      | cons y ys => exact ⟨false, rfl⟩
  | cons x xs ih =>
      obtain ⟨hx, hxs⟩ := List.forall_mem_cons.1 h
      cases ys with
      | nil => exact ⟨false, rfl⟩
      | cons y ys =>
          obtain ⟨hy, hys⟩ := List.forall_mem_cons.1 hy
          exact Match.both_total (hx y hy) (ih hxs hys)

theorem matchEntries_total {value : Plan QualifiedName} {P : Value → Prop}
    {xs ys : List (String × Value)}
    (h : ∀ p ∈ xs, ∀ y, P y → ∃ t, equalValue methods p.2 value y = .ok t)
    (hy : ∀ p ∈ ys, P p.2) : ∃ t, matchEntries value ys (entryMatchers methods xs) = .ok t := by
  induction xs with
  | nil => exact ⟨true, rfl⟩
  | cons p xs ih =>
      obtain ⟨hp, hxs⟩ := List.forall_mem_cons.1 h
      rw [entryMatchers, matchEntries]
      cases hget : Entries.get? p.1 ys with
      | none => exact ⟨false, rfl⟩
      | some y => exact Match.both_total (hp y (hy _ (Entries.mem_of_get? hget))) (ih hxs)

theorem matchMethods_total {ms : List FieldMethod} {xs ys : List (String × Value)}
    (h : ∀ m ∈ ms, ∃ t, equalValue methods (Entries.getD m.field xs) m.comparator
      (Entries.getD m.field ys) = .ok t) :
    ∃ t, matchMethods (entryMatchers methods xs) ys ms = .ok t := by
  induction ms with
  | nil => exact ⟨true, rfl⟩
  | cons m ms ih =>
      obtain ⟨hm, hms⟩ := List.forall_mem_cons.1 h
      rw [matchMethods, matcher_getD]
      exact Match.both_total hm (ih hms)

/-- Null is equal to null only, which needs no look at the other value. -/
theorem equalValue_nulls_total {plan : Plan QualifiedName} {x y : Value}
    (h : x ≠ .null → y ≠ .null → ∃ t, equalValue methods x plan y = .ok t) :
    ∃ t, equalValue methods x plan y = .ok t := by
  by_cases hx : x = .null
  · rw [hx]
    exact ⟨_, rfl⟩
  · by_cases hy : y = .null
    · rw [hy]
      cases x with
      | null => exact absurd rfl hx
      | _ => exact ⟨false, rfl⟩
    · exact h hx hy

/-- Comparable values of one plan are equal or not; testing never fails. -/
theorem equalValue_total (hm : ∀ name fields, kinds name = some fields →
      methods name = some (fields.map RecordField.method))
    {plan : Plan QualifiedName} {x : Value} (hx : Shaped kinds comparableLeaves plan x) :
    ∀ y : Value, Shaped kinds comparableLeaves plan y →
      ∃ t, equalValue methods x plan y = .ok t := by
  induction hx with
  | null => exact fun y _ => ⟨_, rfl⟩
  | scalar hv =>
      intro y hy
      refine equalValue_nulls_total fun hxn hyn => ?_
      rw [equalValue_scalar hxn hyn]
      have hy := hy.scalar_of_ne hyn
      exact isEq_total (coherent_compareScalars hv hy hy).total
  | list _ ih =>
      intro y hy
      refine equalValue_nulls_total fun _ hyn => ?_
      obtain ⟨ys, rfl, hys⟩ := hy.list_of_ne hyn
      rw [equalValue]
      split
      · exact matchItems_total ih hys
      · exact ⟨false, rfl⟩
  | map _ _ ih =>
      intro y hy
      refine equalValue_nulls_total fun _ hyn => ?_
      obtain ⟨ys, rfl, hys⟩ := hy.map_of_ne hyn
      rw [equalValue]
      split
      · exact matchEntries_total ih hys
      · exact ⟨false, rfl⟩
  | document hv =>
      intro y hy
      refine equalValue_nulls_total fun hxn hyn => ?_
      rw [equalValue_document hxn hyn]
      have hy := hy.document_of_ne hyn
      exact isEq_total (coherent_compareRendered hv hy hy).total
  | @record name fields xs hk _ hfields ih =>
      intro y hy
      refine equalValue_nulls_total fun _ hyn => ?_
      obtain ⟨ys, rfl, hys⟩ := hy.record_of_ne hk hyn
      rw [equalValue, if_pos rfl, hm name fields hk]
      refine matchMethods_total fun m hmem => ?_
      obtain ⟨f, hf, rfl⟩ := List.mem_map.1 hmem
      have hy' := shaped_getD (hys f hf)
      rw [RecordField.field_method, RecordField.comparator_method]
      rcases getD_cases f.name xs with hnull | hsome
      · rw [hnull]
        exact ⟨_, rfl⟩
      · exact ih f hf _ hsome _ hy'

theorem equals_total (hm : ∀ name fields, kinds name = some fields →
      methods name = some (fields.map RecordField.method))
    {a b : Record} (ha : a.Shaped kinds comparableLeaves) (hb : b.Shaped kinds comparableLeaves) :
    ∃ t, a.equals methods b = .ok t := by
  rw [Record.equals_eq_equalValue a b a.name]
  by_cases hname : a.name = b.name
  · unfold Record.Shaped at ha hb
    rw [← hname] at hb
    exact equalValue_total hm ha _ hb
  · rw [Record.toValue, Record.toValue, equalValue, if_neg hname]
    exact ⟨false, rfl⟩

end

/-! ### Copies -/

section

variable {methods : MethodTable}

theorem copyItems_eq {item : Plan QualifiedName} {items : List Value}
    (h : ∀ v ∈ items, ∀ plan, copyValue methods v plan = v) :
    copyItems methods item items = items := by
  induction items with
  | nil => rfl
  | cons v items ih =>
      obtain ⟨hv, hitems⟩ := List.forall_mem_cons.1 h
      rw [copyItems, hv, ih hitems]

theorem copyEntries_eq {value : Plan QualifiedName} {entries : List (String × Value)}
    (h : ∀ p ∈ entries, ∀ plan, copyValue methods p.2 plan = p.2) :
    copyEntries methods value entries = entries := by
  induction entries with
  | nil => rfl
  | cons p entries ih =>
      obtain ⟨hp, hentries⟩ := List.forall_mem_cons.1 h
      rw [copyEntries, hp, ih hentries]

theorem copyFields_eq {own : Option (List FieldMethod)} {fields : List (String × Value)}
    (h : ∀ p ∈ fields, ∀ plan, copyValue methods p.2 plan = p.2) :
    copyFields methods own fields = fields := by
  induction fields with
  | nil => rfl
  | cons p fields ih =>
      obtain ⟨hp, hfields⟩ := List.forall_mem_cons.1 h
      rw [copyFields, ih hfields]
      split
      · rw [hp]
      · rfl

theorem copyValue_eq (v : Value) : ∀ plan, copyValue methods v plan = v := by
  induction v using Value.nestedInduction with
  | leaf v hl hm hr =>
      intro plan
      cases v with
      | list items => cases hl
      | map entries => cases hm
      | record name fields => cases hr
      | _ => rfl
  | list items ih =>
      intro plan
      cases plan with
      | list item => exact congrArg Value.list (copyItems_eq ih)
      | _ => rfl
  | map entries ih =>
      intro plan
      cases plan with
      | map value => exact congrArg Value.map (copyEntries_eq ih)
      | _ => rfl
  | record name fields ih =>
      intro plan
      cases plan with
      | record ref => exact congrArg (Value.record name) (copyFields_eq ih)
      | _ => rfl

/-- A copy is the record again. -/
theorem Record.deepCopy_eq (r : Record) : r.deepCopy methods = r :=
  congrArg (Record.mk r.name) (copyFields_eq fun p _ => copyValue_eq p.2)

end

end RecordCodec
