import RecordCodec.Proofs.Codec.Points
import RecordCodec.Proofs.EndOfRun
import RecordCodec.Proofs.Record.Operations

/-!
Records against their copies. A copy is the record again, so comparing the two compares every value
with itself: nothing differs, and the whole of the record is looked at. Values of the form that
their plan has are taken apart or compared by what they hold; all others are compared by their
texts. A record and its copy are therefore found equal unless a value whose text is asked for holds
a decimal that cannot be written.
-/

namespace RecordCodec

/-- Maps and records hold their entries in key order, at every depth. -/
inductive Value.InKeyOrder : Value → Prop
  | leaf {v : Value} : v.asList? = none → v.asMap? = none → v.asRecord? = none → InKeyOrder v
  | list {items : List Value} : (∀ v ∈ items, InKeyOrder v) → InKeyOrder (.list items)
  | map {entries : List (String × Value)} :
      Entries.Sorted entries → (∀ p ∈ entries, InKeyOrder p.2) → InKeyOrder (.map entries)
  | record {name : QualifiedName} {fields : List (String × Value)} :
      Entries.Sorted fields → (∀ p ∈ fields, InKeyOrder p.2) → InKeyOrder (.record name fields)

/-! ### Texts that are asked for -/

/-- The plan has a place for values of this form and looks at what they hold. -/
def Plan.opens : Plan QualifiedName → Value → Bool
  | .scalar _, .string _ => true
  | .scalar _, .int _ => true
  | .scalar _, .long _ => true
  | .scalar _, .decimal _ => true
  | .scalar _, .boolean _ => true
  | .list _, .list _ => true
  | .map _, .map _ => true
  | .record _, .record _ _ => true
  | _, _ => false

/-- Whose texts are asked for when a value is compared with itself: those of the values inside that
have another form than their plan, and in ordering those of records of an unknown kind, which
equality compares field by field. -/
inductive AsksText (methods : MethodTable) (ordering : Bool) :
    Plan QualifiedName → Value → Value → Prop
  | whole {plan : Plan QualifiedName} {v : Value} :
      v ≠ .null → plan.opens v = false → AsksText methods ordering plan v v
  | item {item : Plan QualifiedName} {items : List Value} {v w : Value} :
      v ∈ items → AsksText methods ordering item v w →
      AsksText methods ordering (.list item) (.list items) w
  | entry {value : Plan QualifiedName} {entries : List (String × Value)} {p : String × Value}
      {w : Value} :
      p ∈ entries → AsksText methods ordering value p.2 w →
      AsksText methods ordering (.map value) (.map entries) w
  | field {ref name : QualifiedName} {fields : List (String × Value)} {ms : List FieldMethod}
      {m : FieldMethod} {w : Value} :
      methods name = some ms → m ∈ ms →
      AsksText methods ordering m.comparator (Entries.getD m.field fields) w →
      AsksText methods ordering (.record ref) (.record name fields) w
  | unknown {ref name : QualifiedName} {fields : List (String × Value)} :
      methods name = none → ordering = true →
      AsksText methods ordering (.record ref) (.record name fields) (.record name fields)

section

variable {methods : MethodTable} {ordering : Bool} {plan : Plan QualifiedName} {v w : Value}

theorem not_asksText_null : ¬AsksText methods ordering plan .null w := by
  intro h
  cases h with
  | whole hne _ => exact hne rfl

theorem asksText_whole_iff (hne : v ≠ .null) (hform : plan.opens v = false) :
    AsksText methods ordering plan v w ↔ w = v := by
  constructor
  · intro h
    cases h with
    | whole _ _ => rfl
    | item _ _ => cases hform
    | entry _ _ => cases hform
    | field _ _ _ => cases hform
    | unknown _ _ => rfl
  · rintro rfl
    exact .whole hne hform

theorem not_asksText_scalar {kind : ScalarKind}
    (hform : Plan.opens (.scalar kind) v = true) :
    ¬AsksText methods ordering (.scalar kind) v w := by
  intro h
  cases h with
  | whole _ hother =>
      rw [hform] at hother
      cases hother

theorem asksText_list_iff {item : Plan QualifiedName} {items : List Value} :
    AsksText methods ordering (.list item) (.list items) w ↔
      ∃ v ∈ items, AsksText methods ordering item v w := by
  constructor
  · intro h
    cases h with
    | whole _ hform => cases hform
    | item hv hw => exact ⟨_, hv, hw⟩
  · rintro ⟨v, hv, hw⟩
    exact .item hv hw

theorem asksText_map_iff {value : Plan QualifiedName} {entries : List (String × Value)} :
    AsksText methods ordering (.map value) (.map entries) w ↔
      ∃ p ∈ entries, AsksText methods ordering value p.2 w := by
  constructor
  · intro h
    cases h with
    | whole _ hform => cases hform
    | entry hp hw => exact ⟨_, hp, hw⟩
  · rintro ⟨p, hp, hw⟩
    exact .entry hp hw

theorem asksText_record_iff {ref name : QualifiedName} {fields : List (String × Value)}
    {ms : List FieldMethod} (hms : methods name = some ms) :
    AsksText methods ordering (.record ref) (.record name fields) w ↔
      ∃ m ∈ ms, AsksText methods ordering m.comparator (Entries.getD m.field fields) w := by
  constructor
  · intro h
    cases h with
    | whole _ hform => cases hform
    | field hms' hm hw =>
        rw [hms] at hms'
        cases hms'
        exact ⟨_, hm, hw⟩
    | unknown hnone _ =>
        rw [hms] at hnone
        cases hnone
  · rintro ⟨m, hm, hw⟩
    exact .field hms hm hw

theorem asksText_unknown_iff {ref name : QualifiedName} {fields : List (String × Value)}
    (hnone : methods name = none) :
    AsksText methods ordering (.record ref) (.record name fields) w ↔
      ordering = true ∧ w = .record name fields := by
  constructor
  · intro h
    cases h with
    | whole _ hform => cases hform
    | field hms _ _ =>
        rw [hnone] at hms
        cases hms
    | unknown _ hordering => exact ⟨hordering, rfl⟩
  · rintro ⟨hordering, rfl⟩
    exact .unknown hnone hordering

end

/-! ### What asking comes to -/

/-- The answer is the expected one, unless the text of a value is asked for that has none. -/
inductive Settles {α : Type} (asked : Value → Prop) (expected : α) : Except Error α → Prop
  | answers : (∀ w, asked w → w.isWritable = true) → Settles asked expected (.ok expected)
  | stops {w : Value} : asked w → w.isWritable = false →
      Settles asked expected (.error (.pointInsideCharacter w.render))

namespace Settles

variable {α : Type} {asked asked' : Value → Prop} {expected : α} {answer : Except Error α}

theorem of_none (h : ∀ w, ¬asked w) : Settles asked expected (.ok expected) :=
  .answers fun w hw => absurd hw (h w)

theorem congr (h : Settles asked expected answer) (heq : ∀ w, asked w ↔ asked' w) :
    Settles asked' expected answer := by
  cases h with
  | answers hall => exact .answers fun w hw => hall w ((heq w).2 hw)
  | stops hw hpoint => exact .stops ((heq _).1 hw) hpoint

theorem eq_ok_iff (h : Settles asked expected answer) :
    answer = .ok expected ↔ ∀ w, asked w → w.isWritable = true := by
  cases h with
  | answers hall => exact ⟨fun _ => hall, fun _ => rfl⟩
  | @stops w hw hpoint =>
      refine ⟨nofun, fun hall => ?_⟩
      have hwritable := hall w hw
      rw [hpoint] at hwritable
      cases hwritable

theorem thenBy {first second : Comparison} (h : Settles asked .eq first)
    (h' : Settles asked' .eq second) :
    Settles (fun w => asked w ∨ asked' w) .eq (first.thenBy second) := by
  cases h with
  | stops hw hpoint => exact .stops (.inl hw) hpoint
  | answers hall =>
      show Settles _ _ second
      cases h' with
      | stops hw hpoint => exact .stops (.inr hw) hpoint
      | answers hall' => exact .answers fun w hw => hw.elim (hall w) (hall' w)

theorem both {first second : Match} (h : Settles asked true first)
    (h' : Settles asked' true second) :
    Settles (fun w => asked w ∨ asked' w) true (first.both second) := by
  cases h with
  | stops hw hpoint => exact .stops (.inl hw) hpoint
  | answers hall =>
      show Settles _ _ second
      cases h' with
      | stops hw hpoint => exact .stops (.inr hw) hpoint
      | answers hall' => exact .answers fun w hw => hw.elim (hall w) (hall' w)

theorem isEq {c : Comparison} (h : Settles asked .eq c) : Settles asked true c.isEq := by
  cases h with
  | answers hall => exact .answers hall
  | stops hw hpoint => exact .stops hw hpoint

end Settles

/-! ### Leaves -/

theorem settles_compareRendered (v : Value) :
    Settles (fun w => w = v) .eq (v.compareRendered v) := by
  have hself : ∀ s : String, compare s s = .eq := fun _ => Std.ReflCmp.compare_self
  unfold Value.compareRendered Value.rendering
  rw [hself]
  cases hv : v.isWritable with
  | true =>
      show Settles _ _ (Except.ok (compare v.render v.render))
      rw [hself]
      exact .answers fun w hw => hw ▸ hv
  | false => exact .stops rfl hv

section

variable {methods : MethodTable} {plan : Plan QualifiedName} {v : Value}

/-- A scalar in the place of one is compared by what it is. -/
theorem compareScalars_self {kind : ScalarKind} (h : Plan.opens (.scalar kind) v = true) :
    compareScalars v v = .ok .eq := by
  cases v with
  | string s => exact congrArg Except.ok Std.ReflCmp.compare_self
  | boolean b => exact congrArg Except.ok Std.ReflCmp.compare_self
  | int i => exact congrArg Except.ok Std.ReflCmp.compare_self
  | long i => exact congrArg Except.ok Std.ReflCmp.compare_self
  | decimal d => exact congrArg Except.ok Std.ReflCmp.compare_self
  | _ => cases h

theorem compareValue_whole (hne : v ≠ .null) (hform : plan.opens v = false) :
    compareValue methods v plan v = v.compareRendered v := by
  cases v with
  | null => exact absurd rfl hne
  | _ =>
      cases plan with
      | document => rfl
      | _ =>
          first
          | rfl
          | cases hform

theorem equalValue_whole (hne : v ≠ .null) (hform : plan.opens v = false) :
    equalValue methods v plan v = Comparison.isEq (v.compareRendered v) := by
  cases v with
  | null => exact absurd rfl hne
  | _ =>
      cases plan with
      | document => rfl
      | _ =>
          first
          | rfl
          | cases hform

/-! ### Rows and entries -/

theorem settles_compareItems {ordering : Bool} {item : Plan QualifiedName} {items : List Value}
    (h : ∀ v ∈ items,
      Settles (AsksText methods ordering item v) .eq (compareValue methods v item v)) :
    Settles (fun w => ∃ v ∈ items, AsksText methods ordering item v w) .eq
      (compareItems item (itemComparers methods items) items) := by
  induction items with
  | nil => exact .of_none fun w hw => by simp at hw
  | cons v rest ih =>
      obtain ⟨hv, hrest⟩ := List.forall_mem_cons.1 h
      exact (hv.thenBy (ih hrest)).congr fun w => by simp

theorem settles_matchItems {item : Plan QualifiedName} {items : List Value}
    (h : ∀ v ∈ items,
      Settles (AsksText methods false item v) true (equalValue methods v item v)) :
    Settles (fun w => ∃ v ∈ items, AsksText methods false item v w) true
      (matchItems item (itemMatchers methods items) items) := by
  induction items with
  | nil => exact .of_none fun w hw => by simp at hw
  | cons v rest ih =>
      obtain ⟨hv, hrest⟩ := List.forall_mem_cons.1 h
      exact (hv.both (ih hrest)).congr fun w => by simp

/-- Fields are compared by the methods in turn, fields that are not set as null. -/
theorem settles_compareMethods {ordering : Bool} {fields : List (String × Value)}
    (h : ∀ p ∈ fields, ∀ plan,
      Settles (AsksText methods ordering plan p.2) .eq (compareValue methods p.2 plan p.2))
    (ms : List FieldMethod) :
    Settles (fun w => ∃ m ∈ ms,
        AsksText methods ordering m.comparator (Entries.getD m.field fields) w) .eq
      (compareMethods (entryComparers methods fields) fields ms) := by
  induction ms with
  | nil => exact .of_none fun w hw => by simp at hw
  | cons m rest ih =>
      have hfield := getD_of_forall (P := fun v => Settles (AsksText methods ordering m.comparator v)
        .eq (compareValue methods v m.comparator v)) (.of_none fun _ => not_asksText_null)
        (fun p hp => h p hp m.comparator) m.field
      rw [compareMethods_cons]
      exact (hfield.thenBy ih).congr fun w => by simp

theorem settles_matchMethods {fields : List (String × Value)}
    (h : ∀ p ∈ fields, ∀ plan,
      Settles (AsksText methods false plan p.2) true (equalValue methods p.2 plan p.2))
    (ms : List FieldMethod) :
    Settles (fun w => ∃ m ∈ ms,
        AsksText methods false m.comparator (Entries.getD m.field fields) w) true
      (matchMethods (entryMatchers methods fields) fields ms) := by
  induction ms with
  | nil => exact .of_none fun w hw => by simp at hw
  | cons m rest ih =>
      have hfield := getD_of_forall (P := fun v => Settles (AsksText methods false m.comparator v)
        true (equalValue methods v m.comparator v)) (.of_none fun _ => not_asksText_null)
        (fun p hp => h p hp m.comparator) m.field
      rw [matchMethods, matcher_getD]
      exact (hfield.both ih).congr fun w => by simp [Entries.getD]

/-- In key order every entry is what stands under its key. -/
theorem settles_compareKeys {value : Plan QualifiedName} {entries : List (String × Value)}
    (hs : Entries.Sorted entries)
    (h : ∀ p ∈ entries, ∀ plan,
      Settles (AsksText methods true plan p.2) .eq (compareValue methods p.2 plan p.2)) :
    Settles (fun w => ∃ p ∈ entries, AsksText methods true value p.2 w) .eq
      (compareKeys value (entryComparers methods entries) entries
        (Entries.unionKeys entries entries)) := by
  rw [compareKeys_eq_methods]
  refine (settles_compareMethods h _).congr fun w => ?_
  constructor
  · rintro ⟨m, hm, hw⟩
    obtain ⟨key, _, rfl⟩ := List.mem_map.1 hm
    obtain hnull | hsome := getD_cases key entries
    · rw [entryMethod, hnull] at hw
      exact absurd hw not_asksText_null
    · exact ⟨_, Entries.mem_of_get? hsome, hw⟩
  · rintro ⟨p, hp, hw⟩
    have hkey : p.1 ∈ Entries.unionKeys entries entries :=
      Entries.mem_unionKeys.2 (.inl (List.mem_map_of_mem hp))
    refine ⟨entryMethod value p.1, List.mem_map_of_mem hkey, ?_⟩
    rw [entryMethod, Entries.getD_of_mem hs hp]
    exact hw

theorem settles_matchEntries {value : Plan QualifiedName} {all entries : List (String × Value)}
    (hs : Entries.Sorted all) (hall : ∀ p ∈ entries, p ∈ all)
    (h : ∀ p ∈ entries,
      Settles (AsksText methods false value p.2) true (equalValue methods p.2 value p.2)) :
    Settles (fun w => ∃ p ∈ entries, AsksText methods false value p.2 w) true
      (matchEntries value all (entryMatchers methods entries)) := by
  induction entries with
  | nil => exact .of_none fun w hw => by simp at hw
  | cons p rest ih =>
      obtain ⟨hp, hrest⟩ := List.forall_mem_cons.1 h
      obtain ⟨hmem, hothers⟩ := List.forall_mem_cons.1 hall
      rw [entryMatchers, matchEntries, Entries.get?_of_mem hs hmem]
      exact (hp.both (ih hothers hrest)).congr fun w => by simp

end

/-! ### Values -/

section

variable {methods : MethodTable}

theorem settles_compareValue_of_opens {plan : Plan QualifiedName} {v : Value}
    (h : plan.opens v = true →
      Settles (AsksText methods true plan v) .eq (compareValue methods v plan v)) :
    Settles (AsksText methods true plan v) .eq (compareValue methods v plan v) := by
  by_cases hne : v = .null
  · rw [hne]
    exact .of_none fun _ => not_asksText_null
  · cases hform : plan.opens v with
    | true => exact h hform
    | false =>
        rw [compareValue_whole hne hform]
        exact (settles_compareRendered v).congr fun _ => (asksText_whole_iff hne hform).symm

theorem settles_equalValue_of_opens {plan : Plan QualifiedName} {v : Value}
    (h : plan.opens v = true →
      Settles (AsksText methods false plan v) true (equalValue methods v plan v)) :
    Settles (AsksText methods false plan v) true (equalValue methods v plan v) := by
  by_cases hne : v = .null
  · rw [hne]
    exact .of_none fun _ => not_asksText_null
  · cases hform : plan.opens v with
    | true => exact h hform
    | false =>
        rw [equalValue_whole hne hform]
        exact (settles_compareRendered v).isEq.congr fun _ => (asksText_whole_iff hne hform).symm

/-- A plan that opens what holds no other values is one for scalars. -/
theorem scalar_of_opens {plan : Plan QualifiedName} {v : Value} (hl : v.asList? = none)
    (hm : v.asMap? = none) (hr : v.asRecord? = none) (hform : plan.opens v = true) :
    v ≠ .null ∧ ∃ kind, plan = .scalar kind := by
  have hne : v ≠ .null := by
    rintro rfl
    cases plan <;> cases hform
  refine ⟨hne, ?_⟩
  cases plan with
  | scalar kind => exact ⟨kind, rfl⟩
  | _ =>
      cases v with
      | list items => cases hl
      | map entries => cases hm
      | record name fields => cases hr
      | _ => cases hform

/-- Whatever the plan, ordering a value against itself finds it equal, as far as that gets. -/
theorem settles_compareValue {v : Value} (h : v.InKeyOrder) (plan : Plan QualifiedName) :
    Settles (AsksText methods true plan v) .eq (compareValue methods v plan v) := by
  induction h generalizing plan with
  | leaf hl hm hr =>
      refine settles_compareValue_of_opens fun hform => ?_
      obtain ⟨hne, kind, rfl⟩ := scalar_of_opens hl hm hr hform
      rw [compareValue_scalar hne hne, compareScalars_self hform]
      exact .of_none fun _ => not_asksText_scalar hform
  | list _ ih =>
      refine settles_compareValue_of_opens fun hform => ?_
      cases plan with
      | list item =>
          rw [compareValue]
          exact (settles_compareItems fun v hv => ih v hv item).congr
            fun _ => asksText_list_iff.symm
      | _ => cases hform
  | @map entries hs _ ih =>
      refine settles_compareValue_of_opens fun hform => ?_
      cases plan with
      | map value =>
          have hself : compare entries.length entries.length = .eq := Std.ReflCmp.compare_self
          have hlength : Settles (fun _ => False) .eq
              (.ok (compare entries.length entries.length)) := by
            rw [hself]
            exact .of_none fun _ => id
          rw [compareValue]
          exact ((settles_compareKeys hs ih).thenBy hlength).congr
            fun w => by rw [asksText_map_iff, or_false]
      | _ => cases hform
  | @record name fields _ _ ih =>
      refine settles_compareValue_of_opens fun hform => ?_
      cases plan with
      | record ref =>
          rw [compareValue, if_pos rfl]
          cases hms : methods name with
          | some ms =>
              exact (settles_compareMethods ih ms).congr fun _ => (asksText_record_iff hms).symm
          | none =>
              exact (settles_compareRendered _).congr
                fun w => by rw [asksText_unknown_iff hms, and_iff_right rfl]
      | _ => cases hform

/-- So does testing it for equality. -/
theorem settles_equalValue {v : Value} (h : v.InKeyOrder) (plan : Plan QualifiedName) :
    Settles (AsksText methods false plan v) true (equalValue methods v plan v) := by
  induction h generalizing plan with
  | leaf hl hm hr =>
      refine settles_equalValue_of_opens fun hform => ?_
      obtain ⟨hne, kind, rfl⟩ := scalar_of_opens hl hm hr hform
      rw [equalValue_scalar hne hne, compareScalars_self hform]
      exact .of_none fun _ => not_asksText_scalar hform
  | list _ ih =>
      refine settles_equalValue_of_opens fun hform => ?_
      cases plan with
      | list item =>
          rw [equalValue, if_pos rfl]
          exact (settles_matchItems fun v hv => ih v hv item).congr
            fun _ => asksText_list_iff.symm
      | _ => cases hform
  | map hs _ ih =>
      refine settles_equalValue_of_opens fun hform => ?_
      cases plan with
      | map value =>
          rw [equalValue, if_pos rfl]
          exact (settles_matchEntries hs (fun _ => id) fun p hp => ih p hp value).congr
            fun _ => asksText_map_iff.symm
      | _ => cases hform
  | @record name fields _ _ ih =>
      refine settles_equalValue_of_opens fun hform => ?_
      cases plan with
      | record ref =>
          rw [equalValue, if_pos rfl]
          cases hms : methods name with
          | some ms =>
              exact (settles_matchMethods ih ms).congr fun _ => (asksText_record_iff hms).symm
          | none =>
              show Settles _ true (.ok (decide (fields = fields)))
              rw [decide_eq_true rfl]
              refine .of_none fun w hw => ?_
              obtain ⟨hordering, _⟩ := (asksText_unknown_iff hms).1 hw
              cases hordering
      | _ => cases hform

/-- Parts of a value that can be written can be written. -/
theorem AsksText.isWritable {ordering : Bool} {plan : Plan QualifiedName} {v w : Value}
    (h : AsksText methods ordering plan v w) (hv : v.isWritable = true) : w.isWritable = true := by
  induction h with
  | whole _ _ => exact hv
  | item hmem _ ih => exact ih (itemsWritable_iff.1 hv _ hmem)
  | entry hmem _ ih => exact ih (entriesWritable_iff.1 hv _ hmem)
  | @field ref name fields ms m w _ _ _ ih =>
      apply ih
      exact getD_of_forall (P := fun v => v.isWritable = true) rfl (entriesWritable_iff.1 hv) m.field
  | unknown _ _ => exact hv

/-! ### Records -/

/-- The texts that are asked for when a record is compared with its copy. -/
def Record.AsksText (methods : MethodTable) (ordering : Bool) (r : Record) : Value → Prop :=
  RecordCodec.AsksText methods ordering (.record r.name) r.toValue

/-- A copy is the record again, at every depth, and nothing but a text that is asked for and does
not exist keeps the two from being equal and from comparing as equal. -/
structure Record.CopiedFaithfully (methods : MethodTable) (r : Record) : Prop where
  same : r.deepCopy methods = r
  equals : Settles (r.AsksText methods false) true (r.equals methods (r.deepCopy methods))
  compare : Settles (r.AsksText methods true) .eq (r.compare methods (r.deepCopy methods))
  equals_iff : r.equals methods (r.deepCopy methods) = .ok true ↔
    ∀ w, r.AsksText methods false w → w.isWritable = true
  compare_iff : r.compare methods (r.deepCopy methods) = .ok .eq ↔
    ∀ w, r.AsksText methods true w → w.isWritable = true
  writable : r.toValue.isWritable = true →
    r.equals methods (r.deepCopy methods) = .ok true ∧
      r.compare methods (r.deepCopy methods) = .ok .eq

/-- Whatever a record holds, and whether or not its kind is known. -/
theorem Record.deepCopy_faithful (methods : MethodTable) (r : Record)
    (h : r.toValue.InKeyOrder) : r.CopiedFaithfully methods := by
  have hequals : Settles (r.AsksText methods false) true (r.equals methods r) :=
    settles_equalValue h (.record r.name)
  have hcompare : Settles (r.AsksText methods true) .eq (r.compare methods r) :=
    settles_compareValue h (.record r.name)
  have hcopy : r.deepCopy methods = r := r.deepCopy_eq
  constructor
  case same => exact hcopy
  case equals => exact hcopy.symm ▸ hequals
  case compare => exact hcopy.symm ▸ hcompare
  case equals_iff => exact hcopy.symm ▸ hequals.eq_ok_iff
  case compare_iff => exact hcopy.symm ▸ hcompare.eq_ok_iff
  case writable =>
    intro hwritable
    rw [hcopy]
    exact ⟨hequals.eq_ok_iff.2 fun w hw => hw.isWritable hwritable,
      hcompare.eq_ok_iff.2 fun w hw => hw.isWritable hwritable⟩

end

/-- A measurement with a list where one number is declared, of three tenths with this digit. -/
def Record.measured (digit : Char) : Record :=
  ⟨⟨"generated.model", "Measurement"⟩, [("amount", .list [.decimal ⟨false, [digit], 1⟩])]⟩

theorem Record.inKeyOrder_measured (digit : Char) : (measured digit).toValue.InKeyOrder := by
  refine .record (List.pairwise_singleton _ _) (List.forall_mem_singleton.2 ?_)
  exact .list (List.forall_mem_singleton.2 (.leaf rfl rfl rfl))

theorem Forest.measurement_copies : ∃ catalog, measurement.compile {} = .ok catalog ∧
    (catalog.methods (Record.measured '3').name).isSome = true ∧
    (Record.measured '3').CopiedFaithfully catalog.methods ∧
    (Record.measured '3').equals catalog.methods ((Record.measured '3').deepCopy catalog.methods) =
      .ok true := by
  obtain ⟨catalog, hc, hknown⟩ : ∃ catalog, measurement.compile {} = .ok catalog ∧
      (catalog.methods (Record.measured '3').name).isSome = true :=
    exists_catalog (by decide +kernel)
  have hcopied := Record.deepCopy_faithful catalog.methods (Record.measured '3')
    (Record.inKeyOrder_measured '3')
  exact ⟨catalog, hc, hknown, hcopied, (hcopied.writable rfl).1⟩

/-- With an Arabic digit the record and its copy are the same, and comparing them ends the run. -/
theorem Forest.measurement_copyEndsRun : ∃ catalog, measurement.compile {} = .ok catalog ∧
    Decimal.read "٣e-1" = .ok ⟨false, ['٣'], 1⟩ ∧
    (Record.measured '٣').deepCopy catalog.methods = Record.measured '٣' ∧
    (∃ e, (Record.measured '٣').equals catalog.methods
      ((Record.measured '٣').deepCopy catalog.methods) = .error e ∧ e.endsRun = true) ∧
    ∃ e, (Record.measured '٣').compare catalog.methods
      ((Record.measured '٣').deepCopy catalog.methods) = .error e ∧ e.endsRun = true := by
  obtain ⟨catalog, hc, hends⟩ : ∃ catalog, measurement.compile {} = .ok catalog ∧
      (match (Record.measured '٣').equals catalog.methods (Record.measured '٣'),
          (Record.measured '٣').compare catalog.methods (Record.measured '٣') with
        | .error e, .error e' => e.endsRun && e'.endsRun
        | _, _ => false) = true :=
    exists_catalog (by decide +kernel)
  have hcopy : (Record.measured '٣').deepCopy catalog.methods = Record.measured '٣' :=
    Record.deepCopy_eq _
  refine ⟨catalog, hc, by decide +kernel, hcopy, ?_⟩
  rw [hcopy]
  split at hends
  · rename_i e e' hequals hcompare
    obtain ⟨he, he'⟩ := Bool.and_eq_true_iff.1 hends
    exact ⟨⟨e, hequals, he⟩, e', hcompare, he'⟩
  · cases hends

end RecordCodec
