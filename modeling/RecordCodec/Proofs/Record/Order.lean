import RecordCodec.Proofs.Codec.Writing
import RecordCodec.Proofs.Decimal.Order
import RecordCodec.Proofs.Decimal.Value
import RecordCodec.Proofs.Naming.Order
import RecordCodec.Proofs.Record.Comparison

/-!
The order of records. Comparable values are compared coherently, by induction on the first of them:
numbers of all kinds by what they denote, lists and records part by part, maps over the keys of all
three that are compared. Records of different kinds are kept apart by the names of their kinds. So
the records that a catalog can write are totally preordered, and comparing them never fails.
-/

namespace RecordCodec

/-! ### Scalars -/

theorem number_cases {v : Value} {d : Decimal} (h : v.asDecimal? = some d) :
    (∃ i, v = .int i ∧ d = .ofInt i.toInt) ∨ (∃ i, v = .long i ∧ d = .ofInt i.toInt) ∨
      v = .decimal d := by
  cases v with
  | int i => exact .inl ⟨i, rfl, (Option.some.inj h).symm⟩
  | long i => exact .inr (.inl ⟨i, rfl, (Option.some.inj h).symm⟩)
  | decimal d => exact .inr (.inr (congrArg Value.decimal (Option.some.inj h)))
  | _ => cases h

/-- Numbers are compared by what they denote, also those of one kind. -/
theorem compareScalars_numbers {x y : Value} {a b : Decimal} (hx : x.asDecimal? = some a)
    (hy : y.asDecimal? = some b) : compareScalars x y = .ok (a.compare b) := by
  rcases number_cases hx with ⟨i, rfl, rfl⟩ | ⟨i, rfl, rfl⟩ | rfl
  · rcases number_cases hy with ⟨j, rfl, rfl⟩ | ⟨j, rfl, rfl⟩ | rfl
    · rw [Decimal.compare_ofInt]
      rfl
    · rfl
    · rfl
  · rcases number_cases hy with ⟨j, rfl, rfl⟩ | ⟨j, rfl, rfl⟩ | rfl
    · rfl
    · rw [Decimal.compare_ofInt]
      rfl
    · rfl
  · rcases number_cases hy with ⟨j, rfl, rfl⟩ | ⟨j, rfl, rfl⟩ | rfl
    · rfl
    · rfl
    · rfl

/-- A scalar that can be written is a string, a boolean or a number, as its kind has it. -/
theorem scalar_cases {kind : ScalarKind} {v : Value} (h : (scalarToken? kind v).isSome = true) :
    (kind = .string ∧ ∃ s, v = .string s) ∨ (kind = .boolean ∧ ∃ b, v = .boolean b) ∨
      (kind ≠ .string ∧ kind ≠ .boolean ∧ ∃ d, v.asDecimal? = some d) := by
  cases kind with
  | string =>
      cases v with
      | string s => exact .inl ⟨rfl, s, rfl⟩
      | _ => cases h
  | boolean =>
      cases v with
      | boolean b => exact .inr (.inl ⟨rfl, b, rfl⟩)
      | _ => cases h
  | int =>
      refine .inr (.inr ⟨by decide, by decide, ?_⟩)
      cases v with
      | int i => exact ⟨_, rfl⟩
      | _ => cases h
  | long =>
      refine .inr (.inr ⟨by decide, by decide, ?_⟩)
      cases v with
      | int i => exact ⟨_, rfl⟩
      | long i => exact ⟨_, rfl⟩
      | _ => cases h
  | decimal =>
      refine .inr (.inr ⟨by decide, by decide, ?_⟩)
      cases v with
      | int i => exact ⟨_, rfl⟩
      | long i => exact ⟨_, rfl⟩
      | decimal d => exact ⟨d, rfl⟩
      | _ => cases h

theorem coherent_compareScalars {kind : ScalarKind} {x y z : Value}
    (hx : (scalarToken? kind x).isSome = true) (hy : (scalarToken? kind y).isSome = true)
    (hz : (scalarToken? kind z).isSome = true) :
    Coherent (compareScalars x y) (compareScalars y x) (compareScalars y z)
      (compareScalars x z) := by
  rcases scalar_cases hx with ⟨rfl, a, rfl⟩ | ⟨rfl, a, rfl⟩ | ⟨hs, hb, a, ha⟩
  · rcases scalar_cases hy with ⟨_, b, rfl⟩ | ⟨h, _⟩ | ⟨h, _⟩
    · rcases scalar_cases hz with ⟨_, c, rfl⟩ | ⟨h, _⟩ | ⟨h, _⟩
      · exact @coherent_of_cmp _ Ord.compare _ a b c
      · cases h
      · exact absurd rfl h
    · cases h
    · exact absurd rfl h
  · rcases scalar_cases hy with ⟨h, _⟩ | ⟨_, b, rfl⟩ | ⟨_, h, _⟩
    · cases h
    · rcases scalar_cases hz with ⟨h, _⟩ | ⟨_, c, rfl⟩ | ⟨_, h, _⟩
      · cases h
      · exact @coherent_of_cmp _ Ord.compare _ a b c
      · exact absurd rfl h
    · exact absurd rfl h
  · obtain ⟨b, hb⟩ : ∃ b, y.asDecimal? = some b := by
      rcases scalar_cases hy with ⟨h, _⟩ | ⟨h, _⟩ | ⟨_, _, h⟩
      · exact absurd h hs
      · exact absurd h hb
      · exact h
    obtain ⟨c, hc⟩ : ∃ c, z.asDecimal? = some c := by
      rcases scalar_cases hz with ⟨h, _⟩ | ⟨h, _⟩ | ⟨_, _, h⟩
      · exact absurd h hs
      · exact absurd h (by assumption)
      · exact h
    rw [compareScalars_numbers ha hb, compareScalars_numbers hb ha, compareScalars_numbers hb hc,
      compareScalars_numbers ha hc]
    exact coherent_of_cmp a b c

/-! ### Documents -/

/-- Orders values that have a text. -/
def compareTexts : Value → Value → Ordering :=
  compareLex (compareOn Value.typeName) (compareOn Value.render)

instance : Std.TransCmp compareTexts := by
  unfold compareTexts
  infer_instance

theorem coherent_compareRendered {x y z : Value} (hx : x.isWritable = true)
    (hy : y.isWritable = true) (hz : z.isWritable = true) :
    Coherent (x.compareRendered y) (y.compareRendered x) (y.compareRendered z)
      (x.compareRendered z) := by
  rw [Value.compareRendered_of_writable hx hy, Value.compareRendered_of_writable hy hx,
    Value.compareRendered_of_writable hy hz, Value.compareRendered_of_writable hx hz]
  exact @coherent_of_cmp _ compareTexts _ x y z

theorem compareValue_document {methods : MethodTable} {x y : Value} (hx : x ≠ .null)
    (hy : y ≠ .null) : compareValue methods x .document y = x.compareRendered y := by
  cases x with
  | null => exact absurd rfl hx
  | _ =>
      cases y with
      | null => exact absurd rfl hy
      | _ => rfl

theorem compareValue_scalar {methods : MethodTable} {kind : ScalarKind} {x y : Value}
    (hx : x ≠ .null) (hy : y ≠ .null) :
    compareValue methods x (.scalar kind) y = compareScalars x y := by
  cases x with
  | null => exact absurd rfl hx
  | _ =>
      cases y with
      | null => exact absurd rfl hy
      | _ => rfl

/-! ### Values -/

section

variable {kinds : Kinds} {methods : MethodTable}

/-- A field of a comparable record is comparable, also when it is not set. -/
theorem shaped_getD {leaves : Leaves} {plan : Plan QualifiedName} {key : String}
    {entries : List (String × Value)}
    (h : ∀ v, Entries.get? key entries = some v → Shaped kinds leaves plan v) :
    Shaped kinds leaves plan (Entries.getD key entries) := by
  unfold Entries.getD
  cases hv : Entries.get? key entries with
  | none => exact .null
  | some v => exact h v hv

theorem shaped_entry {leaves : Leaves} {plan : Plan QualifiedName}
    {entries : List (String × Value)} (h : ∀ p ∈ entries, Shaped kinds leaves plan p.2)
    (key : String) : Shaped kinds leaves plan (Entries.getD key entries) :=
  shaped_getD fun _ hv => h _ (Entries.mem_of_get? hv)

/-- What holds of null and of every entry holds of what stands under any key. -/
theorem getD_of_forall {P : Value → Prop} {entries : List (String × Value)} (hnull : P .null)
    (h : ∀ p ∈ entries, P p.2) (key : String) : P (Entries.getD key entries) := by
  unfold Entries.getD
  cases hv : Entries.get? key entries with
  | none => exact hnull
  | some v => exact h _ (Entries.mem_of_get? hv)

theorem getD_cases (key : String) (entries : List (String × Value)) :
    Entries.getD key entries = .null ∨
      Entries.get? key entries = some (Entries.getD key entries) := by
  unfold Entries.getD
  cases hv : Entries.get? key entries with
  | none => exact .inl rfl
  | some v => exact .inr rfl

theorem coherent_lengths (xs ys zs : List (String × Value)) :
    Coherent (.ok (compare xs.length ys.length)) (.ok (compare ys.length xs.length))
      (.ok (compare ys.length zs.length)) (.ok (compare xs.length zs.length)) :=
  @coherent_of_cmp _ Ord.compare _ xs.length ys.length zs.length

/-- Maps are compared over the keys of all three, which changes nothing for any two of them. -/
theorem coherent_compareMaps {value : Plan QualifiedName} {xs ys zs : List (String × Value)}
    (h : ∀ key, Coherent
      (compareValue methods (Entries.getD key xs) value (Entries.getD key ys))
      (compareValue methods (Entries.getD key ys) value (Entries.getD key xs))
      (compareValue methods (Entries.getD key ys) value (Entries.getD key zs))
      (compareValue methods (Entries.getD key xs) value (Entries.getD key zs))) :
    Coherent (compareValue methods (.map xs) (.map value) (.map ys))
      (compareValue methods (.map ys) (.map value) (.map xs))
      (compareValue methods (.map ys) (.map value) (.map zs))
      (compareValue methods (.map xs) (.map value) (.map zs)) := by
  let ks := Entries.unionKeys xs (ys ++ zs)
  have hs : ks.Pairwise (· < ·) := Entries.pairwise_unionKeys _ _
  have hmem : ∀ k, k ∈ ks ↔ k ∈ Entries.keys xs ∨ k ∈ Entries.keys ys ∨ k ∈ Entries.keys zs := by
    intro k
    rw [Entries.mem_unionKeys]
    simp [Entries.keys]
  have hx : ∀ k ∈ Entries.keys xs, k ∈ ks := fun k hk => (hmem k).2 (.inl hk)
  have hy : ∀ k ∈ Entries.keys ys, k ∈ ks := fun k hk => (hmem k).2 (.inr (.inl hk))
  have hz : ∀ k ∈ Entries.keys zs, k ∈ ks := fun k hk => (hmem k).2 (.inr (.inr hk))
  simp only [compareValue]
  rw [compareKeys_unionKeys value hs hx hy, compareKeys_unionKeys value hs hy hx,
    compareKeys_unionKeys value hs hy hz, compareKeys_unionKeys value hs hx hz]
  refine Coherent.thenBy' ?_ (coherent_lengths xs ys zs)
  simp only [compareKeys_eq_methods]
  refine coherent_compareMethods fun m hm => ?_
  obtain ⟨key, _, rfl⟩ := List.mem_map.1 hm
  exact h key

/-- Comparable values of one plan are compared coherently. -/
theorem coherent_compareValue (hm : ∀ name fields, kinds name = some fields →
      methods name = some (fields.map RecordField.method))
    {plan : Plan QualifiedName} {x : Value} (hx : Shaped kinds comparableLeaves plan x) :
    ∀ y z : Value, Shaped kinds comparableLeaves plan y → Shaped kinds comparableLeaves plan z →
      Coherent (compareValue methods x plan y) (compareValue methods y plan x)
        (compareValue methods y plan z) (compareValue methods x plan z) := by
  induction hx with
  | null =>
      intro y z hy hz
      exact coherent_nullsFirst hy hz fun hxn => absurd rfl hxn
  | scalar hv =>
      intro y z hy hz
      refine coherent_nullsFirst hy hz fun hxn hyn w hw hwn => ?_
      rw [compareValue_scalar hxn hyn, compareValue_scalar hyn hxn, compareValue_scalar hyn hwn,
        compareValue_scalar hxn hwn]
      exact coherent_compareScalars hv (hy.scalar_of_ne hyn) (hw.scalar_of_ne hwn)
  | list _ ih =>
      intro y z hy hz
      refine coherent_nullsFirst hy hz fun _ hyn w hw hwn => ?_
      obtain ⟨ys, rfl, hys⟩ := hy.list_of_ne hyn
      obtain ⟨ws, rfl, hws⟩ := hw.list_of_ne hwn
      simp only [compareValue]
      exact coherent_compareItems ih hys hws
  | @map value xs _ _ ih =>
      intro y z hy hz
      refine coherent_nullsFirst hy hz fun _ hyn w hw hwn => ?_
      obtain ⟨ys, rfl, hys⟩ := hy.map_of_ne hyn
      obtain ⟨ws, rfl, hws⟩ := hw.map_of_ne hwn
      refine coherent_compareMaps fun key => ?_
      have hy' := shaped_entry hys key
      have hw' := shaped_entry hws key
      -- the induction hypothesis speaks of entries only; a key without one stands for null
      rcases getD_cases key xs with hnull | hsome
      · rw [hnull]
        exact coherent_nullsFirst hy' hw' fun hxn => absurd rfl hxn
      · exact ih _ (Entries.mem_of_get? hsome) _ _ hy' hw'
  | document hv =>
      intro y z hy hz
      refine coherent_nullsFirst hy hz fun hxn hyn w hw hwn => ?_
      rw [compareValue_document hxn hyn, compareValue_document hyn hxn,
        compareValue_document hyn hwn, compareValue_document hxn hwn]
      exact coherent_compareRendered hv (hy.document_of_ne hyn) (hw.document_of_ne hwn)
  | @record name fields xs hk _ hfields ih =>
      intro y z hy hz
      refine coherent_nullsFirst hy hz fun _ hyn w hw hwn => ?_
      obtain ⟨ys, rfl, hys⟩ := hy.record_of_ne hk hyn
      obtain ⟨ws, rfl, hws⟩ := hw.record_of_ne hk hwn
      simp only [compareValue, if_true, hm name fields hk]
      refine coherent_compareMethods fun m hmem => ?_
      obtain ⟨f, hf, rfl⟩ := List.mem_map.1 hmem
      have hy' := shaped_getD (hys f hf)
      have hw' := shaped_getD (hws f hf)
      rw [RecordField.field_method, RecordField.comparator_method]
      rcases getD_cases f.name xs with hnull | hsome
      · rw [hnull]
        exact coherent_nullsFirst hy' hw' fun hxn => absurd rfl hxn
      · exact ih f hf _ hsome _ _ hy' hw'

/-! ### Records -/

instance : Std.TransCmp compareKinds :=
  inferInstanceAs (Std.TransCmp (compareLex (compareOn QualifiedName.name)
    QualifiedName.compare))

theorem compareKinds_eq_iff {a b : QualifiedName} : compareKinds a b = .eq ↔ a = b := by
  constructor
  · intro h
    obtain ⟨hname, hrest⟩ := Ordering.then_eq_eq.1 h
    obtain ⟨hscope, _⟩ := Ordering.then_eq_eq.1 hrest
    obtain ⟨s, n⟩ := a
    obtain ⟨t, m⟩ := b
    obtain rfl : s = t := Std.LawfulEqOrd.eq_of_compare hscope
    obtain rfl : n = m := Std.LawfulEqOrd.eq_of_compare hname
    rfl
  · rintro rfl
    exact Std.ReflCmp.compare_self

/-- The kinds decide first; records of one kind are compared as values of its plan. -/
theorem Record.compare_eq (a b : Record) :
    a.compare methods b = Comparison.thenBy (.ok (compareKinds a.name b.name))
      (compareValue methods a.toValue (.record a.name) b.toValue) := by
  unfold Record.compare
  split
  · rename_i hname
    rw [compareKinds_eq_iff.2 hname, Comparison.eq_thenBy]
    simp only [Record.toValue, compareValue, if_pos hname]
  · rename_i hname
    have hne : compareKinds a.name b.name ≠ .eq := fun h => hname (compareKinds_eq_iff.1 h)
    cases hk : compareKinds a.name b.name with
    | eq => exact absurd hk hne
    | _ => rfl

/-- Comparable records are compared coherently. -/
theorem coherent_compare (hm : ∀ name fields, kinds name = some fields →
      methods name = some (fields.map RecordField.method))
    {a b d : Record} (ha : a.Shaped kinds comparableLeaves) (hb : b.Shaped kinds comparableLeaves)
    (hd : d.Shaped kinds comparableLeaves) :
    Coherent (a.compare methods b) (b.compare methods a) (b.compare methods d)
      (a.compare methods d) := by
  rw [Record.compare_eq, Record.compare_eq, Record.compare_eq, Record.compare_eq]
  have hkinds := @coherent_of_cmp _ compareKinds _ a.name b.name d.name
  have hvalues : a.name = b.name → b.name = d.name →
      Coherent (compareValue methods a.toValue (.record a.name) b.toValue)
        (compareValue methods b.toValue (.record b.name) a.toValue)
        (compareValue methods b.toValue (.record b.name) d.toValue)
        (compareValue methods a.toValue (.record a.name) d.toValue) := by
    intro hab hbd
    unfold Record.Shaped at ha hb hd
    rw [← hbd, ← hab] at hd
    rw [← hab] at hb ⊢
    exact coherent_compareValue hm ha _ _ hb hd
  refine hkinds.thenBy ?_ ?_
  · intro hab
    have hname := compareKinds_eq_iff.1 (Except.ok.inj hab)
    unfold Record.Shaped at ha hb
    rw [← hname] at hb ⊢
    exact (coherent_compareValue hm ha _ _ hb hb).mirrored
  · intro hab hbd
    exact (hvalues (compareKinds_eq_iff.1 (Except.ok.inj hab))
      (compareKinds_eq_iff.1 (Except.ok.inj hbd))).chained

end

/-- The records that a compiled catalog can write are totally preordered by its methods, and
comparing them never fails. -/
theorem Forest.compare_isTotalPreorder {settings : Settings} {forest : Forest} {catalog : Catalog}
    (hc : forest.compile settings = .ok catalog) {a b d : Record}
    (ha : (catalog.encode a).error = none) (hb : (catalog.encode b).error = none)
    (hd : (catalog.encode d).error = none) :
    a.compare catalog.methods a = .ok .eq ∧
    (∃ o : Ordering, a.compare catalog.methods b = .ok o ∧
      b.compare catalog.methods a = .ok o.swap) ∧
    (∀ o p : Ordering, a.compare catalog.methods b = .ok o → b.compare catalog.methods d = .ok p →
      o ≠ .gt → p ≠ .gt → ∃ q : Ordering, a.compare catalog.methods d = .ok q ∧ q ≠ .gt) := by
  have hg := generates_of_compile hc
  have hm : ∀ name fields, catalog.kinds name = some fields →
      catalog.methods name = some (fields.map RecordField.method) :=
    fun _ _ hk => hg.methods_of_kind hk
  have ha := comparable_of_encodeRecord hg ha
  have hb := comparable_of_encodeRecord hg hb
  have hd := comparable_of_encodeRecord hg hd
  refine ⟨?_, (coherent_compare hm ha hb hd).mirrored, ?_⟩
  · -- what mirrors itself is equality
    obtain ⟨o, ho, hswap⟩ := (coherent_compare hm ha ha ha).mirrored
    have heq := Except.ok.inj (ho.symm.trans hswap)
    cases o with
    | eq => exact ho
    | _ => cases heq
  · intro o p ho hp hog hpg
    refine ⟨o.then p, (coherent_compare hm ha hb hd).chained o p ho hp hog hpg, ?_⟩
    cases o with
    | lt => exact hog
    | eq => exact hpg
    | gt => exact absurd rfl hog

/-- A record with one number of any kind. -/
def Forest.ledger : Forest where
  roots := [{
    name := "entry"
    properties := [{ name := "amount", type := some (.scalar .decimal) }] }]

def Record.ledgerEntry (amount : Value) : Record :=
  ⟨⟨"generated.model", "Entry"⟩, [("amount", amount)]⟩

theorem Forest.ledger_writes : ∃ catalog, ledger.compile {} = .ok catalog ∧
    [Value.null, .int 1, .long 2].all
      (fun v => (catalog.encode (.ledgerEntry v)).error.isNone) = true :=
  exists_catalog (by decide +kernel)

theorem Forest.ledger_isTotalPreorder : ∃ catalog, ledger.compile {} = .ok catalog ∧
    Record.compare catalog.methods (.ledgerEntry .null) (.ledgerEntry .null) = .ok .eq ∧
    (∃ o : Ordering,
      Record.compare catalog.methods (.ledgerEntry .null) (.ledgerEntry (.int 1)) = .ok o ∧
      Record.compare catalog.methods (.ledgerEntry (.int 1)) (.ledgerEntry .null) = .ok o.swap) ∧
    (∀ o p : Ordering,
      Record.compare catalog.methods (.ledgerEntry .null) (.ledgerEntry (.int 1)) = .ok o →
      Record.compare catalog.methods (.ledgerEntry (.int 1)) (.ledgerEntry (.long 2)) = .ok p →
      o ≠ .gt → p ≠ .gt → ∃ q : Ordering,
        Record.compare catalog.methods (.ledgerEntry .null) (.ledgerEntry (.long 2)) = .ok q ∧
        q ≠ .gt) := by
  obtain ⟨catalog, hc, hall⟩ := ledger_writes
  have hw : ∀ v ∈ [Value.null, .int 1, .long 2],
      (catalog.encode (.ledgerEntry v)).error = none := by
    intro v hv
    exact Option.isNone_iff_eq_none.1 (List.all_eq_true.1 hall v hv)
  exact ⟨catalog, hc, compare_isTotalPreorder hc (hw _ (by simp)) (hw _ (by simp)) (hw _ (by simp))⟩

end RecordCodec
