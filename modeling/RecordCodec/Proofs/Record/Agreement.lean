import RecordCodec.Proofs.EndOfRun

/-!
Where equality and order agree. Equality looks up the entries of one map in the other, while the
order reads a missing entry as null and falls back on the sizes. So two maps of one size can
compare as equal although a key of each is missing from the other, if null stands under both. There
is no other difference: values are equal exactly when they compare as equal and every two maps that
are compared on the way have the same keys. Without null entries in maps the second follows.
-/

namespace RecordCodec

/-- Wherever both values hold a map, the two maps have the same keys. Lists are looked at as far as
both go, maps and records under the keys of either. -/
inductive SameKeys : Value → Value → Prop
  | leftLeaf {x y : Value} : x.asList? = none → x.asMap? = none → x.asRecord? = none → SameKeys x y
  | rightLeaf {x y : Value} : y.asList? = none → y.asMap? = none → y.asRecord? = none → SameKeys x y
  | list {xs ys : List Value} : (∀ x y, (x, y) ∈ xs.zip ys → SameKeys x y) →
      SameKeys (.list xs) (.list ys)
  | map {xs ys : List (String × Value)} : Entries.keys xs = Entries.keys ys →
      (∀ key, SameKeys (Entries.getD key xs) (Entries.getD key ys)) →
      SameKeys (.map xs) (.map ys)
  | record {name name' : QualifiedName} {xs ys : List (String × Value)} :
      (∀ key, SameKeys (Entries.getD key xs) (Entries.getD key ys)) →
      SameKeys (.record name xs) (.record name' ys)

namespace SameKeys

theorem of_left_null (y : Value) : SameKeys .null y := .leftLeaf rfl rfl rfl

theorem of_right_null (x : Value) : SameKeys x .null := .rightLeaf rfl rfl rfl

theorem list_iff {xs ys : List Value} :
    SameKeys (.list xs) (.list ys) ↔ ∀ x y, (x, y) ∈ xs.zip ys → SameKeys x y := by
  refine ⟨fun h => ?_, .list⟩
  cases h with
  | leftLeaf h => cases h
  | rightLeaf h => cases h
  | list h => exact h

theorem map_iff {xs ys : List (String × Value)} :
    SameKeys (.map xs) (.map ys) ↔ Entries.keys xs = Entries.keys ys ∧
      ∀ key, SameKeys (Entries.getD key xs) (Entries.getD key ys) := by
  refine ⟨fun h => ?_, fun h => .map h.1 h.2⟩
  cases h with
  | leftLeaf _ h => cases h
  | rightLeaf _ h => cases h
  | map hkeys h => exact ⟨hkeys, h⟩

theorem record_iff {name name' : QualifiedName} {xs ys : List (String × Value)} :
    SameKeys (.record name xs) (.record name' ys) ↔
      ∀ key, SameKeys (Entries.getD key xs) (Entries.getD key ys) := by
  refine ⟨fun h => ?_, .record⟩
  cases h with
  | leftLeaf _ _ h => cases h
  | rightLeaf _ _ h => cases h
  | record h => exact h

end SameKeys

/-! ### Maps without null entries -/

namespace Value

mutual

/-- No map inside has null under a key. -/
def isFilled : Value → Bool
  | .list items => itemsFilled items
  | .map entries => entries.all (!·.2.isNull) && entriesFilled entries
  | .record _ fields => entriesFilled fields
  | _ => true

def itemsFilled : List Value → Bool
  | [] => true
  | v :: rest => v.isFilled && itemsFilled rest

def entriesFilled : List (String × Value) → Bool
  | [] => true
  | (_, v) :: rest => v.isFilled && entriesFilled rest

end

theorem isFilled_list_iff {items : List Value} :
    (list items).isFilled = true ↔ ∀ v ∈ items, v.isFilled = true := by
  rw [isFilled]
  induction items with
  | nil => simp [itemsFilled]
  | cons v rest ih => simp [itemsFilled, ih]

theorem entriesFilled_iff {entries : List (String × Value)} :
    entriesFilled entries = true ↔ ∀ p ∈ entries, p.2.isFilled = true := by
  induction entries with
  | nil => simp [entriesFilled]
  | cons p rest ih => simp only [entriesFilled, Bool.and_eq_true, ih, List.forall_mem_cons]

theorem isFilled_record_iff {name : QualifiedName} {fields : List (String × Value)} :
    (record name fields).isFilled = true ↔ ∀ p ∈ fields, p.2.isFilled = true :=
  entriesFilled_iff

theorem isFilled_map_iff {entries : List (String × Value)} :
    (map entries).isFilled = true ↔ ∀ p ∈ entries, p.2 ≠ .null ∧ p.2.isFilled = true := by
  simp only [isFilled, Bool.and_eq_true, List.all_eq_true, entriesFilled_iff, ← forall₂_and,
    Bool.not_eq_true', Bool.eq_false_iff, Ne, isNull_iff]

end Value

theorem isFilled_getD {entries : List (String × Value)}
    (h : ∀ p ∈ entries, p.2.isFilled = true) (key : String) :
    (Entries.getD key entries).isFilled = true :=
  getD_of_forall (P := fun v => v.isFilled = true) rfl h key

/-! ### Values -/

section

variable {kinds : Kinds} {methods : MethodTable}

/-- Equality says of two values what their comparison and their keys say. -/
def Agree (methods : MethodTable) (plan : Plan QualifiedName) (x y : Value) : Prop :=
  equalValue methods x plan y = .ok true ↔
    compareValue methods x plan y = .ok .eq ∧ SameKeys x y

theorem agree_nulls {plan : Plan QualifiedName} {x y : Value}
    (h : x ≠ .null → y ≠ .null → Agree methods plan x y) : Agree methods plan x y := by
  by_cases hx : x = .null
  · subst hx
    by_cases hy : y = .null
    · subst hy
      exact ⟨fun _ => ⟨rfl, .of_left_null _⟩, fun _ => rfl⟩
    · rw [Agree, equalValue_null, compareValue_null hy,
        Bool.eq_false_iff.2 fun hn => hy (Value.isNull_iff.1 hn)]
      exact ⟨nofun, nofun⟩
  · by_cases hy : y = .null
    · subst hy
      rw [Agree, compareValue_of_null hx]
      cases x with
      | null => exact absurd rfl hx
      | _ => exact ⟨nofun, nofun⟩
    · exact h hx hy

theorem agree_of_isEq {plan : Plan QualifiedName} {x y : Value}
    (h : equalValue methods x plan y = (compareValue methods x plan y).isEq)
    (hkeys : SameKeys x y) : Agree methods plan x y := by
  rw [Agree, h, Comparison.isEq_eq_true_iff, and_iff_left hkeys]

theorem agree_list {item : Plan QualifiedName} {xs ys : List Value}
    (h : ∀ x ∈ xs, ∀ y ∈ ys, Agree methods item x y) :
    Agree methods (.list item) (.list xs) (.list ys) := by
  rw [Agree, equalValue_list_iff, SameKeys.list_iff, compareValue, compareItems_eq_iff,
    List.forall₂_iff_zip, List.forall₂_iff_zip, and_assoc]
  refine and_congr_right fun _ => ⟨fun heq => ⟨fun hp => ?_, fun x y hp => ?_⟩, ?_⟩
  · obtain ⟨hx, hy⟩ := List.of_mem_zip hp
    exact ((h _ hx _ hy).1 (heq hp)).1
  · obtain ⟨hx, hy⟩ := List.of_mem_zip hp
    exact ((h _ hx _ hy).1 (heq hp)).2
  · rintro ⟨hcompare, hkeys⟩ x y hp
    obtain ⟨hx, hy⟩ := List.of_mem_zip hp
    exact (h _ hx _ hy).2 ⟨hcompare hp, hkeys _ _ hp⟩

theorem agree_map {value : Plan QualifiedName} {xs ys : List (String × Value)}
    (hx : Entries.Sorted xs) (hy : Entries.Sorted ys)
    (h : ∀ key, Agree methods value (Entries.getD key xs) (Entries.getD key ys)) :
    Agree methods (.map value) (.map xs) (.map ys) := by
  rw [Agree, equalValue_map_iff_keys hx hy, compareValue_map_eq_iff, SameKeys.map_iff]
  constructor
  · rintro ⟨hkeys, heq⟩
    refine ⟨⟨fun key => ((h key).1 (heq key)).1, ?_⟩, hkeys, fun key => ((h key).1 (heq key)).2⟩
    simpa [Entries.keys] using congrArg List.length hkeys
  · rintro ⟨⟨hcompare, _⟩, hkeys, hsame⟩
    exact ⟨hkeys, fun key => (h key).2 ⟨hcompare key, hsame key⟩⟩

/-- Complete records have no fields to disagree about but the declared ones. -/
theorem agree_record {name : QualifiedName} {fields : List RecordField}
    (hm : methods name = some (fields.map RecordField.method)) {xs ys : List (String × Value)}
    (hx : Complete fields xs)
    (h : ∀ f ∈ fields, Agree methods f.plan (Entries.getD f.name xs) (Entries.getD f.name ys)) :
    Agree methods (.record name) (.record name xs) (.record name ys) := by
  rw [Agree, equalValue_record_iff hm, SameKeys.record_iff, compareValue, if_pos rfl, hm]
  simp only [compareMethods_eq_iff, List.forall_mem_map, RecordField.field_method,
    RecordField.comparator_method]
  constructor
  · intro heq
    refine ⟨fun f hf => ((h f hf).1 (heq f hf)).1, fun key => ?_⟩
    by_cases hkey : key ∈ fields.map (·.name)
    · obtain ⟨f, hf, rfl⟩ := List.mem_map.1 hkey
      exact ((h f hf).1 (heq f hf)).2
    · rw [getD_of_not_mem fun hk => hkey ((hx.keys key).1 hk)]
      exact .of_left_null _
  · rintro ⟨hcompare, hsame⟩ f hf
    exact (h f hf).2 ⟨hcompare f hf, hsame f.name⟩

/-- Equality and order agree on values of the declared type up to the keys of maps. -/
theorem agree_of_shaped (hm : ∀ name fields, kinds name = some fields →
      methods name = some (fields.map RecordField.method))
    {plan : Plan QualifiedName} {x : Value} (hx : Shaped kinds declaredLeaves plan x) :
    ∀ y : Value, Shaped kinds declaredLeaves plan y → Agree methods plan x y := by
  induction hx with
  | null =>
      intro y _
      exact agree_nulls fun hx => absurd rfl hx
  | scalar hv =>
      intro y _
      refine agree_nulls fun hxn hyn => agree_of_isEq ?_ ?_
      · rw [equalValue_scalar hxn hyn, compareValue_scalar hxn hyn]
      · cases hv <;> exact .leftLeaf rfl rfl rfl
  | document hv =>
      intro y _
      refine agree_nulls fun hxn hyn => agree_of_isEq ?_ ?_
      · rw [equalValue_document hxn hyn, compareValue_document hxn hyn]
      · obtain ⟨json, rfl, _⟩ := hv
        exact .leftLeaf rfl rfl rfl
  | list _ ih =>
      intro y hy
      refine agree_nulls fun _ hyn => ?_
      obtain ⟨ys, rfl, hys⟩ := hy.list_of_ne hyn
      exact agree_list fun x hx y hy => ih x hx y (hys y hy)
  | @map value xs hsorted _ ih =>
      intro y hy
      refine agree_nulls fun _ hyn => ?_
      cases hy with
      | null => exact absurd rfl hyn
      | map hsorted' hys =>
          refine agree_map hsorted hsorted' fun key => ?_
          -- the induction hypothesis speaks of entries only; a key without one stands for null
          rcases getD_cases key xs with hnull | hsome
          · rw [hnull]
            exact agree_nulls fun hx => absurd rfl hx
          · exact ih _ (Entries.mem_of_get? hsome) _ (shaped_entry hys key)
  | @record name fields xs hk hcomplete _ ih =>
      intro y hy
      refine agree_nulls fun _ hyn => ?_
      cases hy with
      | null => exact absurd rfl hyn
      | record hk' _ hys =>
          obtain rfl := Option.some.inj (hk.symm.trans hk')
          refine agree_record (hm name fields hk) hcomplete fun f hf => ?_
          obtain ⟨v, hv⟩ := hcomplete.exists_value hf
          rw [Entries.getD, hv]
          exact ih f hf v hv _ (shaped_getD (hys f hf))

theorem compareValue_null_iff {plan : Plan QualifiedName} {x y : Value}
    (h : compareValue methods x plan y = .ok .eq) : x = .null ↔ y = .null := by
  constructor
  · rintro rfl
    by_contra hy
    rw [compareValue_null hy] at h
    cases h
  · rintro rfl
    by_contra hx
    rw [compareValue_of_null hx] at h
    cases h

theorem getD_eq_null_iff {key : String} {entries : List (String × Value)}
    (h : ∀ p ∈ entries, p.2 ≠ .null) :
    Entries.getD key entries = .null ↔ key ∉ Entries.keys entries := by
  refine ⟨fun hnull hkey => ?_, getD_of_not_mem⟩
  obtain ⟨v, hv⟩ := Entries.mem_keys_iff.1 hkey
  rw [Entries.getD, hv] at hnull
  exact h _ (Entries.mem_of_get? hv) hnull

/-- Without null entries, maps that compare as equal have the same keys. -/
theorem sameKeys_of_filled (hm : ∀ name fields, kinds name = some fields →
      methods name = some (fields.map RecordField.method))
    {plan : Plan QualifiedName} {x : Value} (hx : Shaped kinds declaredLeaves plan x) :
    ∀ y : Value, Shaped kinds declaredLeaves plan y → x.isFilled = true → y.isFilled = true →
      compareValue methods x plan y = .ok .eq → SameKeys x y := by
  induction hx with
  | null => exact fun y _ _ _ _ => .of_left_null y
  | scalar hv =>
      intro y _ _ _ _
      cases hv <;> exact .leftLeaf rfl rfl rfl
  | document hv =>
      intro y _ _ _ _
      obtain ⟨json, rfl, _⟩ := hv
      exact .leftLeaf rfl rfl rfl
  | list _ ih =>
      intro y hy hfx hfy h
      cases hy with
      | null => exact .of_right_null _
      | list hys =>
          rw [Value.isFilled_list_iff] at hfx hfy
          rw [compareValue, compareItems_eq_iff, List.forall₂_iff_zip] at h
          refine .list fun x y hp => ?_
          obtain ⟨hx, hy⟩ := List.of_mem_zip hp
          exact ih x hx y (hys y hy) (hfx x hx) (hfy y hy) (h.2 hp)
  | @map value xs hsorted _ ih =>
      intro y hy hfx hfy h
      cases hy with
      | null => exact .of_right_null _
      | @map _ ys hsorted' hys =>
          rw [Value.isFilled_map_iff] at hfx hfy
          obtain ⟨hcompare, _⟩ := compareValue_map_eq_iff.1 h
          have hkeys : Entries.keys xs = Entries.keys ys := by
            apply List.Pairwise.eq_of_mem_iff (Entries.pairwise_keys hsorted)
              (Entries.pairwise_keys hsorted')
            intro key
            rw [← not_iff_not, ← getD_eq_null_iff fun p hp => (hfx p hp).1,
              ← getD_eq_null_iff fun p hp => (hfy p hp).1]
            exact compareValue_null_iff (hcompare key)
          refine .map hkeys fun key => ?_
          have hfy := isFilled_getD (fun p hp => (hfy p hp).2) key
          rcases getD_cases key xs with hnull | hsome
          · rw [hnull]
            exact .of_left_null _
          · have hmem := Entries.mem_of_get? hsome
            exact ih _ hmem _ (shaped_entry hys key) (hfx _ hmem).2 hfy (hcompare key)
  | @record name fields xs hk hcomplete _ ih =>
      intro y hy hfx hfy h
      cases hy with
      | null => exact .of_right_null _
      | @record _ _ ys hk' _ hys =>
          obtain rfl := Option.some.inj (hk.symm.trans hk')
          rw [Value.isFilled_record_iff] at hfx hfy
          rw [compareValue, if_pos rfl, hm name fields hk, compareMethods_eq_iff] at h
          refine .record fun key => ?_
          have hfy := isFilled_getD hfy key
          rcases getD_cases key xs with hnull | hsome
          · rw [hnull]
            exact .of_left_null _
          · have hkey : key ∈ fields.map (·.name) :=
              (hcomplete.keys key).1 (Entries.mem_keys_iff.2 ⟨_, hsome⟩)
            obtain ⟨f, hf, rfl⟩ := List.mem_map.1 hkey
            exact ih f hf _ hsome _ (shaped_getD (hys f hf)) (hfx _ (Entries.mem_of_get? hsome))
              hfy (h f.method (List.mem_map_of_mem hf))

end

/-! ### Records -/

/-- Decoded records are equal exactly when they compare as equal and the maps in them that are
compared have the same keys. When no map of theirs holds a null entry, equality and order agree. -/
theorem Forest.equals_iff_compare_sameKeys {settings : Settings} {forest : Forest}
    {catalog : Catalog} (hc : forest.compile settings = .ok catalog) {a b : Record}
    (ha : catalog.Decoded a) (hb : catalog.Decoded b) :
    (a.equals catalog.methods b = .ok true ↔
      a.compare catalog.methods b = .ok .eq ∧ SameKeys a.toValue b.toValue) ∧
    (a.toValue.isFilled = true → b.toValue.isFilled = true →
      (a.equals catalog.methods b = .ok true ↔ a.compare catalog.methods b = .ok .eq)) := by
  have hg := generates_of_compile hc
  have hm := hg.methods_of_kinds
  have ha := shaped_of_decoded hc ha
  have hb := shaped_of_decoded hc hb
  by_cases hname : a.name = b.name
  · unfold Record.Shaped at ha hb
    rw [Record.equals_eq_equalValue a b a.name, Record.compare_eq, compareKinds_eq_iff.2 hname,
      Comparison.eq_thenBy]
    rw [← hname] at hb
    have hagree := agree_of_shaped hm ha _ hb
    refine ⟨hagree, fun hfa hfb => hagree.trans (and_iff_left_of_imp ?_)⟩
    exact sameKeys_of_filled hm ha _ hb hfa hfb
  · -- records of different kinds are neither equal nor compare as equal
    have hequals : a.equals catalog.methods b = .ok false := if_neg hname
    have hcompare : a.compare catalog.methods b ≠ .ok .eq := by
      rw [Record.compare, if_neg hname]
      intro h
      exact hname (compareKinds_eq_iff.1 (Except.ok.inj h))
    rw [hequals]
    exact ⟨⟨nofun, fun h => absurd h.1 hcompare⟩, fun _ _ => ⟨nofun, fun h => absurd h hcompare⟩⟩

/-- A record with one map of strings. -/
def Forest.box : Forest where
  roots := [{
    name := "box"
    properties := [{ name := "tags", type := some (.map (.scalar .string)) }] }]

/-- A box on a stream, with one tag. -/
def Token.box (key : String) (tag : Token) : List Token :=
  [.startObject, .fieldName "tags", .startObject, .fieldName key, tag, .endObject, .endObject]

theorem Forest.box_decodes : ∃ catalog, box.compile {} = .ok catalog ∧
    (match catalog.decode "Box" (Token.box "x" .null), catalog.decode "Box" (Token.box "y" .null),
        catalog.decode "Box" (Token.box "x" (.string "v")) with
      | .ok (a, _), .ok (b, _), .ok (d, _) =>
          decide (a.equals catalog.methods b = .ok false) &&
            decide (a.compare catalog.methods b = .ok .eq) && d.toValue.isFilled
      | _, _, _ => false) = true :=
  exists_catalog (by decide +kernel)

theorem Forest.box_records : ∃ catalog, box.compile {} = .ok catalog ∧
    ∃ a b d, catalog.Decoded a ∧ catalog.Decoded b ∧ catalog.Decoded d ∧
      a.equals catalog.methods b = .ok false ∧ a.compare catalog.methods b = .ok .eq ∧
        d.toValue.isFilled = true := by
  obtain ⟨catalog, hc, htest⟩ := box_decodes
  refine ⟨catalog, hc, ?_⟩
  split at htest
  · rename_i a rest b rest' d rest'' ha hb hd
    rw [Bool.and_eq_true, Bool.and_eq_true, decide_eq_true_eq, decide_eq_true_eq] at htest
    obtain ⟨⟨hequals, hcompare⟩, hfilled⟩ := htest
    exact ⟨a, b, d, ⟨_, _, rest, ha⟩, ⟨_, _, rest', hb⟩, ⟨_, _, rest'', hd⟩, hequals, hcompare,
      hfilled⟩
  · cases htest

/-- Two boxes with null under different keys compare as equal and are not equal. -/
theorem Forest.box_equals_ne_compare : ∃ catalog, box.compile {} = .ok catalog ∧
    ∃ a b, catalog.Decoded a ∧ catalog.Decoded b ∧
      a.equals catalog.methods b = .ok false ∧ a.compare catalog.methods b = .ok .eq := by
  obtain ⟨catalog, hc, a, b, _, ha, hb, _, hequals, hcompare, _⟩ := box_records
  exact ⟨catalog, hc, a, b, ha, hb, hequals, hcompare⟩

/-- Their maps do not have the same keys; a box whose tag is a string is equal to itself. -/
theorem Forest.box_sameKeys : ∃ catalog, box.compile {} = .ok catalog ∧
    (∃ a b, catalog.Decoded a ∧ catalog.Decoded b ∧ ¬ SameKeys a.toValue b.toValue) ∧
    ∃ d, catalog.Decoded d ∧
      (d.equals catalog.methods d = .ok true ↔ d.compare catalog.methods d = .ok .eq) := by
  obtain ⟨catalog, hc, a, b, d, ha, hb, hd, hequals, hcompare, hfilled⟩ := box_records
  refine ⟨catalog, hc, ⟨a, b, ha, hb, fun hkeys => ?_⟩, d, hd,
    (equals_iff_compare_sameKeys hc hd hd).2 hfilled hfilled⟩
  have htrue := (equals_iff_compare_sameKeys hc ha hb).1.2 ⟨hcompare, hkeys⟩
  rw [hequals] at htrue
  cases htrue

end RecordCodec
