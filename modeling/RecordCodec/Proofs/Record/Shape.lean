import RecordCodec.Proofs.Codec.WireKeys

/-!
The shape of values. `Shaped` says that a value follows a plan layer by layer, with null allowed
everywhere and records taken field by field through the kinds of a catalog. What may stand at the
leaves, and how entries must be held, is a parameter: encoding accepts more than decoding returns,
and both are shapes of this sort.

A catalog's decoders, encoders and methods are three views of its kinds. `Generates` says so once,
by name, for the proofs about each of the three.
-/

namespace RecordCodec

/-! ### Nested induction

Values nest through lists and entries; what holds of the parts holds of the whole. -/

@[elab_as_elim]
theorem Value.nestedInduction {motive : Value → Prop}
    (leaf : ∀ v : Value, v.asList? = none → v.asMap? = none → v.asRecord? = none → motive v)
    (list : ∀ items : List Value, (∀ v ∈ items, motive v) → motive (.list items))
    (map : ∀ entries : List (String × Value), (∀ p ∈ entries, motive p.2) → motive (.map entries))
    (record : ∀ (name : QualifiedName) (fields : List (String × Value)),
      (∀ p ∈ fields, motive p.2) → motive (.record name fields))
    (v : Value) : motive v :=
  @Value.rec motive (fun items => ∀ v ∈ items, motive v)
    (fun entries => ∀ p ∈ entries, motive p.2) (fun p => motive p.2)
    (leaf .null rfl rfl rfl)
    (fun s => leaf (.string s) rfl rfl rfl)
    (fun i => leaf (.int i) rfl rfl rfl)
    (fun i => leaf (.long i) rfl rfl rfl)
    (fun d => leaf (.decimal d) rfl rfl rfl)
    (fun b => leaf (.boolean b) rfl rfl rfl)
    list
    map
    record
    (fun json => leaf (.document json) rfl rfl rfl)
    (fun _ hv => absurd hv List.not_mem_nil)
    (fun _ _ hv hrest => List.forall_mem_cons.2 ⟨hv, hrest⟩)
    (fun _ hp => absurd hp List.not_mem_nil)
    (fun _ _ hp hrest => List.forall_mem_cons.2 ⟨hp, hrest⟩)
    (fun _ _ hv => hv)
    v

/-! ### Kinds -/

/-- The fields of every kind of record; none for a kind that is not known. -/
abbrev Kinds := QualifiedName → Option (List RecordField)

def Catalog.kinds (c : Catalog) : Kinds := fun name =>
  (c.entry? name).map (·.definition.fields)

namespace RecordField

/-- The plan of a field, with records referred to by name. -/
def plan (f : RecordField) : Plan QualifiedName := .ofType f.refersTo? f.type

theorem refersTo?_eq (f : RecordField) : f.refersTo? = f.names?.map (·.record) := by
  unfold refersTo? names?
  cases f.target with
  | none => rfl
  | some target => rfl

@[simp] theorem mapRef_decodeField (f : RecordField) :
    f.decodeField.plan.mapRef CodecRef.record = f.plan := by
  rw [plan, refersTo?_eq, decodeField, ← Plan.ofType_map, decodeRef?, Option.map_map]
  rfl

@[simp] theorem mapRef_encodeField (f : RecordField) :
    f.encodeField.plan.mapRef CodecRef.record = f.plan := by
  rw [plan, refersTo?_eq, encodeField, ← Plan.ofType_map, encodeRef?, Option.map_map]
  rfl

@[simp] theorem comparator_method (f : RecordField) : f.method.comparator = f.plan := rfl

@[simp] theorem field_method (f : RecordField) : f.method.field = f.name := rfl

@[simp] theorem field_decodeField (f : RecordField) : f.decodeField.field = f.name := rfl

@[simp] theorem wireKey_decodeField (f : RecordField) : f.decodeField.wireKey = f.wireKey := rfl

@[simp] theorem field_encodeField (f : RecordField) : f.encodeField.field = f.name := rfl

end RecordField

/-- Decoders, encoders and methods that are generated from the fields of each kind. -/
structure Generates (kinds : Kinds) (decoders : QualifiedName → Option Decoder)
    (encoders : QualifiedName → Option Encoder) (methods : MethodTable) : Prop where
  decoders : ∀ name, (decoders name).map (fun d => (d.record, d.fields)) =
    (kinds name).map fun fields => (name, fields.map RecordField.decodeField)
  encoders : ∀ name, (encoders name).map Encoder.fields =
    (kinds name).map (List.map RecordField.encodeField)
  methods : ∀ name, methods name = (kinds name).map (List.map RecordField.method)

namespace Generates

variable {kinds : Kinds} {decoders : QualifiedName → Option Decoder}
  {encoders : QualifiedName → Option Encoder} {methods : MethodTable} {name : QualifiedName}

theorem decoder_of_kind (h : Generates kinds decoders encoders methods)
    {fields : List RecordField} (hk : kinds name = some fields) :
    ∃ d, decoders name = some d ∧ d.record = name ∧
      d.fields = fields.map RecordField.decodeField := by
  have hd := h.decoders name
  rw [hk, Option.map_some] at hd
  obtain ⟨d, hdec, heq⟩ := Option.map_eq_some_iff.1 hd
  injection heq with hrecord hfields
  exact ⟨d, hdec, hrecord, hfields⟩

theorem kind_of_decoder (h : Generates kinds decoders encoders methods) {d : Decoder}
    (hd : decoders name = some d) :
    ∃ fields, kinds name = some fields ∧ d.record = name ∧
      d.fields = fields.map RecordField.decodeField := by
  have hk := h.decoders name
  rw [hd, Option.map_some] at hk
  obtain ⟨fields, hkind, heq⟩ := Option.map_eq_some_iff.1 hk.symm
  injection heq with hrecord hfields
  exact ⟨fields, hkind, hrecord.symm, hfields.symm⟩

theorem encoder_of_kind (h : Generates kinds decoders encoders methods)
    {fields : List RecordField} (hk : kinds name = some fields) :
    ∃ e, encoders name = some e ∧ e.fields = fields.map RecordField.encodeField := by
  have he := h.encoders name
  rw [hk, Option.map_some] at he
  exact Option.map_eq_some_iff.1 he

theorem kind_of_encoder (h : Generates kinds decoders encoders methods) {e : Encoder}
    (he : encoders name = some e) :
    ∃ fields, kinds name = some fields ∧ e.fields = fields.map RecordField.encodeField := by
  have hk := h.encoders name
  rw [he, Option.map_some] at hk
  obtain ⟨fields, hkind, heq⟩ := Option.map_eq_some_iff.1 hk.symm
  exact ⟨fields, hkind, heq.symm⟩

theorem methods_of_kind (h : Generates kinds decoders encoders methods)
    {fields : List RecordField} (hk : kinds name = some fields) :
    methods name = some (fields.map RecordField.method) := by
  rw [h.methods, hk, Option.map_some]

theorem methods_of_kinds (h : Generates kinds decoders encoders methods) :
    ∀ name fields, kinds name = some fields →
      methods name = some (fields.map RecordField.method) :=
  fun _ _ hk => h.methods_of_kind hk

end Generates

/-! ### Entries of a catalog -/

theorem Catalog.entry?_eq_some {c : Catalog} {name : QualifiedName} {e : Entry}
    (h : c.entry? name = some e) : e ∈ c.entries ∧ e.name = name := by
  refine ⟨?_, ?_⟩
  · exact List.mem_reverse.1 (List.mem_of_find?_eq_some h)
  · simpa using List.find?_some h

/-- Codecs and methods of a compiled catalog are generated from its kinds. -/
theorem Forest.generates_of_compile {settings : Settings} {forest : Forest} {catalog : Catalog}
    (h : forest.compile settings = .ok catalog) :
    Generates catalog.kinds catalog.decoder? catalog.encoder? catalog.methods := by
  refine ⟨fun name => ?_, fun name => ?_, fun name => ?_⟩
  all_goals
    cases he : catalog.entry? name with
    | none => simp [Catalog.decoder?, Catalog.encoder?, Catalog.methods, Catalog.kinds, he]
    | some e =>
        obtain ⟨hmem, rfl⟩ := Catalog.entry?_eq_some he
        have hgen := generated_of_compile h hmem
        simp [Catalog.decoder?, Catalog.encoder?, Catalog.methods, Catalog.kinds, he,
          hgen.decoder_eq, hgen.encoder_eq, hgen.record.1]

theorem Forest.nodup_names_of_kind {settings : Settings} {forest : Forest} {catalog : Catalog}
    (h : forest.compile settings = .ok catalog) {name : QualifiedName}
    {fields : List RecordField} (hk : catalog.kinds name = some fields) :
    (fields.map (·.name)).Nodup := by
  obtain ⟨e, he, rfl⟩ := Option.map_eq_some_iff.1 hk
  exact nodup_fieldNames_of_compile h (Catalog.entry?_eq_some he).1

/-! ### Shapes -/

/-- What may stand where a plan ends, and how entries must be held. -/
structure Leaves where
  scalar : ScalarKind → Value → Prop
  document : Value → Prop
  map : List (String × Value) → Prop
  record : List RecordField → List (String × Value) → Prop

/-- The value follows the plan. -/
inductive Shaped (kinds : Kinds) (leaves : Leaves) : Plan QualifiedName → Value → Prop
  | null {plan : Plan QualifiedName} : Shaped kinds leaves plan .null
  | scalar {kind : ScalarKind} {v : Value} :
      leaves.scalar kind v → Shaped kinds leaves (.scalar kind) v
  | list {item : Plan QualifiedName} {items : List Value} :
      (∀ v ∈ items, Shaped kinds leaves item v) → Shaped kinds leaves (.list item) (.list items)
  | map {value : Plan QualifiedName} {entries : List (String × Value)} :
      leaves.map entries → (∀ p ∈ entries, Shaped kinds leaves value p.2) →
      Shaped kinds leaves (.map value) (.map entries)
  | document {v : Value} : leaves.document v → Shaped kinds leaves .document v
  | record {name : QualifiedName} {fields : List RecordField} {entries : List (String × Value)} :
      kinds name = some fields → leaves.record fields entries →
      (∀ f ∈ fields, ∀ v, Entries.get? f.name entries = some v → Shaped kinds leaves f.plan v) →
      Shaped kinds leaves (.record name) (.record name entries)

namespace Shaped

variable {kinds : Kinds} {leaves : Leaves} {v : Value}

theorem scalar_of_ne {kind : ScalarKind} (h : Shaped kinds leaves (.scalar kind) v)
    (hn : v ≠ .null) : leaves.scalar kind v := by
  cases h with
  | null => exact absurd rfl hn
  | scalar hv => exact hv

theorem document_of_ne (h : Shaped kinds leaves .document v) (hn : v ≠ .null) :
    leaves.document v := by
  cases h with
  | null => exact absurd rfl hn
  | document hv => exact hv

theorem list_of_ne {item : Plan QualifiedName} (h : Shaped kinds leaves (.list item) v)
    (hn : v ≠ .null) :
    ∃ items, v = .list items ∧ ∀ w ∈ items, Shaped kinds leaves item w := by
  cases h with
  | null => exact absurd rfl hn
  | list hitems => exact ⟨_, rfl, hitems⟩

theorem map_of_ne {value : Plan QualifiedName} (h : Shaped kinds leaves (.map value) v)
    (hn : v ≠ .null) :
    ∃ entries, v = .map entries ∧ ∀ p ∈ entries, Shaped kinds leaves value p.2 := by
  cases h with
  | null => exact absurd rfl hn
  | map _ hentries => exact ⟨_, rfl, hentries⟩

theorem record_of_ne {name : QualifiedName} {fields : List RecordField}
    (hk : kinds name = some fields) (h : Shaped kinds leaves (.record name) v) (hn : v ≠ .null) :
    ∃ entries, v = .record name entries ∧
      ∀ f ∈ fields, ∀ w, Entries.get? f.name entries = some w →
        Shaped kinds leaves f.plan w := by
  cases h with
  | null => exact absurd rfl hn
  | record hk' _ hfields =>
      obtain rfl := Option.some.inj (hk.symm.trans hk')
      exact ⟨_, rfl, hfields⟩

end Shaped

/-- Leaves of the first sort are leaves of the second. -/
structure Leaves.Within (a b : Leaves) : Prop where
  scalar : ∀ {kind v}, a.scalar kind v → b.scalar kind v
  document : ∀ {v}, a.document v → b.document v
  map : ∀ {entries}, a.map entries → b.map entries
  record : ∀ {fields entries}, a.record fields entries → b.record fields entries

theorem Shaped.mono {kinds : Kinds} {a b : Leaves} (hab : a.Within b)
    {plan : Plan QualifiedName} {v : Value} (h : Shaped kinds a plan v) :
    Shaped kinds b plan v := by
  induction h with
  | null => exact .null
  | scalar hv => exact .scalar (hab.scalar hv)
  | list _ ih => exact .list ih
  | map hentries _ ih => exact .map (hab.map hentries) ih
  | document hv => exact .document (hab.document hv)
  | record hk hentries _ ih => exact .record hk (hab.record hentries) ih

/-- A record follows the plan of its own kind. -/
def Record.Shaped (kinds : Kinds) (leaves : Leaves) (r : Record) : Prop :=
  RecordCodec.Shaped kinds leaves (.record r.name) r.toValue

end RecordCodec
