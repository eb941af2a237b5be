import RecordCodec.Proofs.Codec.Reading
import RecordCodec.Proofs.Codec.Writing
import RecordCodec.Proofs.Record.Fields

/-!
The shape of what is decoded. Every value has the type that its plan declares, at every depth: a
scalar of the declared kind, a document other than null, items and entries of declared types, and
records of the declared kind with exactly its fields. A record starts from the defaults of its
fields, which were decoded themselves when the schema was compiled.
-/

namespace RecordCodec

/-! ### Declared types -/

/-- A scalar of the declared kind. -/
inductive DeclaredScalar : ScalarKind → Value → Prop
  | string (s : String) : DeclaredScalar .string (.string s)
  | int (i : Int32) : DeclaredScalar .int (.int i)
  | long (i : Int64) : DeclaredScalar .long (.long i)
  | decimal (d : Decimal) : DeclaredScalar .decimal (.decimal d)
  | boolean (b : Bool) : DeclaredScalar .boolean (.boolean b)

/-- A document other than null. -/
def DeclaredDocument (v : Value) : Prop := ∃ json : Json, v = .document json ∧ json ≠ .null

/-- Values of the declared type. -/
def declaredLeaves : Leaves := ⟨DeclaredScalar, DeclaredDocument, Entries.Sorted, Complete⟩

theorem declaredScalar_of_readScalar {kind : ScalarKind} {t : Token} {v : Value}
    (h : readScalar kind t = .ok (some v)) : DeclaredScalar kind v := by
  have decimal : ∀ literal, readScalar.decimal literal = .ok (some v) →
      DeclaredScalar .decimal v := by
    intro literal h
    unfold readScalar.decimal at h
    split at h
    · cases h
      exact .decimal _
    · cases h
    · cases h
  cases kind with
  | string =>
      cases t with
      | string s =>
          cases h
          exact .string s
      | _ => cases h
  | int =>
      cases t with
      | number literal =>
          obtain ⟨i, _, rfl⟩ := Option.map_eq_some_iff.1 (Except.ok.inj h)
          exact .int i
      | _ => cases h
  | long =>
      cases t with
      | number literal =>
          obtain ⟨i, _, rfl⟩ := Option.map_eq_some_iff.1 (Except.ok.inj h)
          exact .long i
      | _ => cases h
  | decimal =>
      cases t with
      | number literal => exact decimal literal h
      | string literal => exact decimal literal h
      | _ => cases h
  | boolean =>
      cases t with
      | boolean b =>
          cases h
          exact .boolean b
      | _ => cases h

/-- Values of the declared type can be compared. -/
theorem declaredLeaves_within : declaredLeaves.Within comparableLeaves where
  scalar := by
    rintro kind v ⟨⟩ <;> rfl
  document := by
    rintro v ⟨json, rfl, _⟩
    rfl
  map _ := trivial
  record _ := trivial

/-! ### Records under way -/

section

variable {kinds : Kinds} {leaves : Leaves}

/-- Setting a declared field to a value of its plan keeps the shape of a record. -/
theorem shaped_set (hl : leaves.record = Complete) {fields : List RecordField} {r : Record}
    (hk : kinds r.name = some fields) (hnames : (fields.map (·.name)).Nodup)
    (hr : r.Shaped kinds leaves) {f : RecordField} (hf : f ∈ fields) {v : Value}
    (hv : Shaped kinds leaves f.plan v) : (r.set f.name v).Shaped kinds leaves := by
  obtain ⟨name, entries⟩ := r
  cases hr with
  | @record _ fields' _ hk' hc hvalues =>
      obtain rfl := Option.some.inj (hk.symm.trans hk')
      rw [hl] at hc
      refine .record hk ?_ fun g hg w hw => ?_
      · rw [hl]
        exact hc.put hf v
      · by_cases hname : f.name = g.name
        · -- fields of one name are one field
          obtain rfl := List.inj_on_of_nodup_map hnames hf hg hname
          have heq : some v = some w := (Entries.get?_put_self _ _ _).symm.trans hw
          obtain rfl := Option.some.inj heq
          exact hv
        · exact hvalues g hg w ((Entries.get?_put_of_ne hname v entries).symm.trans hw)

end

/-! ### Values -/

/-- Decoders of known kinds, with defaults of the declared types. -/
structure DecodesKinds (kinds : Kinds) (decoders : QualifiedName → Option Decoder) : Prop where
  kind : ∀ {name d}, decoders name = some d → ∃ fields, kinds name = some fields ∧
    d.record = name ∧ d.fields = fields.map RecordField.decodeField
  names : ∀ {name fields}, kinds name = some fields → (fields.map (·.name)).Nodup
  defaults : ∀ {name fields}, kinds name = some fields → ∀ f ∈ fields, ∀ v,
    f.default = some v → Shaped kinds declaredLeaves f.plan v

section

variable {kinds : Kinds} {decoders : QualifiedName → Option Decoder}

theorem shaped_initial (hd : DecodesKinds kinds decoders) {name : QualifiedName} {d : Decoder}
    (h : decoders name = some d) :
    d.initial.name = name ∧ d.initial.Shaped kinds declaredLeaves := by
  obtain ⟨fields, hk, hrecord, hfields⟩ := hd.kind h
  have hname : d.initial.name = name := Decoder.name_initial.trans hrecord
  refine ⟨hname, .record (hname ▸ hk) (Decoder.complete_initial hfields) fun f hf v hv => ?_⟩
  rw [Decoder.get?_initial hfields (hd.names hk) hf] at hv
  obtain rfl := Option.some.inj hv
  cases hdefault : f.default with
  | none => exact .null
  | some w => exact hd.defaults hk f hf w hdefault

mutual

/-- What is decoded has the declared type. -/
theorem Decodes.shaped (hd : DecodesKinds kinds decoders) {plan : Plan CodecRef}
    {ts : List Token} {v : Value} :
    Decodes decoders plan ts v → Shaped kinds declaredLeaves (plan.mapRef CodecRef.record) v
  | .null => .null
  | .scalar hv => .scalar (declaredScalar_of_readScalar hv)
  | .list hitems => .list (hitems.shaped hd)
  | .map hentries => by
      obtain ⟨hsorted, hvalues⟩ := hentries.shaped hd .nil fun _ hp => absurd hp List.not_mem_nil
      exact .map hsorted hvalues
  | .document _ hne => .document ⟨_, rfl, hne⟩
  | .record hdec hfields => by
      obtain ⟨fields, hk, hrecord, hd'⟩ := hd.kind hdec
      obtain ⟨hname, hinitial⟩ := shaped_initial hd hdec
      obtain ⟨hsame, hshaped⟩ := hfields.shaped hd (hname ▸ hk) hd' hinitial
      rw [Record.Shaped, hsame, hname] at hshaped
      exact hshaped

theorem DecodesItems.shaped (hd : DecodesKinds kinds decoders) {item : Plan CodecRef}
    {ts : List Token} {items : List Value} : DecodesItems decoders item ts items →
      ∀ v ∈ items, Shaped kinds declaredLeaves (item.mapRef CodecRef.record) v
  | .nil => fun _ hv => absurd hv List.not_mem_nil
  | .cons hv hitems => List.forall_mem_cons.2 ⟨hv.shaped hd, hitems.shaped hd⟩

theorem DecodesEntries.shaped (hd : DecodesKinds kinds decoders) {value : Plan CodecRef}
    {held entries : List (String × Value)} {ts : List Token} :
    DecodesEntries decoders value held ts entries → Entries.Sorted held →
      (∀ p ∈ held, Shaped kinds declaredLeaves (value.mapRef CodecRef.record) p.2) →
      Entries.Sorted entries ∧
        ∀ p ∈ entries, Shaped kinds declaredLeaves (value.mapRef CodecRef.record) p.2
  | .nil, hsorted, hheld => ⟨hsorted, hheld⟩
  | .cons hv hentries, hsorted, hheld => by
      have hvalue := hv.shaped hd
      refine hentries.shaped hd (Entries.sorted_put _ _ hsorted) fun p hp => ?_
      rcases Entries.mem_put hp with rfl | hp
      · exact hvalue
      · exact hheld p hp

theorem DecodesFields.shaped (hd : DecodesKinds kinds decoders) {decoder : Decoder}
    {fields : List RecordField} {record record' : Record} {ts : List Token} :
    DecodesFields decoders decoder record ts record' → kinds record.name = some fields →
      decoder.fields = fields.map RecordField.decodeField →
      record.Shaped kinds declaredLeaves →
      record'.name = record.name ∧ record'.Shaped kinds declaredLeaves
  | .nil, _, _, hr => ⟨rfl, hr⟩
  | .field hf hv hfields, hk, hdec, hr => by
      have hvalue := hv.shaped hd
      have hrest := hfields.shaped hd hk hdec
      obtain ⟨g, hg, rfl, _⟩ := Decoder.mem_of_fieldFor? hdec hf
      rw [RecordField.mapRef_decodeField] at hvalue
      exact hrest (shaped_set rfl hk (hd.names hk) hr hg hvalue)
  | .skip _ _ hfields, hk, hdec, hr => hfields.shaped hd hk hdec hr

end

/-- A record that is decoded is of the kind asked for and has the declared shape. -/
theorem DecodesRecord.shaped (hd : DecodesKinds kinds decoders) {name : QualifiedName}
    {ts : List Token} {r : Record} (h : DecodesRecord decoders name ts r) :
    r.name = name ∧ r.Shaped kinds declaredLeaves := by
  obtain ⟨decoder, us, hdec, rfl, hfields⟩ := h
  obtain ⟨fields, hk, hrecord, hd'⟩ := hd.kind hdec
  obtain ⟨hname, hinitial⟩ := shaped_initial hd hdec
  obtain ⟨hsame, hshaped⟩ := hfields.shaped hd (hname ▸ hk) hd' hinitial
  exact ⟨hsame.trans hname, hshaped⟩

end

/-! ### Defaults -/

/-- A plan without records is followed whatever kinds there are. -/
theorem Shaped.of_no_kinds {kinds : Kinds} {leaves : Leaves} {plan : Plan QualifiedName}
    {v : Value} (h : Shaped (fun _ => none) leaves plan v) : Shaped kinds leaves plan v := by
  induction h with
  | null => exact .null
  | scalar hv => exact .scalar hv
  | list _ ih => exact .list ih
  | map hentries _ ih => exact .map hentries ih
  | document hv => exact .document hv
  | record hk _ _ _ => cases hk

/-- What a struct leaf refers to does not matter to a type without one. -/
theorem Plan.ofType_of_not_struct {ρ σ : Type} (f : ρ → σ) (ref : Option σ) {type : FieldType}
    (h : type.isStructLeaf = false) : ofType ref type = (ofType none type).mapRef f := by
  have hleaf : type.leaf ≠ .struct := of_decide_eq_false h
  clear h
  induction type with
  | scalar kind => rfl
  | struct => exact absurd rfl hleaf
  | list item ih => exact congrArg Plan.list (ih hleaf)
  | map value ih => exact congrArg Plan.map (ih hleaf)

theorem shaped_of_compileDefault {kinds : Kinds} {type : FieldType} {json : Json} {place : Place}
    {v : Value} (h : Compile.compileDefault type json place = .ok v)
    (ref : Option QualifiedName) : Shaped kinds declaredLeaves (.ofType ref type) v := by
  unfold Compile.compileDefault at h
  split at h
  · cases h
  · rename_i hleaf
    split at h
    · rename_i w hdec
      cases h
      unfold decodeDetached at hdec
      split at hdec
      · cases hdec
      · rename_i hvalue
        cases hdec
        obtain ⟨taken, _, hdecodes⟩ := decodes_of_decodeAt hvalue
        have hnone : DecodesKinds (fun _ => none) (fun _ => none) := ⟨nofun, nofun, nofun⟩
        rw [Plan.ofType_of_not_struct CodecRef.record ref (Bool.eq_false_iff.2 hleaf)]
        exact (hdecodes.shaped hnone).of_no_kinds
      · cases hdec
    · cases h

/-! ### Catalogs -/

/-- The decoders of a compiled catalog decode values of the declared types. -/
theorem Forest.decodesKinds_of_compile {settings : Settings} {forest : Forest} {catalog : Catalog}
    (hc : forest.compile settings = .ok catalog) :
    DecodesKinds catalog.kinds catalog.decoder? where
  kind h := (generates_of_compile hc).kind_of_decoder h
  names hk := nodup_names_of_kind hc hk
  defaults := by
    intro name fields hk f hf v hv
    obtain ⟨e, he, rfl⟩ := Option.map_eq_some_iff.1 hk
    obtain ⟨_, owner, _, hfields⟩ := (generated_of_compile hc (Catalog.entry?_eq_some he).1).record
    obtain ⟨g, _, hcompiled⟩ := hfields.exists_field hf
    obtain ⟨place, hdefault⟩ := hcompiled.default
    rw [hv] at hdefault
    cases hjson : g.default with
    | none =>
        rw [hjson] at hdefault
        cases hdefault
    | some json =>
        rw [hjson] at hdefault
        obtain ⟨w, hw, heq⟩ := map_eq_ok_iff.1 hdefault
        obtain rfl := Option.some.inj heq
        exact shaped_of_compileDefault hw _

end RecordCodec
