import RecordCodec.Proofs.Codec.Documents
import RecordCodec.Proofs.Codec.Soundness

/-!
Keys that no field has. `Alike` relates documents that differ, at any depth, only in entries of
records under keys that the records do not declare; such entries may be added, dropped or changed.
Documents that are alike are decoded alike: to one record, or with one error at one path. In a map
and in a free document every key counts, so nothing may differ there.
-/

namespace RecordCodec

section

variable (kinds : Kinds)

mutual

/-- The documents differ only in entries that are not declared. -/
inductive Alike : Plan QualifiedName → Json → Json → Prop
  | same {plan : Plan QualifiedName} (j : Json) : Alike plan j j
  | list {item : Plan QualifiedName} {items items' : List Json} :
      AlikeItems item items items' → Alike (.list item) (.array items) (.array items')
  | map {value : Plan QualifiedName} {entries entries' : List (String × Json)} :
      AlikeEntries value entries entries' → Alike (.map value) (.object entries) (.object entries')
  | record {name : QualifiedName} {fields : List RecordField}
      {entries entries' : List (String × Json)} :
      kinds name = some fields → AlikeMembers fields entries entries' →
      Alike (.record name) (.object entries) (.object entries')

/-- Item by item the documents are alike. -/
inductive AlikeItems : Plan QualifiedName → List Json → List Json → Prop
  | nil {item : Plan QualifiedName} : AlikeItems item [] []
  | cons {item : Plan QualifiedName} {j j' : Json} {items items' : List Json} :
      Alike item j j' → AlikeItems item items items' → AlikeItems item (j :: items) (j' :: items')

/-- Entry by entry the keys are the same and the documents are alike. -/
inductive AlikeEntries : Plan QualifiedName → List (String × Json) → List (String × Json) → Prop
  | nil {value : Plan QualifiedName} : AlikeEntries value [] []
  | cons {value : Plan QualifiedName} {key : String} {j j' : Json}
      {entries entries' : List (String × Json)} :
      Alike value j j' → AlikeEntries value entries entries' →
      AlikeEntries value ((key, j) :: entries) ((key, j') :: entries')

/-- Under declared keys the documents are alike, by the first field with the key; entries under
other keys may stand on either side. -/
inductive AlikeMembers :
    List RecordField → List (String × Json) → List (String × Json) → Prop
  | nil {fields : List RecordField} : AlikeMembers fields [] []
  | declared {fields : List RecordField} {key : String} {f : RecordField} {j j' : Json}
      {entries entries' : List (String × Json)} :
      fields.find? (·.wireKey = key) = some f → Alike f.plan j j' →
      AlikeMembers fields entries entries' →
      AlikeMembers fields ((key, j) :: entries) ((key, j') :: entries')
  | dropped {fields : List RecordField} {key : String} {j : Json}
      {entries entries' : List (String × Json)} :
      key ∉ fields.map (·.wireKey) → AlikeMembers fields entries entries' →
      AlikeMembers fields ((key, j) :: entries) entries'
  | added {fields : List RecordField} {key : String} {j : Json}
      {entries entries' : List (String × Json)} :
      key ∉ fields.map (·.wireKey) → AlikeMembers fields entries entries' →
      AlikeMembers fields entries ((key, j) :: entries')

end

end

/-! ### Decoding -/

section

variable {kinds : Kinds} {decoders : QualifiedName → Option Decoder}
  {encoders : QualifiedName → Option Encoder} {methods : MethodTable}

/-- An entry that is not declared is passed by. -/
theorem treeFields_undeclared {decoder : Decoder} {fields : List RecordField}
    (hd : decoder.fields = fields.map RecordField.decodeField) {key : String}
    (hkey : key ∉ fields.map (·.wireKey)) (j : Json) (entries : List (String × Json))
    (path : Path) (record : Record) :
    treeFields decoders ((key, j) :: entries) decoder path record =
      treeFields decoders entries decoder path record := by
  have hnone : fields.find? (·.wireKey = key) = none := by
    rw [List.find?_eq_none]
    intro f hf heq
    exact hkey (List.mem_map.2 ⟨f, hf, of_decide_eq_true heq⟩)
  rw [treeFields, Decoder.fieldFor?_eq hd, hnone]
  rfl

mutual

/-- Documents that are alike have one value, or one error. -/
theorem Alike.treeValue_eq (hg : Generates kinds decoders encoders methods)
    {plan : Plan QualifiedName} {j j' : Json} : Alike kinds plan j j' →
      ∀ p : Plan CodecRef, p.mapRef CodecRef.record = plan → ∀ path,
        treeValue decoders j p path = treeValue decoders j' p path
  | .same _, _, _, _ => rfl
  | .list hitems, p, hp, path => by
      obtain ⟨item, rfl, hitem⟩ := Plan.mapRef_eq_list hp
      rw [treeValue, treeValue, hitems.treeItems_eq hg item hitem]
  | .map hentries, p, hp, path => by
      obtain ⟨value, rfl, hvalue⟩ := Plan.mapRef_eq_map hp
      rw [treeValue, treeValue, hentries.treeEntries_eq hg value hvalue]
  | .record hk hmembers, p, hp, path => by
      obtain ⟨ref, rfl, rfl⟩ := Plan.mapRef_eq_record hp
      obtain ⟨decoder, hdec, _, hd⟩ := hg.decoder_of_kind hk
      rw [treeValue, treeValue, hdec]
      simp only
      rw [hmembers.treeFields_eq hg hd]

theorem AlikeItems.treeItems_eq (hg : Generates kinds decoders encoders methods)
    {item : Plan QualifiedName} {items items' : List Json} : AlikeItems kinds item items items' →
      ∀ p : Plan CodecRef, p.mapRef CodecRef.record = item → ∀ path i,
        treeItems decoders items p path i = treeItems decoders items' p path i
  | .nil, _, _, _, _ => rfl
  | .cons hj hitems, p, hp, path, i => by
      rw [treeItems, treeItems, hj.treeValue_eq hg p hp, hitems.treeItems_eq hg p hp]

theorem AlikeEntries.treeEntries_eq (hg : Generates kinds decoders encoders methods)
    {value : Plan QualifiedName} {entries entries' : List (String × Json)} :
    AlikeEntries kinds value entries entries' →
      ∀ p : Plan CodecRef, p.mapRef CodecRef.record = value → ∀ path held,
        treeEntries decoders entries p path held = treeEntries decoders entries' p path held
  | .nil, _, _, _, _ => rfl
  | .cons hj hentries, p, hp, path, held => by
      rw [treeEntries, treeEntries, hj.treeValue_eq hg p hp]
      simp only [hentries.treeEntries_eq hg p hp]

theorem AlikeMembers.treeFields_eq (hg : Generates kinds decoders encoders methods)
    {decoder : Decoder} {fields : List RecordField}
    (hd : decoder.fields = fields.map RecordField.decodeField)
    {entries entries' : List (String × Json)} : AlikeMembers kinds fields entries entries' →
      ∀ path record, treeFields decoders entries decoder path record =
        treeFields decoders entries' decoder path record
  | .nil, _, _ => rfl
  | .declared hfirst hj hmembers, path, record => by
      rw [treeFields, treeFields, Decoder.fieldFor?_of_find? hd hfirst]
      simp only [hj.treeValue_eq hg _ (RecordField.mapRef_decodeField _),
        hmembers.treeFields_eq hg hd]
  | .dropped hkey hmembers, path, record => by
      rw [treeFields_undeclared hd hkey, hmembers.treeFields_eq hg hd]
  | .added hkey hmembers, path, record => by
      rw [treeFields_undeclared hd hkey, hmembers.treeFields_eq hg hd]

end

/-- Documents that are alike as records give one record, or one error. -/
theorem Alike.treeRecord_eq (hg : Generates kinds decoders encoders methods)
    {name : QualifiedName} {j j' : Json} (h : Alike kinds (.record name) j j') :
    treeRecord decoders name j = treeRecord decoders name j' := by
  cases h with
  | same => rfl
  | record hk hmembers =>
      obtain ⟨decoder, hdec, _, hd⟩ := hg.decoder_of_kind hk
      rw [treeRecord, treeRecord, hdec]
      exact hmembers.treeFields_eq hg hd _ _

end

/-! ### Catalogs -/

/-- A catalog decodes documents that are alike to the same result. -/
structure Catalog.IgnoresUndeclared (catalog : Catalog) : Prop where
  decodeJson : ∀ spelling name, catalog.resolve? spelling = some name → ∀ j j',
    Alike catalog.kinds (.record name) j j' →
      catalog.decodeJson spelling j = catalog.decodeJson spelling j'
  /-- Every record can be asked for. -/
  resolves : ∀ e ∈ catalog.entries, catalog.resolve? e.name.text = some e.name

/-- Undeclared keys do not matter to a compiled catalog, neither to the records that it decodes nor
to the errors with which it refuses documents. -/
theorem Forest.compile_ignoresUndeclared (settings : Settings) (forest : Forest) :
    ∀ catalog, forest.compile settings = .ok catalog → catalog.IgnoresUndeclared := by
  intro catalog h
  constructor
  case decodeJson =>
    intro spelling name hs j j' halike
    rw [Catalog.decodeJson_eq_tree, Catalog.decodeJson_eq_tree, Catalog.resolve, hs]
    exact halike.treeRecord_eq (generates_of_compile h)
  case resolves => exact fun e he => Catalog.resolve?_text (fun _ => scope_of_compile h) he

/-- A parcel with a sender, and with further entries at either level. -/
def Json.addressed (weight : Numeral) (outer inner : List (String × Json)) : Json :=
  .object (outer ++ [("sender", .object (("name", .string "Ann") :: inner)),
    ("w", .number weight)])

/-- The first field with a key, from a list of keys and plans. -/
theorem exists_field_of_plans {fields : List RecordField}
    {plans : List (String × Plan QualifiedName)}
    (h : fields.map (fun f => (f.wireKey, f.plan)) = plans) (key : String)
    {p : String × Plan QualifiedName} (hp : plans.find? (·.1 = key) = some p) :
    ∃ f, fields.find? (·.wireKey = key) = some f ∧ f.plan = p.2 := by
  rw [← h, List.find?_map] at hp
  obtain ⟨f, hf, rfl⟩ := Option.map_eq_some_iff.1 hp
  exact ⟨f, hf, rfl⟩

theorem not_mem_wireKeys_of_plans {fields : List RecordField}
    {plans : List (String × Plan QualifiedName)}
    (h : fields.map (fun f => (f.wireKey, f.plan)) = plans) {key : String}
    (hkey : key ∉ plans.map Prod.fst) : key ∉ fields.map (·.wireKey) := by
  rw [← h, List.map_map] at hkey
  exact hkey

theorem Forest.parcel_kinds : ∃ catalog, parcel.compile {} = .ok catalog ∧
    (decide (catalog.resolve? "Parcel" = some ⟨"generated.model", "Parcel"⟩) &&
      ((catalog.kinds ⟨"generated.model", "Parcel"⟩).any (fun fields =>
        decide (fields.map (fun f => (f.wireKey, f.plan)) =
          [("w", .scalar .int), ("tags", .map (.list (.scalar .string))),
            ("sender", .record ⟨"generated.model", "ParcelSender"⟩), ("notes", .document)])) &&
      (catalog.kinds ⟨"generated.model", "ParcelSender"⟩).any (fun fields =>
        decide (fields.map (fun f => (f.wireKey, f.plan)) =
          [("name", .scalar .string), ("address", .scalar .string)])))) = true :=
  exists_catalog (by decide +kernel)

/-- A seal on the parcel and the age of the sender are not declared. The parcel is decoded in both
forms or in neither, whatever its weight. -/
theorem Forest.parcel_ignoresUndeclared : ∃ catalog, parcel.compile {} = .ok catalog ∧
    ∀ weight, catalog.decodeJson "Parcel" (.addressed weight [("seal", .array [.null])] []) =
      catalog.decodeJson "Parcel" (.addressed weight [] [("age", .bool true)]) := by
  obtain ⟨catalog, hc, htest⟩ := parcel_kinds
  obtain ⟨hname, htest⟩ := Bool.and_eq_true_iff.1 htest
  obtain ⟨hparcel, hsender⟩ := Bool.and_eq_true_iff.1 htest
  obtain ⟨fields, hk, hplans⟩ := (Option.any_eq_true _ _).1 hparcel
  obtain ⟨fields', hk', hplans'⟩ := (Option.any_eq_true _ _).1 hsender
  have hplans := of_decide_eq_true hplans
  have hplans' := of_decide_eq_true hplans'
  obtain ⟨weigh, hweigh, _⟩ := exists_field_of_plans hplans "w" rfl
  obtain ⟨send, hsend, hsendPlan⟩ := exists_field_of_plans hplans "sender" rfl
  obtain ⟨named, hnamed, _⟩ := exists_field_of_plans hplans' "name" rfl
  refine ⟨catalog, hc, fun weight => ?_⟩
  refine (compile_ignoresUndeclared {} parcel catalog hc).decodeJson _ _ (of_decide_eq_true hname)
    _ _ (.record hk ?_)
  refine .dropped (not_mem_wireKeys_of_plans hplans (by decide)) (.declared hsend ?_ ?_)
  · rw [hsendPlan]
    refine .record hk' (.declared hnamed (.same _) ?_)
    exact .added (not_mem_wireKeys_of_plans hplans' (by decide)) .nil
  · exact .declared hweigh (.same _) .nil

end RecordCodec
