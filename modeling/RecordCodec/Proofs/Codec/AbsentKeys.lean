import RecordCodec.Proofs.Codec.Documents
import RecordCodec.Proofs.Codec.Soundness
import RecordCodec.Proofs.Compile.Sharing
import RecordCodec.Proofs.Compile.Success

/-!
Keys that are absent. A field whose key is absent from a document holds the default that was
compiled for it, or null. The default was compiled from the schema's document by a decoder that has
no records at hand, and is put into the record before any key is read; a value under the key is
decoded by the record's own decoder, among the other keys. `Fills` relates documents of which the
second has, somewhere, one key more, with the document that the schema declares as its default.
Filling in keys changes neither the record that is decoded nor the error.
-/

namespace RecordCodec

open Compile
open Relation (ReflTransGen)

/-! ### Filling in a key -/

/-- The field was compiled from the property, of the record's owner, with its name. The records are
given with their owners. -/
def Declares (made : List (Field × Entry)) (name : QualifiedName) (f : RecordField) (g : Field) :
    Prop :=
  ∃ p ∈ made, p.2.name = name ∧ f ∈ p.2.definition.fields ∧ g ∈ p.1.properties ∧ g.name = f.name

/-- In the second document one object, which is read as a record, has one key more, with what is
declared as the default of the first field with this key. -/
inductive Fills (kinds : Kinds) (declares : QualifiedName → RecordField → Field → Prop) :
    Plan QualifiedName → Json → Json → Prop
  | absent {name : QualifiedName} {fields : List RecordField} {key : String} {f : RecordField}
      {g : Field} {entries : List (String × Json)} :
      kinds name = some fields → fields.find? (·.wireKey = key) = some f →
      declares name f g → Entries.get? key entries = none →
      Fills kinds declares (.record name) (.object entries)
        (.object (Entries.put key (g.default.getD .null) entries))
  | item {item : Plan QualifiedName} {before after : List Json} {j j' : Json} :
      Fills kinds declares item j j' →
      Fills kinds declares (.list item) (.array (before ++ j :: after))
        (.array (before ++ j' :: after))
  | entry {value : Plan QualifiedName} {before after : List (String × Json)} {key : String}
      {j j' : Json} :
      Fills kinds declares value j j' →
      Fills kinds declares (.map value) (.object (before ++ (key, j) :: after))
        (.object (before ++ (key, j') :: after))
  | member {name : QualifiedName} {fields : List RecordField} {f : RecordField}
      {before after : List (String × Json)} {key : String} {j j' : Json} :
      kinds name = some fields → fields.find? (·.wireKey = key) = some f →
      Fills kinds declares f.plan j j' →
      Fills kinds declares (.record name) (.object (before ++ (key, j) :: after))
        (.object (before ++ (key, j') :: after))

/-! ### Defaults -/

section

variable (decoders : QualifiedName → Option Decoder)

mutual

/-- What stands for a value without any records stands for it with records, too. -/
theorem Decodes.of_no_decoders {plan : Plan CodecRef} {ts : List Token} {v : Value} :
    Decodes (fun _ => none) plan ts v → Decodes decoders plan ts v
  | .null => .null
  | .scalar hv => .scalar hv
  | .list hitems => .list hitems.of_no_decoders
  | .map hentries => .map hentries.of_no_decoders
  | .document hspells hne => .document hspells hne
  | .record hdec _ => nomatch hdec

theorem DecodesItems.of_no_decoders {item : Plan CodecRef} {ts : List Token} {vs : List Value} :
    DecodesItems (fun _ => none) item ts vs → DecodesItems decoders item ts vs
  | .nil => .nil
  | .cons hv hitems => .cons hv.of_no_decoders hitems.of_no_decoders

theorem DecodesEntries.of_no_decoders {value : Plan CodecRef} {held entries : List (String × Value)}
    {ts : List Token} :
    DecodesEntries (fun _ => none) value held ts entries →
      DecodesEntries decoders value held ts entries
  | .nil => .nil
  | .cons hv hentries => .cons hv.of_no_decoders hentries.of_no_decoders

end

variable {decoders}

/-- A document whose tokens stand for a value is decoded as a tree, at any path. -/
theorem treeValue_of_decodes {plan : Plan CodecRef} {j : Json} {v : Value}
    (h : Decodes decoders plan j.tokens v) (path : Path) :
    treeValue decoders j plan path = .ok v := by
  have hanswer := (h.gives path []).answer_eq
  rw [answer_decodeAt_tokens] at hanswer
  obtain ⟨w, hw, heq⟩ := map_eq_ok_iff.1 hanswer
  rw [hw, (Prod.mk.inj heq).1]

/-- Without a struct leaf it does not matter what is referred to. -/
theorem Plan.ofType_eq_none {ρ : Type} (ref : Option ρ) {type : FieldType}
    (h : type.isStructLeaf = false) : ofType ref type = ofType none type :=
  (ofType_of_not_struct id ref h).trans (ofType_of_not_struct id none h).symm

/-- The document declared as a field's default is decoded by the field's own plan, at any path and
whatever the records, to the default that was compiled. -/
theorem treeValue_default {c : Setting} {f : RecordField} {g : Field} (h : CompiledField c g f)
    (path : Path) :
    treeValue decoders (g.default.getD .null) f.decodeField.plan path =
      .ok (f.default.getD .null) := by
  obtain ⟨place, hdefault⟩ := h.default
  cases hjson : g.default with
  | none =>
      rw [hjson] at hdefault
      obtain hnone : none = f.default := Except.ok.inj hdefault
      rw [← hnone]
      rfl
  | some json =>
      rw [hjson] at hdefault
      obtain ⟨v, hv, heq⟩ := map_eq_ok_iff.1 hdefault
      rw [← heq]
      unfold compileDefault at hv
      split at hv
      · cases hv
      · rename_i hleaf
        split at hv
        · rename_i w hdetached
          cases hv
          have hplan : f.decodeField.plan = .ofType none f.type :=
            Plan.ofType_eq_none _ (Bool.eq_false_iff.2 hleaf)
          rw [hplan]
          have hdecodes := (decodeDetached_eq_ok_iff.1 hdetached).of_no_decoders decoders
          exact treeValue_of_decodes hdecodes path
        · cases hv

end

/-! ### Decoding -/

section

variable {decoders : QualifiedName → Option Decoder} {j j' : Json} {path : Path}

/-- Items decoded alike may take each other's places. -/
theorem treeItems_congr {item : Plan CodecRef} {before after : List Json} {i : Nat}
    (h : ∀ path, treeValue decoders j item path = treeValue decoders j' item path) :
    treeItems decoders (before ++ j :: after) item path i =
      treeItems decoders (before ++ j' :: after) item path i := by
  induction before generalizing i with
  | nil => rw [List.nil_append, List.nil_append, treeItems, treeItems, h]
  | cons k before ih => rw [List.cons_append, List.cons_append, treeItems, treeItems, ih]

theorem treeEntries_congr {value : Plan CodecRef} {before after : List (String × Json)}
    {key : String} {held : List (String × Value)}
    (h : ∀ path, treeValue decoders j value path = treeValue decoders j' value path) :
    treeEntries decoders (before ++ (key, j) :: after) value path held =
      treeEntries decoders (before ++ (key, j') :: after) value path held := by
  induction before generalizing held with
  | nil => rw [List.nil_append, List.nil_append, treeEntries, treeEntries, h]
  | cons p before ih =>
      rw [List.cons_append, List.cons_append, treeEntries, treeEntries]
      simp only [ih]

theorem treeFields_congr {decoder : Decoder} {before after : List (String × Json)} {key : String}
    {f : DecodeField} {record : Record} (hf : decoder.fieldFor? key = some f)
    (h : ∀ path, treeValue decoders j f.plan path = treeValue decoders j' f.plan path) :
    treeFields decoders (before ++ (key, j) :: after) decoder path record =
      treeFields decoders (before ++ (key, j') :: after) decoder path record := by
  induction before generalizing record with
  | nil =>
      rw [List.nil_append, List.nil_append, treeFields, treeFields, hf]
      simp only [h]
  | cons p before ih =>
      rw [List.cons_append, List.cons_append, treeFields, treeFields]
      simp only [ih]

/-- The record has exactly the declared fields, and holds the default of this one. -/
structure HoldsDefault (fields : List RecordField) (f : RecordField) (record : Record) : Prop where
  complete : Complete fields record.fields
  held : Entries.get? f.name record.fields = some (f.default.getD .null)

section

variable {fields : List RecordField} {f g : RecordField} {key : String} {record : Record}
  {decoder : Decoder}

theorem HoldsDefault.set_default (h : HoldsDefault fields f record) :
    record.set f.name (f.default.getD .null) = record := by
  obtain ⟨name, entries⟩ := record
  exact congrArg (Record.mk name) (Entries.put_of_get? h.complete.sorted h.held)

theorem HoldsDefault.set (h : HoldsDefault fields f record) (hg : g ∈ fields)
    (hne : g.name ≠ f.name) (v : Value) : HoldsDefault fields f (record.set g.name v) where
  complete := h.complete.put hg v
  held := (Entries.get?_put_of_ne hne v record.fields).trans h.held

theorem HoldsDefault.initial (hd : decoder.fields = fields.map RecordField.decodeField)
    (hnames : (fields.map (·.name)).Nodup) (hf : f ∈ fields) :
    HoldsDefault fields f decoder.initial :=
  ⟨Decoder.complete_initial hd, Decoder.get?_initial hd hnames hf⟩

/-- An entry with the default does not change a record that holds it. -/
theorem treeFields_default (hd : decoder.fields = fields.map RecordField.decodeField)
    (hf : fields.find? (·.wireKey = key) = some f)
    (hj : ∀ path, treeValue decoders j f.decodeField.plan path = .ok (f.default.getD .null))
    (hr : HoldsDefault fields f record) (entries : List (String × Json)) :
    treeFields decoders ((key, j) :: entries) decoder path record =
      treeFields decoders entries decoder path record := by
  rw [treeFields, Decoder.fieldFor?_of_find? hd hf]
  simp only [hj]
  show treeFields decoders entries decoder path (record.set f.name _) = _
  rw [hr.set_default]

/-- Filling in the default of an absent key changes nothing, wherever the key belongs. -/
theorem treeFields_put (hd : decoder.fields = fields.map RecordField.decodeField)
    (hnames : (fields.map (·.name)).Nodup)
    (hf : fields.find? (·.wireKey = key) = some f)
    (hj : ∀ path, treeValue decoders j f.decodeField.plan path = .ok (f.default.getD .null))
    {entries : List (String × Json)} (habsent : Entries.get? key entries = none)
    (hr : HoldsDefault fields f record) :
    treeFields decoders (Entries.put key j entries) decoder path record =
      treeFields decoders entries decoder path record := by
  induction entries generalizing record with
  | nil => exact treeFields_default hd hf hj hr []
  | cons p entries ih =>
      obtain ⟨other, k⟩ := p
      rw [Entries.get?_cons] at habsent
      split at habsent
      · cases habsent
      · rename_i hkey
        rw [Entries.put]
        split
        · exact treeFields_default hd hf hj hr _
        · rw [if_neg (Ne.symm hkey), treeFields, treeFields]
          cases hfirst : decoder.fieldFor? other with
          | none => exact ih habsent hr
          | some g =>
              -- the field of another key is another field, so the default stays
              obtain ⟨g, hg, rfl, rfl⟩ := Decoder.mem_of_fieldFor? hd hfirst
              have hne : g.name ≠ f.name := by
                intro heq
                obtain rfl :=
                  List.inj_on_of_nodup_map hnames hg (List.mem_of_find?_eq_some hf) heq
                exact hkey (by simpa using List.find?_some hf)
              simp only
              refine congrArg _ (funext fun v => ?_)
              exact ih habsent (hr.set hg hne v)

theorem treeFields_put_initial (hd : decoder.fields = fields.map RecordField.decodeField)
    (hnames : (fields.map (·.name)).Nodup)
    (hf : fields.find? (·.wireKey = key) = some f)
    (hj : ∀ path, treeValue decoders j f.decodeField.plan path = .ok (f.default.getD .null))
    {entries : List (String × Json)} (habsent : Entries.get? key entries = none) :
    treeFields decoders (Entries.put key j entries) decoder path decoder.initial =
      treeFields decoders entries decoder path decoder.initial :=
  treeFields_put hd hnames hf hj habsent
    (.initial hd hnames (List.mem_of_find?_eq_some hf))

end

variable {kinds : Kinds} {encoders : QualifiedName → Option Encoder} {methods : MethodTable}
  {declares : QualifiedName → RecordField → Field → Prop}

/-- Every declared default is decoded to the default that the field holds. -/
def DecodesDefaults (declares : QualifiedName → RecordField → Field → Prop)
    (decoders : QualifiedName → Option Decoder) : Prop :=
  ∀ {name f g}, declares name f g → ∀ path,
    treeValue decoders (g.default.getD .null) f.decodeField.plan path = .ok (f.default.getD .null)

/-- Where a key was filled in, one value is decoded, or one error. -/
theorem Fills.treeValue_eq (hg : Generates kinds decoders encoders methods)
    (hnames : ∀ {name fields}, kinds name = some fields → (fields.map (·.name)).Nodup)
    (hdefaults : DecodesDefaults declares decoders) {plan : Plan QualifiedName} {j j' : Json}
    (h : Fills kinds declares plan j j') :
    ∀ p : Plan CodecRef, p.mapRef CodecRef.record = plan → ∀ path,
      treeValue decoders j p path = treeValue decoders j' p path := by
  induction h with
  | absent hk hf hdeclares habsent =>
      intro p hp path
      obtain ⟨ref, rfl, rfl⟩ := Plan.mapRef_eq_record hp
      obtain ⟨decoder, hdec, _, hd⟩ := hg.decoder_of_kind hk
      rw [treeValue, treeValue, hdec]
      simp only
      rw [treeFields_put_initial hd (hnames hk) hf (hdefaults hdeclares) habsent]
  | item _ ih =>
      intro p hp path
      obtain ⟨item, rfl, hitem⟩ := Plan.mapRef_eq_list hp
      rw [treeValue, treeValue, treeItems_congr (ih item hitem)]
  | entry _ ih =>
      intro p hp path
      obtain ⟨value, rfl, hvalue⟩ := Plan.mapRef_eq_map hp
      rw [treeValue, treeValue, treeEntries_congr (ih value hvalue)]
  | member hk hf _ ih =>
      intro p hp path
      obtain ⟨ref, rfl, rfl⟩ := Plan.mapRef_eq_record hp
      obtain ⟨decoder, hdec, _, hd⟩ := hg.decoder_of_kind hk
      rw [treeValue, treeValue, hdec]
      simp only
      rw [treeFields_congr (Decoder.fieldFor?_of_find? hd hf)
        (ih _ (RecordField.mapRef_decodeField _))]

/-- Where a key was filled in, one record is decoded, or one error. -/
theorem Fills.treeRecord_eq (hg : Generates kinds decoders encoders methods)
    (hnames : ∀ {name fields}, kinds name = some fields → (fields.map (·.name)).Nodup)
    (hdefaults : DecodesDefaults declares decoders) {name : QualifiedName} {j j' : Json}
    (h : Fills kinds declares (.record name) j j') :
    treeRecord decoders name j = treeRecord decoders name j' := by
  cases h with
  | absent hk hf hdeclares habsent =>
      obtain ⟨decoder, hdec, _, hd⟩ := hg.decoder_of_kind hk
      rw [treeRecord, treeRecord, hdec]
      exact (treeFields_put_initial hd (hnames hk) hf (hdefaults hdeclares) habsent).symm
  | member hk hf hvalue =>
      obtain ⟨decoder, hdec, _, hd⟩ := hg.decoder_of_kind hk
      rw [treeRecord, treeRecord, hdec]
      exact treeFields_congr (Decoder.fieldFor?_of_find? hd hf)
        (hvalue.treeValue_eq hg hnames hdefaults _ (RecordField.mapRef_decodeField _))

end

/-! ### Catalogs -/

section

variable {settings : Settings} {forest : Forest} {catalog : Catalog}
  {targets : List ArtifactNames} {made : List (Field × Entry)}

/-- A field of a record agrees with the only property that declared it. -/
theorem exists_declares (hc : forest.compile settings = .ok catalog)
    (hentries : made.map Prod.snd = catalog.entries)
    (hs : SharesExactly ⟨settings, forest⟩ targets made) {p : Field × Entry} (hp : p ∈ made)
    {f : RecordField} (hf : f ∈ p.2.definition.fields) :
    ∃ g, CompiledField ⟨settings, forest⟩ g f ∧ ∀ g', Declares made p.2.name f g' ↔ g' = g := by
  have hfrom := hs.fields p hp
  have hentry : p.2 ∈ catalog.entries := hentries ▸ List.mem_map_of_mem hp
  have hproperties : (p.1.properties.map (·.name)).Nodup :=
    hfrom.names_eq ▸ Forest.nodup_fieldNames_of_compile hc hentry
  have hnames : (made.map (·.2.name)).Nodup := by
    have hnames := Forest.nodup_names_of_compile hc
    rw [← hentries, List.map_map] at hnames
    exact hnames
  obtain ⟨g, hg, hcompiled⟩ := hfrom.exists_field hf
  refine ⟨g, hcompiled, fun g' => ⟨?_, ?_⟩⟩
  · rintro ⟨q, hq, hsame, _, hg', hname⟩
    obtain rfl := List.inj_on_of_nodup_map hnames hq hp hsame
    exact List.inj_on_of_nodup_map hproperties hg' hg (hname.trans hcompiled.name)
  · rintro rfl
    exact ⟨p, hp, rfl, hf, hg, hcompiled.name.symm⟩

theorem Declares.compiledField (hc : forest.compile settings = .ok catalog)
    (hentries : made.map Prod.snd = catalog.entries)
    (hs : SharesExactly ⟨settings, forest⟩ targets made) {name : QualifiedName} {f : RecordField}
    {g : Field} (h : Declares made name f g) : CompiledField ⟨settings, forest⟩ g f := by
  obtain ⟨p, hp, rfl, hf, _⟩ := id h
  obtain ⟨g', hcompiled, honly⟩ := exists_declares hc hentries hs hp hf
  rwa [(honly g).1 h]

end

/-- A catalog whose records were made from these owners decodes documents in which keys are absent
as it decodes them with the declared defaults filled in. -/
structure Catalog.FillsAbsent (catalog : Catalog) (made : List (Field × Entry)) : Prop where
  decodeJson : ∀ spelling name, catalog.resolve? spelling = some name → ∀ j j',
    ReflTransGen (Fills catalog.kinds (Declares made) (.record name)) j j' →
      catalog.decodeJson spelling j = catalog.decodeJson spelling j'
  /-- Every field of a record was declared by one property. -/
  declared : ∀ name fields, catalog.kinds name = some fields → ∀ f ∈ fields,
    ∃! g, Declares made name f g
  /-- Every record can be asked for. -/
  resolves : ∀ e ∈ catalog.entries, catalog.resolve? e.name.text = some e.name

/-- A compiled catalog decodes an absent key as it decodes the default declared for its field, or
null. -/
theorem Forest.compile_fillsAbsent (settings : Settings) (forest : Forest) :
    ∀ catalog, forest.compile settings = .ok catalog → ∃ targets made run,
      compileRoots ⟨settings, forest⟩ start forest.roots =
        .ok (targets.map ArtifactNames.record, run) ∧
      made.map Prod.snd = catalog.entries ∧ SharesExactly ⟨settings, forest⟩ targets made ∧
      catalog.FillsAbsent made := by
  intro catalog h
  obtain ⟨targets, made, run, hroots, hentries, hs⟩ := exists_made h
  refine ⟨targets, made, run, hroots, hentries, hs, ?_⟩
  constructor
  case decodeJson =>
    intro spelling name hname j j' hfills
    rw [Catalog.decodeJson_eq_tree, Catalog.decodeJson_eq_tree, Catalog.resolve, hname]
    show treeRecord catalog.decoder? name j = treeRecord catalog.decoder? name j'
    induction hfills with
    | refl => rfl
    | tail _ hfill ih =>
        refine ih.trans (hfill.treeRecord_eq (generates_of_compile h) (nodup_names_of_kind h) ?_)
        exact fun hdeclares => treeValue_default (hdeclares.compiledField h hentries hs)
  case declared =>
    intro name fields hk f hf
    obtain ⟨e, he, rfl⟩ := Option.map_eq_some_iff.1 hk
    obtain ⟨hmem, rfl⟩ := Catalog.entry?_eq_some he
    rw [← hentries] at hmem
    obtain ⟨p, hp, rfl⟩ := List.mem_map.1 hmem
    obtain ⟨g, _, honly⟩ := exists_declares h hentries hs hp hf
    exact ⟨g, (honly g).2 rfl, fun g' hg' => (honly g').1 hg'⟩
  case resolves => exact fun e he => Catalog.resolve?_text (fun _ => scope_of_compile h) he

def Numeral.five : Numeral := ⟨"5", by decide +kernel⟩

/-- The weight of a box, with its default. -/
def Field.weight : Field where
  name := "weight"
  type := some (.scalar .int)
  wireName := some "w"
  default := some (.number .five)

/-- Boxes in boxes, each with a weight. -/
def Field.box : Field where
  name := "box"
  identity := some "box"
  properties := [.weight,
    { name := "contents", type := some (.list .struct), identity := some "box" }]

def Forest.boxes : Forest where
  roots := [.box]

def QualifiedName.box : QualifiedName := ⟨"generated.model", "Box"⟩

theorem Forest.boxes_kinds : ∃ catalog, boxes.compile {} = .ok catalog ∧
    (decide (catalog.resolve? "Box" = some .box ∧ catalog.entries.map Entry.name = [.box]) &&
      (catalog.kinds .box).any fun fields =>
        decide (fields.map (fun f => (f.wireKey, f.name, f.plan)) =
          [("w", "weight", .scalar .int), ("contents", "contents", .list (.record .box))])) = true :=
  exists_catalog (by decide +kernel)

theorem Forest.boxes_roots : (compileRoots ⟨{}, boxes⟩ start boxes.roots).map Prod.fst =
    .ok [.box] := by
  decide +kernel

/-- The only record is made from the only root, so its weight is declared there. -/
theorem Forest.boxes_declares {catalog : Catalog} (hc : boxes.compile {} = .ok catalog)
    (hnames : catalog.entries.map Entry.name = [.box]) {targets : List ArtifactNames}
    {made : List (Field × Entry)} {run : Run}
    (hroots : compileRoots ⟨{}, boxes⟩ start boxes.roots =
      .ok (targets.map ArtifactNames.record, run))
    (hentries : made.map Prod.snd = catalog.entries) (hs : SharesExactly ⟨{}, boxes⟩ targets made)
    {fields : List RecordField} (hk : catalog.kinds .box = some fields) {f : RecordField}
    (hf : f ∈ fields) (hname : f.name = "weight") : Declares made .box f .weight := by
  have htargets := boxes_roots
  rw [hroots] at htargets
  obtain ⟨t, rest, rfl, -, -⟩ := List.map_eq_cons_iff.1 (Except.ok.inj htargets)
  have hreached : (Field.box, some t) ∈ reachedFields boxes.roots (t :: rest) made :=
    List.mem_append_left _ List.mem_cons_self
  have howner : boxes.fields.find? (·.owns "box") = some .box := rfl
  obtain ⟨e, he, -, -⟩ := hs.owned _ hreached rfl howner
  have hmem : e ∈ catalog.entries := hentries ▸ List.mem_map_of_mem he
  have hbox : e.name ∈ [QualifiedName.box] := hnames ▸ List.mem_map_of_mem hmem
  have hfields := kinds_of_compile hc hmem
  rw [List.mem_singleton.1 hbox, hk] at hfields
  cases hfields
  exact ⟨_, he, List.mem_singleton.1 hbox, hf, List.mem_cons_self, hname.symm⟩

/-- A box that holds another and one of weight 2. -/
def Json.box (outer inner : List (String × Json)) : Json :=
  .object (("contents", .array [.object inner,
    .object [("w", .number ⟨"2", by decide +kernel⟩)]]) :: outer)

/-- The weights that are absent, of a box and of a box in it, may be filled in. -/
theorem Forest.boxes_fillsAbsent : ∃ catalog, boxes.compile {} = .ok catalog ∧
    catalog.decodeJson "Box" (.box [] []) =
      catalog.decodeJson "Box" (.box [("w", .number .five)] [("w", .number .five)]) := by
  obtain ⟨catalog, hc, htest⟩ := boxes_kinds
  obtain ⟨htest, hplans⟩ := Bool.and_eq_true_iff.1 htest
  obtain ⟨hname, hnames⟩ := of_decide_eq_true htest
  obtain ⟨fields, hk, hplans⟩ := (Option.any_eq_true _ _).1 hplans
  obtain ⟨targets, made, run, hroots, hentries, hs, hfills⟩ :=
    compile_fillsAbsent {} boxes catalog hc
  obtain ⟨f, rest, rfl, hf, hrest⟩ := List.map_eq_cons_iff.1 (of_decide_eq_true hplans)
  obtain ⟨g, rest, rfl, hg, hrest⟩ := List.map_eq_cons_iff.1 hrest
  simp only [Prod.mk.injEq] at hf hg
  obtain ⟨hfkey, hfname, -⟩ := hf
  obtain ⟨hgkey, -, hgplan⟩ := hg
  have hdeclares := boxes_declares hc hnames hroots hentries hs hk List.mem_cons_self hfname
  refine ⟨catalog, hc, hfills.decodeJson _ _ hname _ _ ?_⟩
  have hw : (f :: g :: rest).find? (·.wireKey = "w") = some f := by simp [hfkey]
  have hcontents : (f :: g :: rest).find? (·.wireKey = "contents") = some g := by
    simp [hfkey, hgkey]
  -- first the inner box, then the outer one
  have hinner : Fills catalog.kinds (Declares made) (.record .box) (.box [] [])
      (.box [] [("w", .number .five)]) := by
    refine @Fills.member _ _ .box _ g [] [] _ _ _ hk hcontents ?_
    rw [hgplan]
    exact @Fills.item _ _ _ [] _ _ _ (.absent hk hw hdeclares rfl)
  have houter : Fills catalog.kinds (Declares made) (.record .box) (.box [] [("w", .number .five)])
      (.box [("w", .number .five)] [("w", .number .five)]) :=
    .absent hk hw hdeclares rfl
  exact .tail (.single hinner) houter

end RecordCodec
