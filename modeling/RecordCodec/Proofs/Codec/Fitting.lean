import RecordCodec.Proofs.Codec.Soundness
import RecordCodec.Proofs.Json.Literals
import RecordCodec.Proofs.Json.Stream

/-!
Which documents are decoded. `Fits` says of a document that it fits a plan, with the document as a
tree: whatever stands under a declared key must fit the first field with that key, and everything
else is free. A document that fits is decoded; and since what is decoded from the front of a
document's tokens is all of them, a document that is decoded fits.
-/

namespace RecordCodec

open Token (Skips Spells Taken)

/-! ### Integers -/

namespace Numeral

/-- The integer that a literal writes, if it has neither a fraction nor an exponent. -/
def integer? (n : Numeral) : Option Int :=
  match read? n.text.toList with
  | some ⟨negative, whole, [], none⟩ =>
      some (if negative then -Int.ofNat (Text.digitsValue whole)
        else Int.ofNat (Text.digitsValue whole))
  | _ => none

/-- The literal writes an integer from `low` up to, and not including, `high`. -/
def Within (n : Numeral) (low high : Int) : Prop :=
  ∃ i, n.integer? = some i ∧ low ≤ i ∧ i < high

/-- The literals that are read as integers are those without fraction and exponent. -/
theorem readInt?_text (n : Numeral) : Text.readInt? n.text.toList = n.integer? := by
  obtain ⟨p, hread, htext⟩ := Option.map_eq_some_iff.1 n.normal
  have hp := wellFormed_of_read? hread
  have hchars : n.text.toList = p.charsWith (exponentChars p.exponent) := by
    rw [← htext, String.toList_ofList, p.chars_eq, Parts.charsWith]
  rw [integer?, hread, hchars,
    readInt?_charsWith hp (scanTail?_exponentChars hp.exponent_digits)]
  obtain ⟨negative, whole, fraction, exponent⟩ := p
  cases fraction <;> cases exponent <;> rfl

end Numeral

/-! ### Fitting -/

/-- The document, other than null, fits a scalar type. -/
def FitsScalar : ScalarKind → Json → Prop
  | .string, .string _ => True
  | .int, .number n => n.Within (-2 ^ 31) (2 ^ 31)
  | .long, .number n => n.Within (-2 ^ 63) (2 ^ 63)
  | .decimal, .number n => ∃ d, Decimal.read n.text = .ok d
  | .decimal, .string s => ∃ d, Decimal.read s = .ok d
  | .boolean, .bool _ => True
  | _, _ => False

/-- The document fits the plan. -/
inductive Fits (kinds : Kinds) : Plan QualifiedName → Json → Prop
  | null {plan : Plan QualifiedName} : Fits kinds plan .null
  | scalar {kind : ScalarKind} {j : Json} : FitsScalar kind j → Fits kinds (.scalar kind) j
  | list {item : Plan QualifiedName} {items : List Json} :
      (∀ j ∈ items, Fits kinds item j) → Fits kinds (.list item) (.array items)
  | map {value : Plan QualifiedName} {entries : List (String × Json)} :
      (∀ p ∈ entries, Fits kinds value p.2) → Fits kinds (.map value) (.object entries)
  | document (j : Json) : Fits kinds .document j
  | record {name : QualifiedName} {fields : List RecordField} {entries : List (String × Json)} :
      kinds name = some fields →
      (∀ p ∈ entries, ∀ f, fields.find? (·.wireKey = p.1) = some f → Fits kinds f.plan p.2) →
      Fits kinds (.record name) (.object entries)

/-- The document is an object that fits the record. -/
def FitsRecord (kinds : Kinds) (name : QualifiedName) (j : Json) : Prop :=
  (∃ entries, j = .object entries) ∧ Fits kinds (.record name) j

/-! ### Scalars -/

theorem Numeral.exists_within_iff (n : Numeral) {α : Type} {ofInt : Int → α} {low high : Int} :
    (∃ a, (match Text.readInt? n.text.toList with
      | some i => if low ≤ i ∧ i ≤ high - 1 then some (ofInt i) else none
      | none => none) = some a) ↔ n.Within low high := by
  rw [n.readInt?_text, Within]
  cases n.integer? with
  | none => simp
  | some i =>
      simp only [Int.le_sub_one_iff]
      simp

theorem exists_readInt32?_iff {n : Numeral} :
    (∃ i, Text.readInt32? n.text = some i) ↔ n.Within (-2 ^ 31) (2 ^ 31) := by
  have hmin : Int32.minValue.toInt = -2 ^ 31 := by decide
  have hmax : Int32.maxValue.toInt = 2 ^ 31 - 1 := by decide
  rw [Text.readInt32?, hmin, hmax]
  exact n.exists_within_iff

theorem exists_readInt64?_iff {n : Numeral} :
    (∃ i, Text.readInt64? n.text = some i) ↔ n.Within (-2 ^ 63) (2 ^ 63) := by
  have hmin : Int64.minValue.toInt = -2 ^ 63 := by decide
  have hmax : Int64.maxValue.toInt = 2 ^ 63 - 1 := by decide
  rw [Text.readInt64?, hmin, hmax]
  exact n.exists_within_iff

theorem exists_decimal_iff {literal : String} :
    (∃ v, readScalar.decimal literal = .ok (some v)) ↔ ∃ d, Decimal.read literal = .ok d := by
  unfold readScalar.decimal
  cases Decimal.read literal with
  | ok d => simp
  | error e => cases e <;> simp

/-- The only token of a document is read as a scalar exactly when the document fits. -/
theorem fitsScalar_iff {kind : ScalarKind} {j : Json} {t : Token} (h : j.tokens = [t]) :
    FitsScalar kind j ↔ ∃ v, readScalar kind t = .ok (some v) := by
  have hmap {α : Type} {f : α → Value} {o : Option α} :
      (∃ v, (Except.ok (o.map f) : Except Error (Option Value)) = .ok (some v)) ↔
        ∃ a, o = some a := by
    cases o <;> simp
  cases j with
  | null =>
      cases h
      cases kind <;> exact ⟨nofun, nofun⟩
  | bool b =>
      cases h
      cases kind with
      | boolean => exact ⟨fun _ => ⟨_, rfl⟩, fun _ => trivial⟩
      | _ => exact ⟨nofun, nofun⟩
  | number n =>
      cases h
      cases kind with
      | int => exact exists_readInt32?_iff.symm.trans hmap.symm
      | long => exact exists_readInt64?_iff.symm.trans hmap.symm
      | decimal => exact exists_decimal_iff.symm
      | _ => exact ⟨nofun, nofun⟩
  | string s =>
      cases h
      cases kind with
      | string => exact ⟨fun _ => ⟨_, rfl⟩, fun _ => trivial⟩
      | decimal => exact exists_decimal_iff.symm
      | _ => exact ⟨nofun, nofun⟩
  | array items => simp [Json.tokens] at h
  | object entries => simp [Json.tokens] at h

/-! ### Documents that fit are decoded -/

section

variable {kinds : Kinds} {decoders : QualifiedName → Option Decoder}
  {encoders : QualifiedName → Option Encoder} {methods : MethodTable}

theorem exists_decodesItems {item : Plan CodecRef} {items : List Json}
    (h : ∀ j ∈ items, ∃ v, Decodes decoders item j.tokens v) :
    ∃ vs, DecodesItems decoders item (Json.itemTokens items ++ [.endArray]) vs := by
  induction items with
  | nil => exact ⟨[], .nil⟩
  | cons j rest ih =>
      obtain ⟨⟨v, hv⟩, hrest⟩ := List.forall_mem_cons.1 h
      obtain ⟨vs, hvs⟩ := ih hrest
      rw [Json.itemTokens_cons]
      exact ⟨v :: vs, .cons hv hvs⟩

theorem exists_decodesEntries {value : Plan CodecRef} {entries : List (String × Json)}
    (h : ∀ p ∈ entries, ∃ v, Decodes decoders value p.2.tokens v) (held : List (String × Value)) :
    ∃ entries', DecodesEntries decoders value held (Json.entryTokens entries ++ [.endObject])
      entries' := by
  induction entries generalizing held with
  | nil => exact ⟨held, .nil⟩
  | cons p rest ih =>
      obtain ⟨⟨v, hv⟩, hrest⟩ := List.forall_mem_cons.1 h
      obtain ⟨entries', hentries⟩ := ih hrest (Entries.put p.1 v held)
      rw [Json.entryTokens_cons]
      exact ⟨entries', .cons hv hentries⟩

theorem exists_decodesFields {decoder : Decoder} {entries : List (String × Json)}
    (h : ∀ p ∈ entries, ∀ f, decoder.fieldFor? p.1 = some f →
      ∃ v, Decodes decoders f.plan p.2.tokens v) (record : Record) :
    ∃ record', DecodesFields decoders decoder record (Json.entryTokens entries ++ [.endObject])
      record' := by
  induction entries generalizing record with
  | nil => exact ⟨record, .nil⟩
  | cons p rest ih =>
      obtain ⟨hp, hrest⟩ := List.forall_mem_cons.1 h
      rw [Json.entryTokens_cons]
      cases hf : decoder.fieldFor? p.1 with
      | none =>
          obtain ⟨record', hfields⟩ := ih hrest record
          exact ⟨record', .skip hf p.2.skips_tokens hfields⟩
      | some f =>
          obtain ⟨v, hv⟩ := hp f hf
          obtain ⟨record', hfields⟩ := ih hrest (record.set f.field v)
          exact ⟨record', .field hf hv hfields⟩

/-- A document that fits stands for a value. -/
theorem Fits.decodes (hg : Generates kinds decoders encoders methods)
    {plan : Plan QualifiedName} {j : Json} (h : Fits kinds plan j) :
    ∀ p : Plan CodecRef, p.mapRef CodecRef.record = plan →
      ∃ v, Decodes decoders p j.tokens v := by
  induction h with
  | null => exact fun p _ => ⟨_, .null⟩
  | @scalar kind j hj =>
      intro p hp
      obtain rfl := Plan.mapRef_eq_scalar hp
      obtain ⟨t, ht⟩ : ∃ t, j.tokens = [t] := by
        cases j with
        | array items | object entries => cases kind <;> cases hj
        | _ => exact ⟨_, rfl⟩
      obtain ⟨v, hv⟩ := (fitsScalar_iff ht).1 hj
      exact ⟨v, ht ▸ .scalar hv⟩
  | list _ ih =>
      intro p hp
      obtain ⟨item, rfl, hitem⟩ := Plan.mapRef_eq_list hp
      obtain ⟨vs, hvs⟩ := exists_decodesItems fun j hj => ih j hj item hitem
      exact ⟨_, .list hvs⟩
  | map _ ih =>
      intro p hp
      obtain ⟨value, rfl, hvalue⟩ := Plan.mapRef_eq_map hp
      obtain ⟨entries, hentries⟩ := exists_decodesEntries (fun q hq => ih q hq value hvalue) []
      exact ⟨_, .map hentries⟩
  | document j =>
      intro p hp
      obtain rfl := Plan.mapRef_eq_document hp
      have hspells := j.spells_inOrder
      by_cases hnull : j.inOrder = .null
      · rw [hnull] at hspells
        rw [Json.eq_null_of_spells hspells]
        exact ⟨_, .null⟩
      · exact ⟨_, .document hspells hnull⟩
  | @record _ _ entries hk _ ih =>
      intro p hp
      obtain ⟨ref, rfl, rfl⟩ := Plan.mapRef_eq_record hp
      obtain ⟨d, hdec, _, hfields⟩ := hg.decoder_of_kind hk
      have hentries : ∀ q ∈ entries, ∀ f, d.fieldFor? q.1 = some f →
          ∃ v, Decodes decoders f.plan q.2.tokens v := by
        intro q hq f hf
        rw [Decoder.fieldFor?_eq hfields] at hf
        obtain ⟨g, hfirst, rfl⟩ := Option.map_eq_some_iff.1 hf
        exact ih q hq g hfirst _ g.mapRef_decodeField
      obtain ⟨r, hr⟩ := exists_decodesFields hentries d.initial
      exact ⟨_, .record hdec hr⟩

/-! ### Documents that are decoded fit -/

mutual

/-- What is decoded from the front of a document's tokens is all of them, and the document fits. -/
theorem Decodes.fits (hg : Generates kinds decoders encoders methods) {plan : Plan CodecRef}
    {ts : List Token} {v : Value} : Decodes decoders plan ts v →
      ∀ (j : Json) (rest rest' : List Token), ts ++ rest = j.tokens ++ rest' →
        ts = j.tokens ∧ Fits kinds (plan.mapRef CodecRef.record) j
  | .null, j, _, _, h => by
      cases j with
      | null => exact ⟨rfl, .null⟩
      | _ => cases h
  | @Decodes.scalar _ kind t v hv, j, _, _, h => by
      have htokens : j.tokens = [t] := by
        cases j with
        | array items | object entries =>
            obtain ⟨rfl, _⟩ := List.cons.inj h
            cases kind <;> cases hv
        | _ =>
            obtain ⟨rfl, _⟩ := List.cons.inj h
            rfl
      exact ⟨htokens.symm, .scalar ((fitsScalar_iff htokens).2 ⟨v, hv⟩)⟩
  | .list hitems, j, _, _, h => by
      cases j with
      | array items =>
          obtain ⟨rfl, hfit⟩ := hitems.fits hg items _ _ (List.cons.inj h).2
          exact ⟨rfl, .list hfit⟩
      | _ => cases h
  | .map hentries, j, _, _, h => by
      cases j with
      | object entries =>
          obtain ⟨rfl, hfit⟩ := hentries.fits hg entries _ _ (List.cons.inj h).2
          exact ⟨rfl, .map hfit⟩
      | _ => cases h
  | .document hspells _, j, _, _, h => ⟨(hspells.eq_of_append j.spells_inOrder h).1, .document j⟩
  | .record hdec hfields, j, _, _, h => by
      cases j with
      | object entries =>
          obtain ⟨fields, hk, _, hd⟩ := hg.kind_of_decoder hdec
          obtain ⟨rfl, hfit⟩ := hfields.fits hg hd entries _ _ (List.cons.inj h).2
          exact ⟨rfl, .record hk hfit⟩
      | _ => cases h

theorem DecodesItems.fits (hg : Generates kinds decoders encoders methods) {item : Plan CodecRef}
    {ts : List Token} {vs : List Value} : DecodesItems decoders item ts vs →
      ∀ (items : List Json) (rest rest' : List Token),
        ts ++ rest = Json.itemTokens items ++ [.endArray] ++ rest' →
          ts = Json.itemTokens items ++ [.endArray] ∧
            ∀ j ∈ items, Fits kinds (item.mapRef CodecRef.record) j
  | .nil, items, _, _, h => by
      cases items with
      | nil => exact ⟨rfl, by simp⟩
      | cons j items =>
          -- no document begins where the array ends
          obtain ⟨t, us, htokens, hopens⟩ := j.opens_tokens
          rw [Json.itemTokens, htokens] at h
          obtain ⟨rfl, _⟩ := List.cons.inj h
          cases hopens
  | .cons hv hitems, items, _, _, h => by
      cases items with
      | nil =>
          obtain ⟨t, us, rfl, hopens, _⟩ := hv.opens
          obtain ⟨rfl, _⟩ := List.cons.inj h
          cases hopens
      | cons j items =>
          rw [Json.itemTokens_cons, List.append_assoc, List.append_assoc] at h
          obtain ⟨rfl, hj⟩ := hv.fits hg j _ _ h
          obtain ⟨rfl, hfit⟩ := hitems.fits hg items _ _ (List.append_cancel_left h)
          exact ⟨(Json.itemTokens_cons j items).symm, List.forall_mem_cons.2 ⟨hj, hfit⟩⟩

theorem DecodesEntries.fits (hg : Generates kinds decoders encoders methods) {value : Plan CodecRef}
    {held held' : List (String × Value)} {ts : List Token} :
    DecodesEntries decoders value held ts held' →
      ∀ (entries : List (String × Json)) (rest rest' : List Token),
        ts ++ rest = Json.entryTokens entries ++ [.endObject] ++ rest' →
          ts = Json.entryTokens entries ++ [.endObject] ∧
            ∀ p ∈ entries, Fits kinds (value.mapRef CodecRef.record) p.2
  | .nil, entries, _, _, h => by
      cases entries with
      | nil => exact ⟨rfl, by simp⟩
      | cons p entries => cases (List.cons.inj h).1
  | .cons hv hentries, entries, _, _, h => by
      cases entries with
      | nil => cases (List.cons.inj h).1
      | cons p entries =>
          rw [Json.entryTokens_cons] at h
          obtain ⟨rfl, htail⟩ := Token.entry_of_append h
          obtain ⟨rfl, hp⟩ := hv.fits hg p.2 _ _ htail
          obtain ⟨rfl, hfit⟩ := hentries.fits hg entries _ _ (List.append_cancel_left htail)
          exact ⟨(Json.entryTokens_cons p entries).symm, List.forall_mem_cons.2 ⟨hp, hfit⟩⟩

theorem DecodesFields.fits (hg : Generates kinds decoders encoders methods) {decoder : Decoder}
    {fields : List RecordField} {record record' : Record} {ts : List Token} :
    DecodesFields decoders decoder record ts record' →
      decoder.fields = fields.map RecordField.decodeField →
      ∀ (entries : List (String × Json)) (rest rest' : List Token),
        ts ++ rest = Json.entryTokens entries ++ [.endObject] ++ rest' →
          ts = Json.entryTokens entries ++ [.endObject] ∧
            ∀ p ∈ entries, ∀ f, fields.find? (·.wireKey = p.1) = some f → Fits kinds f.plan p.2
  | .nil, _, entries, _, _, h => by
      cases entries with
      | nil => exact ⟨rfl, by simp⟩
      | cons p entries => cases (List.cons.inj h).1
  | .field hf hv hfields, hd, entries, _, _, h => by
      cases entries with
      | nil => cases (List.cons.inj h).1
      | cons p entries =>
          rw [Json.entryTokens_cons] at h
          obtain ⟨rfl, htail⟩ := Token.entry_of_append h
          obtain ⟨rfl, hp⟩ := hv.fits hg p.2 _ _ htail
          obtain ⟨rfl, hfit⟩ := hfields.fits hg hd entries _ _ (List.append_cancel_left htail)
          refine ⟨(Json.entryTokens_cons p entries).symm, List.forall_mem_cons.2 ⟨?_, hfit⟩⟩
          intro f hfirst
          rw [Decoder.fieldFor?_eq hd, hfirst] at hf
          cases hf
          exact f.mapRef_decodeField ▸ hp
  | .skip hf hskips hfields, hd, entries, _, _, h => by
      cases entries with
      | nil => cases (List.cons.inj h).1
      | cons p entries =>
          rw [Json.entryTokens_cons] at h
          obtain ⟨rfl, htail⟩ := Token.entry_of_append h
          obtain rfl := Token.Skips.eq_of_append hskips p.2.skips_tokens htail
          obtain ⟨rfl, hfit⟩ := hfields.fits hg hd entries _ _ (List.append_cancel_left htail)
          refine ⟨(Json.entryTokens_cons p entries).symm, List.forall_mem_cons.2 ⟨?_, hfit⟩⟩
          intro f hfirst
          rw [Decoder.fieldFor?_eq hd, hfirst] at hf
          cases hf

end

/-! ### Records -/

/-- A record is decoded from the front of a stream that begins with a document if and only if the
document is an object that fits, and then the document is what is taken. -/
theorem decodeRecord_tokens_iff (hg : Generates kinds decoders encoders methods)
    {name : QualifiedName} {j : Json} {rest rest' : List Token} :
    (∃ r, decodeRecord decoders name (j.tokens ++ rest) = .ok (r, rest')) ↔
      rest' = rest ∧ FitsRecord kinds name j := by
  constructor
  · rintro ⟨r, hr⟩
    obtain ⟨taken, htaken, decoder, us, hdec, rfl, hfields⟩ := decodeRecord_eq_ok_iff.1 hr
    have hvalue : Decodes decoders (.record ⟨name, decoder.name⟩) _ _ := .record hdec hfields
    obtain ⟨htokens, hfits⟩ := hvalue.fits hg j _ _ htaken.symm
    rw [htokens] at htaken
    refine ⟨(List.append_cancel_left htaken).symm, ?_, hfits⟩
    cases j with
    | object entries => exact ⟨entries, rfl⟩
    | _ => cases htokens
  · rintro ⟨rfl, ⟨entries, rfl⟩, hfits⟩
    obtain ⟨v, hv⟩ := hfits.decodes hg (.record ⟨name, name⟩) rfl
    cases hv with
    | record hdec hfields =>
        exact ⟨_, decodeRecord_eq_ok_iff.2 ⟨_, rfl, _, _, hdec, rfl, hfields⟩⟩

end

/-! ### Catalogs -/

/-- A catalog decodes the documents that fit a record, and no others. -/
structure Catalog.DecodesFitting (catalog : Catalog) : Prop where
  /-- A document is decoded whole, whatever follows it. -/
  decodes : ∀ e ∈ catalog.entries, ∀ (j : Json) (rest rest' : List Token),
    (∃ r, decodeRecord catalog.decoder? e.name (j.tokens ++ rest) = .ok (r, rest')) ↔
      rest' = rest ∧ FitsRecord catalog.kinds e.name j
  decodesJson : ∀ e ∈ catalog.entries, ∀ spelling, catalog.resolve? spelling = some e.name →
    ∀ j, (∃ r, catalog.decodeJson spelling j = .ok r) ↔ FitsRecord catalog.kinds e.name j
  /-- Every record can be asked for. -/
  resolves : ∀ e ∈ catalog.entries, catalog.resolve? e.name.text = some e.name

theorem Catalog.exists_decodeJson_iff {catalog : Catalog} {spelling : String}
    {name : QualifiedName} (h : catalog.resolve? spelling = some name) {j : Json} :
    (∃ r, catalog.decodeJson spelling j = .ok r) ↔
      ∃ r rest, decodeRecord catalog.decoder? name j.tokens = .ok (r, rest) := by
  have hdecode : catalog.decode spelling j.tokens =
      decodeRecord catalog.decoder? name j.tokens := by
    simp only [decode, resolve, h]
  unfold decodeJson
  rw [hdecode]
  cases decodeRecord catalog.decoder? name j.tokens with
  | ok p =>
      obtain ⟨r, rest⟩ := p
      simp
  | error stop => simp

/-- A compiled catalog decodes the documents that fit. -/
theorem Forest.compile_decodesFitting (settings : Settings) (forest : Forest) :
    ∀ catalog, forest.compile settings = .ok catalog → catalog.DecodesFitting := by
  intro catalog h
  have hg := generates_of_compile h
  constructor
  case decodes => exact fun e _ j rest rest' => decodeRecord_tokens_iff hg
  case decodesJson =>
    intro e _ spelling hspelling j
    rw [Catalog.exists_decodeJson_iff hspelling, ← List.append_nil j.tokens]
    constructor
    · rintro ⟨r, rest, hr⟩
      exact ((decodeRecord_tokens_iff hg).1 ⟨r, hr⟩).2
    · intro hfits
      obtain ⟨r, hr⟩ := (decodeRecord_tokens_iff hg).2 ⟨rfl, hfits⟩
      exact ⟨r, _, hr⟩
  case resolves => exact fun e he => Catalog.resolve?_text (fun _ => scope_of_compile h) he

/-- A parcel of some weight, sealed and without a sender. -/
def Json.parcel (weight : Numeral) : Json :=
  .object [("seal", .array [.object []]), ("w", .number weight), ("sender", .null),
    ("tags", .object [("color", .array [.string "red", .null])]), ("notes", .bool true)]

/-- The weight is an integer, so it is written without a fraction. -/
theorem Forest.parcel_weighs : ∃ catalog, parcel.compile {} = .ok catalog ∧
    decide ((catalog.decodeJson "Parcel" (.parcel ⟨"12", by decide +kernel⟩)).isOk = true ∧
      (catalog.decodeJson "Parcel" (.parcel ⟨"12.5", by decide +kernel⟩)).isOk = false) = true :=
  exists_catalog (by decide +kernel)

theorem Forest.parcel_decodesFitting : ∃ catalog, parcel.compile {} = .ok catalog ∧
    (catalog.decodeJson "Parcel" (.parcel ⟨"12", by decide +kernel⟩)).isOk = true ∧
    (catalog.decodeJson "Parcel" (.parcel ⟨"12.5", by decide +kernel⟩)).isOk = false ∧
    catalog.DecodesFitting := by
  obtain ⟨catalog, hc, hweighs⟩ := parcel_weighs
  obtain ⟨hwhole, hbroken⟩ := of_decide_eq_true hweighs
  exact ⟨catalog, hc, hwhole, hbroken, compile_decodesFitting {} parcel catalog hc⟩

end RecordCodec
