import RecordCodec.Proofs.Codec.Meaning

/-!
Two readers of one stream. The decoder follows a plan and sets fields in the order of the stream;
the reader of documents knows no plan, puts keys in order, keeps the last of several values under
one key and normalises literals. Where both take a value off one stream they take the same tokens,
and the value decoded is what the document means. So decoding the document gives that value too.
-/

namespace RecordCodec

open Token (Skips Spells SpellsItems SpellsEntries entry_of_append readJson)

/-! ### Values -/

/-- A scalar is the same whether a literal is in normal form or not. -/
theorem readScalar_normal {kind : ScalarKind} {literal : String} {n : Numeral} {v : Value}
    (hn : Numeral.ofText? literal = some n)
    (h : readScalar kind (.number literal) = .ok (some v)) :
    readScalar kind (.number n.text) = .ok (some v) := by
  have hint := Numeral.readInt?_eq_of_ofText? hn
  have hdecimal := Numeral.read_eq_of_ofText? hn
  cases kind with
  | string | boolean => cases h
  | int => simpa only [readScalar, Text.readInt32?, hint] using h
  | long => simpa only [readScalar, Text.readInt64?, hint] using h
  | decimal =>
      obtain ⟨d, hd⟩ := exists_decimal_iff.1 ⟨v, h⟩
      simp only [readScalar, readScalar.decimal, ← hdecimal, hd] at h ⊢
      exact h

section

variable {kinds : Kinds} {decoders : QualifiedName → Option Decoder}

mutual

/-- A value is decoded from the tokens that spell a document, and the document means it. -/
theorem Decodes.means (hd : DecodesKinds kinds decoders) {plan : Plan CodecRef}
    {ts : List Token} {v : Value} : Decodes decoders plan ts v →
      ∀ {us rest rest' : List Token} {j : Json}, Spells us j → ts ++ rest = us ++ rest' →
        ts = us ∧ Means kinds (plan.mapRef CodecRef.record) j v
  | .null, _, _, _, _, hs, heq => by
      cases hs with
      | null => exact ⟨rfl, .null⟩
      | _ => cases heq
  | .scalar hv, _, _, _, _, hs, heq => by
      cases hs with
      | null =>
          obtain ⟨rfl, _⟩ := List.cons.inj heq
          exact absurd hv readScalar_null
      | boolean b =>
          obtain ⟨rfl, _⟩ := List.cons.inj heq
          exact ⟨rfl, .scalar hv⟩
      | string s =>
          obtain ⟨rfl, _⟩ := List.cons.inj heq
          exact ⟨rfl, .scalar hv⟩
      | number hn =>
          obtain ⟨rfl, _⟩ := List.cons.inj heq
          exact ⟨rfl, .scalar (readScalar_normal hn hv)⟩
      | array _ =>
          obtain ⟨rfl, _⟩ := List.cons.inj heq
          rw [readScalar_opening _ (.inl rfl)] at hv
          cases hv
      | object _ =>
          obtain ⟨rfl, _⟩ := List.cons.inj heq
          rw [readScalar_opening _ (.inr rfl)] at hv
          cases hv
  | .list hitems, _, _, _, _, hs, heq => by
      cases hs with
      | array hjs =>
          obtain ⟨rfl, hlength, hvalues⟩ := hitems.means hd hjs (List.cons.inj heq).2
          exact ⟨rfl, .list hlength hvalues⟩
      | _ => cases heq
  | .map hentries, _, _, _, _, hs, heq => by
      cases hs with
      | object hjs =>
          obtain ⟨rfl, h⟩ := hentries.means hd hjs (List.cons.inj heq).2 meansEntries_nil
          exact ⟨rfl, .map h.sorted h.absent h.present⟩
      | _ => cases heq
  | .document hspells hne, _, _, _, _, hs, heq => by
      obtain ⟨rfl, rfl⟩ := hspells.eq_of_append hs heq
      exact ⟨rfl, .document hne⟩
  | .record hdec hfields, _, _, _, _, hs, heq => by
      obtain ⟨fields, hk, hrecord, hd'⟩ := hd.kind hdec
      obtain ⟨hname, hinitial⟩ := shaped_initial hd hdec
      obtain ⟨hsame, _⟩ := hfields.shaped hd (hname ▸ hk) hd' hinitial
      cases hs with
      | object hjs =>
          obtain ⟨rfl, h⟩ := hfields.means hd hd' (hd.names hk) hjs (List.cons.inj heq).2
            (meansFields_initial (hd.names hk) hd')
          rw [Record.toValue, hsame, hname]
          exact ⟨rfl, .record hk h.complete h.absent h.present⟩
      | _ => cases heq
termination_by structural h => h

theorem DecodesItems.means (hd : DecodesKinds kinds decoders) {item : Plan CodecRef}
    {ts : List Token} {vs : List Value} : DecodesItems decoders item ts vs →
      ∀ {us rest rest' : List Token} {js : List Json}, SpellsItems us js →
        ts ++ rest = us ++ rest' → ts = us ∧ js.length = vs.length ∧
          ∀ (i : Nat) (j : Json) (v : Value), js[i]? = some j → vs[i]? = some v →
            Means kinds (item.mapRef CodecRef.record) j v
  | .nil, _, _, _, _, hs, heq => by
      cases hs with
      | nil => exact ⟨rfl, rfl, by simp⟩
      | cons hj _ =>
          -- no document begins where the array ends
          obtain ⟨t, us, rfl, hopens⟩ := hj.opens
          obtain ⟨rfl, _⟩ := List.cons.inj heq
          cases hopens
  | .cons hv hitems, _, _, _, _, hs, heq => by
      cases hs with
      | nil =>
          obtain ⟨t, us, rfl, hopens, _⟩ := hv.opens
          obtain ⟨rfl, _⟩ := List.cons.inj heq
          cases hopens
      | cons hj hjs =>
          rw [List.append_assoc, List.append_assoc] at heq
          obtain ⟨rfl, hfirst⟩ := hv.means hd hj heq
          obtain ⟨rfl, hlength, hvalues⟩ := hitems.means hd hjs (List.append_cancel_left heq)
          refine ⟨rfl, congrArg Nat.succ hlength, fun i j v hj hv => ?_⟩
          cases i with
          | zero =>
              cases hj
              cases hv
              exact hfirst
          | succ i => exact hvalues i j v hj hv
termination_by structural h => h

theorem DecodesEntries.means (hd : DecodesKinds kinds decoders) {value : Plan CodecRef}
    {held held' : List (String × Value)} {ts : List Token} :
    DecodesEntries decoders value held ts held' →
      ∀ {us rest rest' : List Token} {hj hj' : List (String × Json)}, SpellsEntries hj us hj' →
        ts ++ rest = us ++ rest' → MeansEntries kinds (value.mapRef CodecRef.record) hj held →
          ts = us ∧ MeansEntries kinds (value.mapRef CodecRef.record) hj' held'
  | .nil, _, _, _, _, _, hs, heq, h => by
      cases hs with
      | nil => exact ⟨rfl, h⟩
      | cons => cases heq
  | .cons hv hentries, _, _, _, _, _, hs, heq, h => by
      cases hs with
      | nil => cases heq
      | cons hj hjs =>
          obtain ⟨rfl, htail⟩ := entry_of_append heq
          obtain ⟨rfl, hfirst⟩ := hv.means hd hj htail
          obtain ⟨rfl, h'⟩ := hentries.means hd hjs (List.append_cancel_left htail) (h.put hfirst)
          exact ⟨rfl, h'⟩
termination_by structural h => h

theorem DecodesFields.means (hd : DecodesKinds kinds decoders) {decoder : Decoder}
    {fields : List RecordField} {record record' : Record} {ts : List Token} :
    DecodesFields decoders decoder record ts record' →
      decoder.fields = fields.map RecordField.decodeField → (fields.map (·.name)).Nodup →
      ∀ {us rest rest' : List Token} {hj hj' : List (String × Json)}, SpellsEntries hj us hj' →
        ts ++ rest = us ++ rest' → MeansFields kinds fields hj record.fields →
          ts = us ∧ MeansFields kinds fields hj' record'.fields
  | .nil, _, _, _, _, _, _, _, hs, heq, h => by
      cases hs with
      | nil => exact ⟨rfl, h⟩
      | cons => cases heq
  | .field hf hv hfields, hdec, hn, _, _, _, _, _, hs, heq, h => by
      cases hs with
      | nil => cases heq
      | cons hj hjs =>
          obtain ⟨rfl, htail⟩ := entry_of_append heq
          obtain ⟨rfl, hvalue⟩ := hv.means hd hj htail
          have hrest := hfields.means hd hdec hn hjs (List.append_cancel_left htail)
          rw [Decoder.fieldFor?_eq hdec] at hf
          obtain ⟨g, hfirst, rfl⟩ := Option.map_eq_some_iff.1 hf
          rw [RecordField.mapRef_decodeField] at hvalue
          obtain ⟨rfl, h'⟩ := hrest (h.set hn hfirst hvalue)
          exact ⟨rfl, h'⟩
  | .skip hf hskips hfields, hdec, hn, _, _, _, _, _, hs, heq, h => by
      cases hs with
      | nil => cases heq
      | cons hj hjs =>
          obtain ⟨rfl, htail⟩ := entry_of_append heq
          obtain rfl := Skips.eq_of_append hskips hj.skips_and_passedOver.1 htail
          rw [Decoder.fieldFor?_eq hdec] at hf
          obtain ⟨rfl, h'⟩ := hfields.means hd hdec hn hjs (List.append_cancel_left htail)
            (h.skip (Option.map_eq_none_iff.1 hf))
          exact ⟨rfl, h'⟩
termination_by structural h => h

end

/-! ### Records -/

/-- A record is decoded from the tokens that spell a document, and the document means it. -/
theorem DecodesRecord.means (hd : DecodesKinds kinds decoders) {name : QualifiedName}
    {ts us rest rest' : List Token} {r : Record} {j : Json}
    (h : DecodesRecord decoders name ts r) (hs : Spells us j) (heq : ts ++ rest = us ++ rest') :
    ts = us ∧ Means kinds (.record name) j r.toValue := by
  obtain ⟨decoder, taken, hdec, rfl, hfields⟩ := h
  have hvalue : Decodes decoders (.record ⟨name, decoder.name⟩) _ _ := .record hdec hfields
  exact hvalue.means hd hs heq

/-- A document in key order is decoded as the record that it means. -/
theorem decodeRecord_of_means {encoders : QualifiedName → Option Encoder} {methods : MethodTable}
    (hg : Generates kinds decoders encoders methods) (hd : DecodesKinds kinds decoders)
    {name : QualifiedName} {j : Json} {r : Record} (hj : j.Ordered)
    (h : Means kinds (.record name) j r.toValue) :
    decodeRecord decoders name j.tokens = .ok (r, []) := by
  have hobject : ∃ entries, j = .object entries := by
    cases h with
    | record => exact ⟨_, rfl⟩
  obtain ⟨r', hr'⟩ := (decodeRecord_tokens_iff hg).2 ⟨rfl, hobject, h.fits hj⟩
  obtain ⟨taken, htaken, hdecodes⟩ := decodeRecord_eq_ok_iff.1 hr'
  obtain ⟨_, hmeans⟩ := hdecodes.means hd (Json.spells_tokens hj) htaken.symm
  have hsame : r.toValue = r'.toValue := h.unique hmeans
  obtain rfl : r = r' := by
    obtain ⟨name, fields⟩ := r
    obtain ⟨name', fields'⟩ := r'
    cases hsame
    rfl
  rw [← List.append_nil j.tokens]
  exact hr'

end

/-! ### Catalogs -/

/-- A compiled catalog decodes a document in key order exactly as the record that it means. -/
theorem Forest.decodeJson_iff_means {settings : Settings} {forest : Forest} {catalog : Catalog}
    (hc : forest.compile settings = .ok catalog) {spelling : String} {name : QualifiedName}
    (hs : catalog.resolve? spelling = some name) {j : Json} (hj : j.Ordered) {r : Record} :
    catalog.decodeJson spelling j = .ok r ↔ Means catalog.kinds (.record name) j r.toValue := by
  have hdecode : catalog.decode spelling j.tokens =
      decodeRecord catalog.decoder? name j.tokens := by
    simp only [Catalog.decode, Catalog.resolve, hs]
  unfold Catalog.decodeJson
  rw [hdecode]
  constructor
  · intro h
    cases hr : decodeRecord catalog.decoder? name j.tokens with
    | error stop =>
        rw [hr] at h
        cases h
    | ok p =>
        obtain ⟨r', rest⟩ := p
        rw [hr] at h
        obtain rfl := Except.ok.inj h
        obtain ⟨taken, htaken, hdecodes⟩ := decodeRecord_eq_ok_iff.1 hr
        rw [← List.append_nil j.tokens] at htaken
        exact (hdecodes.means (decodesKinds_of_compile hc) (Json.spells_tokens hj)
          htaken.symm).2
  · intro h
    rw [decodeRecord_of_means (generates_of_compile hc) (decodesKinds_of_compile hc) hj h]

/-- A catalog decodes streams as it decodes the documents that are read from them. -/
structure Catalog.DecodesAsRead (catalog : Catalog) : Prop where
  agrees : ∀ spelling path ts j left r rest, readJson path ts = .ok (j, left) →
    catalog.decode spelling ts = .ok (r, rest) →
      rest = left.1 ∧ catalog.decodeJson spelling j = .ok r
  /-- What does not show in the document, such as the order of keys, does not show in the record. -/
  same : ∀ spelling path path' ts ts' j left left' r r' rest rest',
    readJson path ts = .ok (j, left) → readJson path' ts' = .ok (j, left') →
    catalog.decode spelling ts = .ok (r, rest) → catalog.decode spelling ts' = .ok (r', rest') →
      r = r'

/-- Whatever a compiled catalog decodes from a stream off which a document can be read, it takes the
tokens of the document and decodes the document to the same record. -/
theorem Forest.compile_decodesAsRead (settings : Settings) (forest : Forest) :
    ∀ catalog, forest.compile settings = .ok catalog → catalog.DecodesAsRead := by
  intro catalog h
  have hagrees : ∀ spelling path ts j left r rest, readJson path ts = .ok (j, left) →
      catalog.decode spelling ts = .ok (r, rest) →
        rest = left.1 ∧ catalog.decodeJson spelling j = .ok r := by
    intro spelling path ts j left r rest hread hdecode
    obtain ⟨us, htaken, hs⟩ := Token.spells_of_readJson (gives_of_eq hread)
    obtain ⟨e, _, hspelling, hr⟩ := Catalog.exists_entry_of_decode hdecode
    obtain ⟨taken, htaken', hdecodes⟩ := decodeRecord_eq_ok_iff.1 hr
    have heq : taken ++ rest = us ++ left.1 := htaken'.symm.trans htaken
    obtain ⟨rfl, hmeans⟩ := hdecodes.means (decodesKinds_of_compile h) hs heq
    exact ⟨List.append_cancel_left heq, (decodeJson_iff_means h hspelling hs.ordered).2 hmeans⟩
  constructor
  case agrees => exact hagrees
  case same =>
    intro spelling path path' ts ts' j left left' r r' rest rest' hread hread' hr hr'
    obtain ⟨_, hjson⟩ := hagrees _ _ _ _ _ _ _ hread hr
    obtain ⟨_, hjson'⟩ := hagrees _ _ _ _ _ _ _ hread' hr'
    exact Except.ok.inj (hjson.symm.trans hjson')

/-- A parcel weighed twice, with notes on a number that is not in normal form and with a parcel
behind it. -/
def Token.weighedTwice : List Token :=
  [.startObject, .fieldName "w", .number "5", .fieldName "seal", .startArray, .endArray,
    .fieldName "notes", .number "1E5", .fieldName "w", .number "7", .endObject, .startObject]

/-- The document that is read from it. -/
def Json.weighedOnce : Json :=
  .object [("notes", .number ⟨"1e+5", by decide +kernel⟩), ("seal", .array []),
    ("w", .number ⟨"7", by decide +kernel⟩)]

theorem Token.reads_weighedTwice :
    Gives (readJson .empty weighedTwice) .weighedOnce [.startObject] := by
  unfold Gives
  decide +kernel

theorem Forest.parcel_weighsTwice : ∃ catalog, parcel.compile {} = .ok catalog ∧
    (catalog.decode "Parcel" Token.weighedTwice).isOk = true :=
  exists_catalog (by decide +kernel)

theorem Forest.parcel_decodesAsRead : ∃ catalog r, parcel.compile {} = .ok catalog ∧
    catalog.decode "Parcel" Token.weighedTwice = .ok (r, [.startObject]) ∧
    catalog.decodeJson "Parcel" .weighedOnce = .ok r := by
  obtain ⟨catalog, hc, hok⟩ := parcel_weighsTwice
  obtain ⟨hlt, hread⟩ := gives_iff.1 Token.reads_weighedTwice
  cases hr : catalog.decode "Parcel" Token.weighedTwice with
  | error stop =>
      rw [hr] at hok
      cases hok
  | ok p =>
      obtain ⟨r, rest⟩ := p
      obtain ⟨rfl, hjson⟩ :=
        (compile_decodesAsRead {} parcel catalog hc).agrees _ _ _ _ _ _ _ hread hr
      exact ⟨catalog, r, hc, hr, hjson⟩

end RecordCodec
