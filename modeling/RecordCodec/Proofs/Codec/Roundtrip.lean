import RecordCodec.Proofs.Codec.Reading
import RecordCodec.Proofs.Codec.Writing
import RecordCodec.Proofs.Decimal.Text
import RecordCodec.Proofs.Json.Spelling
import RecordCodec.Proofs.Record.Equality
import RecordCodec.Proofs.Record.Fields
import RecordCodec.Proofs.Record.Order
import RecordCodec.Proofs.Text.Digits

/-!
Decoding undoes encoding. A conforming value is written whatever the path, and its tokens stand for
the value itself; when an integer stands where a wider number is declared they stand for an equal
value of the declared kind. The proof follows the shape of the value. Records are where it needs
that wire keys are different: then each key that is written finds the field it was written for.
-/

namespace RecordCodec

/-! ### Conforming values -/

/-- A scalar of exactly the declared kind. -/
inductive ExactScalar : ScalarKind → Value → Prop
  | string (s : String) : ExactScalar .string (.string s)
  | int (i : Int32) : ExactScalar .int (.int i)
  | long (i : Int64) : ExactScalar .long (.long i)
  | decimal {d : Decimal} : d.OfAscii → ExactScalar .decimal (.decimal d)
  | boolean (b : Bool) : ExactScalar .boolean (.boolean b)

/-- A scalar of the declared kind, or an integer in the place of a wider number. -/
inductive WidenedScalar : ScalarKind → Value → Prop
  | exact {kind : ScalarKind} {v : Value} : ExactScalar kind v → WidenedScalar kind v
  | longOfInt (i : Int32) : WidenedScalar .long (.int i)
  | decimalOfInt (i : Int32) : WidenedScalar .decimal (.int i)
  | decimalOfLong (i : Int64) : WidenedScalar .decimal (.long i)

/-- A document other than null. -/
def FreeDocument (v : Value) : Prop :=
  ∃ json : Json, v = .document json ∧ json ≠ .null ∧ json.Ordered

/-- Values of exactly the declared type. -/
def exactLeaves : Leaves := ⟨ExactScalar, FreeDocument, Entries.Sorted, Complete⟩

/-- Values of the declared type, with integers in the places of wider numbers. -/
def widenedLeaves : Leaves := ⟨WidenedScalar, FreeDocument, Entries.Sorted, Complete⟩

theorem exactLeaves_within : exactLeaves.Within widenedLeaves := ⟨.exact, id, id, id⟩

section

variable (kinds : Kinds) (decoders : QualifiedName → Option Decoder)
  (encoders : QualifiedName → Option Encoder) (methods : MethodTable)

/-- The values are equal, whichever comes first. -/
def Same (plan : Plan QualifiedName) (v w : Value) : Prop :=
  equalValue methods v plan w = .ok true ∧ equalValue methods w plan v = .ok true

/-- The value is written as the tokens and comes back as the other value. -/
structure Returns (plan : Plan QualifiedName) (v : Value) (ts : List Token) (w : Value) :
    Prop where
  writes : ∀ p : Plan CodecRef, p.mapRef CodecRef.record = plan →
    ∀ path, encodeValue encoders v p path = ⟨ts, none⟩
  decodes : ∀ p : Plan CodecRef, p.mapRef CodecRef.record = plan → Decodes decoders p ts w
  same : Same methods plan v w
  /-- What is of exactly the declared type comes back as it was. -/
  exact : Shaped kinds exactLeaves plan v → w = v

end

variable {kinds : Kinds} {decoders : QualifiedName → Option Decoder}
  {encoders : QualifiedName → Option Encoder} {methods : MethodTable}

theorem Same.symm {plan : Plan QualifiedName} {v w : Value} (h : Same methods plan v w) :
    Same methods plan w v := And.symm h

theorem returns_null (plan : Plan QualifiedName) :
    Returns kinds decoders encoders methods plan .null [.null] .null where
  writes _ _ _ := rfl
  decodes _ _ := .null
  same := ⟨rfl, rfl⟩
  exact _ := rfl

/-! ### Scalars -/

theorem same_scalar {kind : ScalarKind} {v w : Value} (hv : v ≠ .null) (hw : w ≠ .null)
    (h : compareScalars v w = .ok .eq) (h' : compareScalars w v = .ok .eq) :
    Same methods (.scalar kind) v w := by
  constructor
  · rw [equalValue_scalar hv hw, h]
    rfl
  · rw [equalValue_scalar hw hv, h']
    rfl

/-- Two numbers of different kinds are the same when they are numerically. -/
theorem same_number {kind : ScalarKind} {v w : Value} {d : Decimal} (hv : v.asDecimal? = some d)
    (hw : w.asDecimal? = some d) : Same methods (.scalar kind) v w := by
  have hself : d.compare d = .eq := Std.ReflCmp.compare_self
  apply same_scalar
  · rintro rfl
    cases hv
  · rintro rfl
    cases hw
  · rw [compareScalars_numbers hv hw, hself]
  · rw [compareScalars_numbers hw hv, hself]

theorem returns_token {kind : ScalarKind} {v w : Value} {t : Token}
    (hw : ∀ path, encodeValue encoders v (.scalar kind) path = ⟨[t], none⟩)
    (hr : readScalar kind t = .ok (some w)) (hs : Same methods (.scalar kind) v w)
    (he : ExactScalar kind v → w = v) :
    Returns kinds decoders encoders methods (.scalar kind) v [t] w where
  writes p hp path := by
    obtain rfl := Plan.mapRef_eq_scalar hp
    exact hw path
  decodes p hp := by
    obtain rfl := Plan.mapRef_eq_scalar hp
    exact .scalar hr
  same := hs
  exact h := by
    cases h with
    | null =>
        obtain ⟨hopens, hnull⟩ := readScalar_opens hr
        exact absurd (List.cons.inj (congrArg Written.tokens (hw .empty))).1.symm hnull
    | scalar h => exact he h

theorem returns_scalar {kind : ScalarKind} {v : Value} (h : WidenedScalar kind v) :
    ∃ ts w, Returns kinds decoders encoders methods (.scalar kind) v ts w := by
  cases h with
  | exact h =>
      cases h with
      | string s =>
          refine ⟨_, _, returns_token (fun _ => rfl) rfl ?_ fun _ => rfl⟩
          have hself : compareScalars (.string s) (.string s) = .ok .eq :=
            congrArg Except.ok Std.ReflCmp.compare_self
          exact same_scalar nofun nofun hself hself
      | boolean b =>
          refine ⟨_, _, returns_token (fun _ => rfl) rfl ?_ fun _ => rfl⟩
          have hself : compareScalars (.boolean b) (.boolean b) = .ok .eq :=
            congrArg Except.ok Std.ReflCmp.compare_self
          exact same_scalar nofun nofun hself hself
      | int i =>
          refine ⟨_, .int i, returns_token (fun _ => rfl) ?_ (same_number rfl rfl) fun _ => rfl⟩
          simp only [readScalar, Text.readInt32?_intText, Option.map_some]
      | long i =>
          refine ⟨_, .long i, returns_token (fun _ => rfl) ?_ (same_number rfl rfl) fun _ => rfl⟩
          simp only [readScalar, Text.readInt64?_intText, Option.map_some]
      | @decimal d hd =>
          have hwrites : ∀ path, encodeValue encoders (.decimal d) (.scalar .decimal) path =
              ⟨[.number d.text], none⟩ := by
            intro path
            show (if d.isWritable then _ else _) = _
            rw [if_pos (Decimal.isWritable_of_plain hd.plain)]
          refine ⟨_, .decimal d, returns_token hwrites ?_ (same_number rfl rfl) fun _ => rfl⟩
          simp only [readScalar, readScalar.decimal, Decimal.read_text hd.plain]
  | longOfInt i =>
      refine ⟨_, .long i.toInt64, returns_token (fun _ => rfl) ?_ ?_ nofun⟩
      · simp only [readScalar, Text.readInt64?_intText_of_int32, Option.map_some]
      · refine same_number rfl ?_
        rw [Value.asDecimal?, Int32.toInt_toInt64]
  | decimalOfInt i =>
      refine ⟨_, .decimal (.ofInt i.toInt), returns_token (fun _ => rfl) ?_ (same_number rfl rfl)
        nofun⟩
      simp only [readScalar, readScalar.decimal, Decimal.read_intText]
  | decimalOfLong i =>
      refine ⟨_, .decimal (.ofInt i.toInt), returns_token (fun _ => rfl) ?_ (same_number rfl rfl)
        nofun⟩
      simp only [readScalar, readScalar.decimal, Decimal.read_intText]

/-! ### Documents -/

theorem returns_document {v : Value} (h : FreeDocument v) :
    ∃ ts w, Returns kinds decoders encoders methods .document v ts w := by
  obtain ⟨json, rfl, hne, hordered⟩ := h
  have hself : (Value.document json).compareRendered (.document json) = .ok .eq := by
    rw [Value.compareRendered_of_writable rfl rfl]
    simp
  refine ⟨json.tokens, .document json, ?_, ?_, ?_, fun _ => rfl⟩
  · intro p hp path
    obtain rfl := Plan.mapRef_eq_document hp
    rfl
  · intro p hp
    obtain rfl := Plan.mapRef_eq_document hp
    exact .document (Json.spells_tokens hordered) hne
  · have hequal : equalValue methods (.document json) .document (.document json) = .ok true := by
      have hnull : Value.document json ≠ .null := nofun
      rw [equalValue_document hnull hnull, hself]
      rfl
    exact ⟨hequal, hequal⟩

/-! ### Lists -/

theorem writes_items {item : Plan QualifiedName} {items : List Value}
    (h : ∀ v ∈ items, ∃ ts w, Returns kinds decoders encoders methods item v ts w) :
    ∃ ts ws,
      (∀ p : Plan CodecRef, p.mapRef CodecRef.record = item → ∀ path i,
        writeItems p path i (itemWriters encoders items) = ⟨ts, none⟩) ∧
      (∀ p : Plan CodecRef, p.mapRef CodecRef.record = item →
        DecodesItems decoders p (ts ++ [.endArray]) ws) ∧
      List.Forall₂ (Same methods item) items ws ∧
      ((∀ v ∈ items, Shaped kinds exactLeaves item v) → ws = items) := by
  induction items with
  | nil => exact ⟨[], [], fun _ _ _ _ => rfl, fun _ _ => .nil, .nil, fun _ => rfl⟩
  | cons v items ih =>
      obtain ⟨⟨ts, w, hv⟩, hitems⟩ := List.forall_mem_cons.1 h
      obtain ⟨us, ws, hwrites, hdecodes, hsame, hexact⟩ := ih hitems
      refine ⟨ts ++ us, w :: ws, ?_, ?_, .cons hv.same hsame, ?_⟩
      · intro p hp path i
        rw [itemWriters, writeItems, hv.writes p hp, Written.andThen_done, hwrites p hp]
      · intro p hp
        rw [List.append_assoc]
        exact .cons (hv.decodes p hp) (hdecodes p hp)
      · intro hshaped
        obtain ⟨hfirst, hrest⟩ := List.forall_mem_cons.1 hshaped
        rw [hv.exact hfirst, hexact hrest]

theorem returns_list {item : Plan QualifiedName} {items : List Value}
    (h : ∀ v ∈ items, ∃ ts w, Returns kinds decoders encoders methods item v ts w) :
    ∃ ts w, Returns kinds decoders encoders methods (.list item) (.list items) ts w := by
  obtain ⟨ts, ws, hwrites, hdecodes, hsame, hexact⟩ := writes_items h
  refine ⟨.startArray :: (ts ++ [.endArray]), .list ws, ?_, ?_, ?_, ?_⟩
  · intro p hp path
    obtain ⟨p, rfl, hpart⟩ := Plan.mapRef_eq_list hp
    rw [encodeValue, hwrites p hpart, between_done]
  · intro p hp
    obtain ⟨p, rfl, hpart⟩ := Plan.mapRef_eq_list hp
    exact .list (hdecodes p hpart)
  · constructor
    · exact equalValue_list_iff.2 (hsame.imp fun _ _ h => h.1)
    · exact equalValue_list_iff.2 (hsame.flip.imp fun _ _ h => h.2)
  · intro hshaped
    cases hshaped with
    | list hshaped => rw [hexact hshaped]

/-! ### Maps -/

/-- Entries with the same keys and the same values under them. -/
def SameEntries (methods : MethodTable) (value : Plan QualifiedName)
    (xs ys : List (String × Value)) : Prop :=
  List.Forall₂ (fun p q => p.1 = q.1 ∧ Same methods value p.2 q.2) xs ys

theorem SameEntries.symm {value : Plan QualifiedName} {xs ys : List (String × Value)}
    (h : SameEntries methods value xs ys) : SameEntries methods value ys xs :=
  h.flip.imp fun _ _ h => ⟨h.1.symm, h.2.symm⟩

theorem SameEntries.keys_eq {value : Plan QualifiedName} {xs ys : List (String × Value)}
    (h : SameEntries methods value xs ys) : Entries.keys xs = Entries.keys ys :=
  Entries.keys_eq_iff_forall₂.2 (h.imp fun _ _ => And.left)

theorem SameEntries.equalValue {value : Plan QualifiedName} {xs ys : List (String × Value)}
    (h : SameEntries methods value xs ys) (hx : Entries.Sorted xs) (hy : Entries.Sorted ys) :
    equalValue methods (.map xs) (.map value) (.map ys) = .ok true :=
  (equalValue_map_iff_forall₂ hx hy).2 (h.imp fun _ _ hp => ⟨hp.1, hp.2.1⟩)

theorem writes_entries {value : Plan QualifiedName} {entries : List (String × Value)}
    (hs : Entries.Sorted entries)
    (h : ∀ p ∈ entries, ∃ ts w, Returns kinds decoders encoders methods value p.2 ts w) :
    ∃ ts ws,
      (∀ p : Plan CodecRef, p.mapRef CodecRef.record = value → ∀ path,
        writeEntries p path (entryWriters encoders entries) = ⟨ts, none⟩) ∧
      (∀ p : Plan CodecRef, p.mapRef CodecRef.record = value → ∀ held : List (String × Value),
        (∀ q ∈ held, ∀ e ∈ entries, q.1 < e.1) →
        DecodesEntries decoders p held (ts ++ [.endObject]) (held ++ ws)) ∧
      SameEntries methods value entries ws ∧
      ((∀ p ∈ entries, Shaped kinds exactLeaves value p.2) → ws = entries) := by
  induction entries with
  | nil =>
      refine ⟨[], [], fun _ _ _ => rfl, fun p _ held _ => ?_, .nil, fun _ => rfl⟩
      rw [List.append_nil]
      exact .nil
  | cons e entries ih =>
      obtain ⟨key, v⟩ := e
      obtain ⟨⟨ts, w, hv⟩, hentries⟩ := List.forall_mem_cons.1 h
      obtain ⟨hlt, hs⟩ := List.pairwise_cons.1 hs
      obtain ⟨us, ws, hwrites, hdecodes, hsame, hexact⟩ := ih hs hentries
      refine ⟨.fieldName key :: (ts ++ us), (key, w) :: ws, ?_, ?_, .cons ⟨rfl, hv.same⟩ hsame, ?_⟩
      · intro p hp path
        rw [entryWriters, writeEntries, Written.andThen_done, hv.writes p hp,
          Written.andThen_done, hwrites p hp]
        rfl
      · intro p hp held hheld
        -- the key is beyond those held, so its entry is put at the end
        have hput : Entries.put key w held = held ++ [(key, w)] :=
          Entries.put_of_lt fun q hq => hheld q hq (key, v) List.mem_cons_self
        have hnext : ∀ q ∈ held ++ [(key, w)], ∀ e ∈ entries, q.1 < e.1 := by
          intro q hq e he
          rcases List.mem_append.1 hq with hq | hq
          · exact hheld q hq e (List.mem_cons_of_mem _ he)
          · obtain rfl := List.mem_singleton.1 hq
            exact hlt e he
        have hrest := hdecodes p hp (held ++ [(key, w)]) hnext
        rw [List.append_assoc, List.singleton_append, ← hput] at hrest
        rw [List.cons_append, List.append_assoc]
        exact .cons (hv.decodes p hp) hrest
      · intro hshaped
        obtain ⟨hfirst, hrest⟩ := List.forall_mem_cons.1 hshaped
        rw [hv.exact hfirst, hexact hrest]

theorem returns_map {value : Plan QualifiedName} {entries : List (String × Value)}
    (hs : Entries.Sorted entries)
    (h : ∀ p ∈ entries, ∃ ts w, Returns kinds decoders encoders methods value p.2 ts w) :
    ∃ ts w, Returns kinds decoders encoders methods (.map value) (.map entries) ts w := by
  obtain ⟨ts, ws, hwrites, hdecodes, hsame, hexact⟩ := writes_entries hs h
  have hsorted : Entries.Sorted ws := by
    have hkeys := Entries.pairwise_keys hs
    rw [hsame.keys_eq] at hkeys
    exact List.pairwise_map.1 hkeys
  refine ⟨.startObject :: (ts ++ [.endObject]), .map ws, ?_, ?_, ?_, ?_⟩
  · intro p hp path
    obtain ⟨p, rfl, hpart⟩ := Plan.mapRef_eq_map hp
    rw [encodeValue, hwrites p hpart, between_done]
  · intro p hp
    obtain ⟨p, rfl, hpart⟩ := Plan.mapRef_eq_map hp
    exact .map (hdecodes p hpart [] fun _ hq => absurd hq List.not_mem_nil)
  · exact ⟨hsame.equalValue hs hsorted, hsame.symm.equalValue hsorted hs⟩
  · intro hshaped
    cases hshaped with
    | map _ hshaped => rw [hexact hshaped]

/-! ### Records -/

section

variable {fields : List RecordField} {entries : List (String × Value)}

/-- Fields are written in order, and each is read back into its own place. -/
theorem writes_fields {decoder : Decoder} (hd : decoder.fields = fields.map RecordField.decodeField)
    (hkeys : (fields.map (·.wireKey)).Nodup)
    (h : ∀ f ∈ fields, ∃ v, Entries.get? f.name entries = some v ∧
      ∃ ts w, Returns kinds decoders encoders methods f.plan v ts w)
    (fs : List RecordField) (hfs : ∀ f ∈ fs, f ∈ fields) (hnames : (fs.map (·.name)).Nodup)
    {r : Record} (hr : Complete fields r.fields) :
    ∃ ts r',
      (∀ path, writeFields path (entryWriters encoders entries)
        (fs.map RecordField.encodeField) = ⟨ts, none⟩) ∧
      DecodesFields decoders decoder r (ts ++ [.endObject]) r' ∧
      r'.name = r.name ∧ Complete fields r'.fields ∧
      (∀ f ∈ fs, ∃ v w, Entries.get? f.name entries = some v ∧
        Entries.get? f.name r'.fields = some w ∧ Same methods f.plan v w ∧
        (Shaped kinds exactLeaves f.plan v → w = v)) ∧
      ∀ key, key ∉ fs.map (·.name) → Entries.get? key r'.fields = Entries.get? key r.fields := by
  -- on the fields still to be written, from any record read so far
  induction fs generalizing r with
  | nil =>
      exact ⟨[], r, fun _ => rfl, .nil, rfl, hr, fun f hf => absurd hf List.not_mem_nil,
        fun _ _ => rfl⟩
  | cons f fs ih =>
      obtain ⟨hf, hfs⟩ := List.forall_mem_cons.1 hfs
      obtain ⟨hfresh, hnames⟩ := List.nodup_cons.1 hnames
      obtain ⟨v, hv, ts, w, hreturns⟩ := h f hf
      obtain ⟨us, r', hwrites, hdecodes, hname, hcomplete, hfields, hothers⟩ :=
        ih hfs hnames (r := r.set f.name w) (hr.put hf w)
      refine ⟨.fieldName f.wireKey :: (ts ++ us), r', ?_, ?_, hname, hcomplete, ?_, ?_⟩
      · intro path
        rw [List.map_cons, writeFields, Written.andThen_done, RecordField.field_encodeField,
          writers_get? hv]
        simp only [hreturns.writes _ f.mapRef_encodeField, Written.andThen_done, hwrites]
        rfl
      · rw [List.cons_append, List.append_assoc]
        exact .field (Decoder.fieldFor?_of_nodup hd hkeys hf)
          (hreturns.decodes _ f.mapRef_decodeField) hdecodes
      · refine List.forall_mem_cons.2 ⟨⟨v, w, hv, ?_, hreturns.same, hreturns.exact⟩, hfields⟩
        -- the later fields have other names and leave this one alone
        rw [hothers f.name hfresh]
        exact Entries.get?_put_self _ _ _
      · intro key hkey
        rw [List.map_cons, List.mem_cons, not_or] at hkey
        obtain ⟨hne, hkey⟩ := hkey
        rw [hothers key hkey]
        exact Entries.get?_put_of_ne (Ne.symm hne) _ _

/-- Records are the same when each field holds the same on both sides. -/
theorem same_record {name : QualifiedName} (hm : methods name = some (fields.map RecordField.method))
    {others : List (String × Value)}
    (h : ∀ f ∈ fields, ∃ v w, Entries.get? f.name entries = some v ∧
      Entries.get? f.name others = some w ∧ Same methods f.plan v w) :
    Same methods (.record name) (.record name entries) (.record name others) := by
  have hfields : ∀ m ∈ fields.map RecordField.method,
      Same methods m.comparator (Entries.getD m.field entries) (Entries.getD m.field others) := by
    intro m hm
    obtain ⟨f, hf, rfl⟩ := List.mem_map.1 hm
    obtain ⟨v, w, hv, hw, hsame⟩ := h f hf
    simp only [Entries.getD, RecordField.field_method, hv, hw]
    exact hsame
  constructor
  · exact (equalValue_record_iff hm).2 fun m hm => (hfields m hm).1
  · exact (equalValue_record_iff hm).2 fun m hm => (hfields m hm).2

variable (hg : Generates kinds decoders encoders methods)

include hg

/-- The fields of a record come back as those of an equal record of the same kind. -/
theorem returns_fields {name : QualifiedName} (hk : kinds name = some fields)
    (hnames : (fields.map (·.name)).Nodup) (hkeys : (fields.map (·.wireKey)).Nodup)
    (hc : Complete fields entries)
    (h : ∀ f ∈ fields, ∀ v, Entries.get? f.name entries = some v →
      ∃ ts w, Returns kinds decoders encoders methods f.plan v ts w) :
    ∃ encoder decoder ts r, encoders name = some encoder ∧ decoders name = some decoder ∧
      (∀ path, writeFields path (entryWriters encoders entries) encoder.fields = ⟨ts, none⟩) ∧
      DecodesFields decoders decoder decoder.initial (ts ++ [.endObject]) r ∧ r.name = name ∧
      Same methods (.record name) (.record name entries) r.toValue ∧
      (Shaped kinds exactLeaves (.record name) (.record name entries) → r.fields = entries) := by
  obtain ⟨decoder, hdec, hrecord, hd⟩ := hg.decoder_of_kind hk
  obtain ⟨encoder, henc, he⟩ := hg.encoder_of_kind hk
  have hvalues : ∀ f ∈ fields, ∃ v, Entries.get? f.name entries = some v ∧
      ∃ ts w, Returns kinds decoders encoders methods f.plan v ts w := by
    intro f hf
    obtain ⟨v, hv⟩ := hc.exists_value hf
    exact ⟨v, hv, h f hf v hv⟩
  obtain ⟨ts, r, hwrites, hdecodes, hname, hcomplete, hfields, _⟩ :=
    writes_fields hd hkeys hvalues fields (fun _ hf => hf) hnames (Decoder.complete_initial hd)
  rw [Decoder.name_initial, hrecord] at hname
  refine ⟨encoder, decoder, ts, r, henc, hdec, ?_, hdecodes, hname, ?_, ?_⟩
  · rw [he]
    exact hwrites
  · rw [Record.toValue, hname]
    refine same_record (hg.methods_of_kind hk) fun f hf => ?_
    obtain ⟨v, w, hv, hw, hsame, _⟩ := hfields f hf
    exact ⟨v, w, hv, hw, hsame⟩
  · intro hshaped
    cases hshaped with
    | @record _ fields' _ hk' _ hexact =>
        obtain rfl := Option.some.inj (hk.symm.trans hk')
        refine hcomplete.ext hc fun f hf => ?_
        obtain ⟨v, w, hv, hw, _, heq⟩ := hfields f hf
        rw [hv, hw, heq (hexact f hf v hv)]

variable (hn : ∀ name fields, kinds name = some fields → (fields.map (·.name)).Nodup)
  (hw : ∀ name fields, kinds name = some fields → (fields.map (·.wireKey)).Nodup)

include hn hw

/-- Every value that conforms, with integers in wider places or not, is written and comes back. -/
theorem returns_of_shaped {plan : Plan QualifiedName} {v : Value}
    (h : Shaped kinds widenedLeaves plan v) :
    ∃ ts w, Returns kinds decoders encoders methods plan v ts w := by
  induction h with
  | null => exact ⟨_, _, returns_null _⟩
  | scalar hv => exact returns_scalar hv
  | list _ ih => exact returns_list ih
  | map hs _ ih => exact returns_map hs ih
  | document hv => exact returns_document hv
  | @record name fields entries hk hc _ ih =>
      obtain ⟨encoder, decoder, ts, r, henc, hdec, hwrites, hdecodes, hname, hsame, hexact⟩ :=
        returns_fields hg hk (hn name fields hk) (hw name fields hk) hc ih
      refine ⟨.startObject :: (ts ++ [.endObject]), r.toValue, ?_, ?_, hsame, ?_⟩
      · intro p hp path
        obtain ⟨ref, rfl, rfl⟩ := Plan.mapRef_eq_record hp
        rw [encodeValue, if_pos rfl, henc]
        simp only [hwrites, between_done]
      · intro p hp
        obtain ⟨ref, rfl, rfl⟩ := Plan.mapRef_eq_record hp
        exact .record hdec hdecodes
      · intro hshaped
        rw [Record.toValue, hname, hexact hshaped]

theorem returns_record {r : Record} (h : r.Shaped kinds widenedLeaves) :
    ∃ ts r', encodeRecord encoders r = ⟨ts, none⟩ ∧
      (∀ rest, decodeRecord decoders r.name (ts ++ rest) = .ok (r', rest)) ∧
      r.equals methods r' = .ok true ∧ r'.equals methods r = .ok true ∧
      (r.Shaped kinds exactLeaves → r' = r) := by
  obtain ⟨name, entries⟩ := r
  cases h with
  | @record _ fields _ hk hc hfields =>
      obtain ⟨encoder, decoder, ts, r', henc, hdec, hwrites, hdecodes, rfl, hsame, hexact⟩ :=
        returns_fields hg hk (hn name fields hk) (hw name fields hk) hc
          fun f hf v hv => returns_of_shaped hg hn hw (hfields f hf v hv)
      refine ⟨.startObject :: (ts ++ [.endObject]), r', ?_, fun rest => ?_, hsame.1, hsame.2, ?_⟩
      · unfold encodeRecord
        simp only [henc, hwrites, between_done]
      · exact decodeRecord_eq_ok_iff.2 ⟨_, rfl, decoder, _, hdec, rfl, hdecodes⟩
      · intro hshaped
        exact congrArg (Record.mk r'.name) (hexact hshaped)

end

/-! ### Catalogs -/

/-- In a catalog whose records have different wire keys each, what is encoded is decoded again: to
the record itself when every value has exactly the declared type, and to an equal record when
integers stand in the places of wider numbers. Decoding takes what encoding wrote and no more. -/
theorem Forest.decode_encode {settings : Settings} {forest : Forest} {catalog : Catalog}
    (hc : forest.compile settings = .ok catalog)
    (hw : ∀ e ∈ catalog.entries, (e.definition.fields.map (·.wireKey)).Nodup) (r : Record) :
    (r.Shaped catalog.kinds exactLeaves →
      ∃ ts, catalog.encode r = ⟨ts, none⟩ ∧
        ∀ rest, decodeRecord catalog.decoder? r.name (ts ++ rest) = .ok (r, rest)) ∧
    (r.Shaped catalog.kinds widenedLeaves →
      ∃ ts r', catalog.encode r = ⟨ts, none⟩ ∧
        (∀ rest, decodeRecord catalog.decoder? r.name (ts ++ rest) = .ok (r', rest)) ∧
        r.equals catalog.methods r' = .ok true ∧ r'.equals catalog.methods r = .ok true) := by
  have hg := generates_of_compile hc
  have hn : ∀ name fields, catalog.kinds name = some fields → (fields.map (·.name)).Nodup :=
    fun _ _ hk => nodup_names_of_kind hc hk
  have hw : ∀ name fields, catalog.kinds name = some fields →
      (fields.map (·.wireKey)).Nodup := by
    intro name fields hk
    obtain ⟨e, he, rfl⟩ := Option.map_eq_some_iff.1 hk
    exact hw e (Catalog.entry?_eq_some he).1
  constructor
  · intro hr
    obtain ⟨ts, r', henc, hdec, _, _, hexact⟩ :=
      returns_record hg hn hw (Shaped.mono exactLeaves_within hr)
    obtain rfl := hexact hr
    exact ⟨ts, henc, hdec⟩
  · intro hr
    obtain ⟨ts, r', henc, hdec, hequals, hequals', _⟩ := returns_record hg hn hw hr
    exact ⟨ts, r', henc, hdec, hequals, hequals'⟩

/-- Trees of amounts: a record that refers to itself. -/
def Forest.tree : Forest where
  roots := [{
    name := "node"
    identity := some "node"
    properties := [
      { name := "amount", type := some (.scalar .decimal) },
      { name := "children", type := some (.list .struct), identity := some "node" }] }]

def Record.treeNode (amount : Value) (children : List Record) : Record :=
  ⟨⟨"generated.model", "Node"⟩,
    [("amount", amount), ("children", .list (children.map Record.toValue))]⟩

theorem Forest.tree_compiles : ∃ catalog, tree.compile {} = .ok catalog ∧
    (catalog.entries.all (fun e => decide (e.definition.fields.map (·.wireKey)).Nodup) &&
      (catalog.kinds ⟨"generated.model", "Node"⟩).any fun fields =>
        decide (fields.map (fun f => (f.name, f.plan)) =
          [("amount", .scalar .decimal),
            ("children", .list (.record ⟨"generated.model", "Node"⟩))])) = true :=
  exists_catalog (by decide +kernel)

theorem Record.shaped_treeNode {kinds : Kinds} {fields : List RecordField}
    (hk : kinds ⟨"generated.model", "Node"⟩ = some fields)
    (hplans : fields.map (fun f => (f.name, f.plan)) =
      [("amount", .scalar .decimal), ("children", .list (.record ⟨"generated.model", "Node"⟩))])
    {leaves : Leaves} (hl : leaves.record = Complete) {amount : Value}
    (ha : leaves.scalar .decimal amount) {children : List Record}
    (hc : ∀ c ∈ children, Shaped kinds leaves c ∧ c.name = ⟨"generated.model", "Node"⟩) :
    (treeNode amount children).Shaped kinds leaves := by
  have hnames : fields.map (·.name) = ["amount", "children"] := by
    have hfirst := congrArg (List.map Prod.fst) hplans
    rw [List.map_map] at hfirst
    exact hfirst
  refine .record hk ?_ fun f hf v hv => ?_
  · rw [hl]
    refine ⟨List.pairwise_pair.2 (by decide : "amount" < "children"), fun key => ?_⟩
    rw [hnames]
    exact Iff.rfl
  · have hmem : (f.name, f.plan) ∈ fields.map fun f => (f.name, f.plan) := List.mem_map_of_mem hf
    rw [hplans] at hmem
    rcases List.mem_cons.1 hmem with heq | hmem
    · injection heq with hname hplan
      rw [hname] at hv
      cases hv
      rw [hplan]
      exact .scalar ha
    · injection List.mem_singleton.1 hmem with hname hplan
      rw [hname] at hv
      cases hv
      rw [hplan]
      refine .list fun v hv => ?_
      obtain ⟨c, hmem, rfl⟩ := List.mem_map.1 hv
      obtain ⟨hshaped, hname⟩ := hc c hmem
      rw [← hname]
      exact hshaped

/-- Seven, with an eight below it. -/
def Record.smallTree (amount : Value) : Record :=
  .treeNode amount [.treeNode (.decimal (.ofInt 8)) []]

theorem Forest.tree_decode_encode : ∃ catalog, tree.compile {} = .ok catalog ∧
    (∃ ts, catalog.encode (.smallTree (.decimal (.ofInt 7))) = ⟨ts, none⟩ ∧
      ∀ rest, decodeRecord catalog.decoder? ⟨"generated.model", "Node"⟩ (ts ++ rest) =
        .ok (.smallTree (.decimal (.ofInt 7)), rest)) ∧
    (∃ ts r', catalog.encode (.smallTree (.int 7)) = ⟨ts, none⟩ ∧
      (∀ rest, decodeRecord catalog.decoder? ⟨"generated.model", "Node"⟩ (ts ++ rest) =
        .ok (r', rest)) ∧
      (Record.smallTree (.int 7)).equals catalog.methods r' = .ok true ∧
      r'.equals catalog.methods (.smallTree (.int 7)) = .ok true) := by
  obtain ⟨catalog, hc, htest⟩ := tree_compiles
  obtain ⟨hkeys, hkind⟩ := Bool.and_eq_true_iff.1 htest
  have hw : ∀ e ∈ catalog.entries, (e.definition.fields.map (·.wireKey)).Nodup :=
    fun e he => of_decide_eq_true (List.all_eq_true.1 hkeys e he)
  obtain ⟨fields, hk, hplans⟩ := (Option.any_eq_true _ _).1 hkind
  have hplans := of_decide_eq_true hplans
  have hseven : (Record.smallTree (.decimal (.ofInt 7))).Shaped catalog.kinds exactLeaves := by
    refine Record.shaped_treeNode hk hplans rfl (ExactScalar.decimal (.inr ⟨7, rfl⟩)) fun c hc => ?_
    obtain rfl := List.mem_singleton.1 hc
    exact ⟨Record.shaped_treeNode hk hplans rfl (ExactScalar.decimal (.inr ⟨8, rfl⟩)) nofun, rfl⟩
  have hint : (Record.smallTree (.int 7)).Shaped catalog.kinds widenedLeaves := by
    refine Record.shaped_treeNode hk hplans rfl (WidenedScalar.decimalOfInt 7) fun c hc => ?_
    obtain rfl := List.mem_singleton.1 hc
    exact ⟨Record.shaped_treeNode hk hplans rfl
      (WidenedScalar.exact (.decimal (.inr ⟨8, rfl⟩))) nofun, rfl⟩
  exact ⟨catalog, hc, (decode_encode hc hw (.smallTree (.decimal (.ofInt 7)))).1 hseven,
    (decode_encode hc hw (.smallTree (.int 7))).2 hint⟩

end RecordCodec
