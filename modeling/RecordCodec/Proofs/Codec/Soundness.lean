import RecordCodec.Proofs.Codec.Points
import RecordCodec.Proofs.Compile.Closed
import RecordCodec.Proofs.Token.Skipping

/-!
What decoded values mean. `Denotes` says which value a row of tokens denotes, layer by layer: a
field of a record is read from the last member under its key, if it is the first field with that
key, and otherwise holds its default or null. Every member holds the tokens of one value, also under
a key that is not declared, so tokens are cut into members in one way only. Whatever a stream holds,
well formed or not, a record that is decoded from it is what the tokens taken denote, and it has the
declared type at every depth; so it can be encoded again.
-/

namespace RecordCodec

/-! ### Members -/

/-- A key on a stream with the tokens of its value. -/
abbrev Member := String × List Token

def memberTokens : List Member → List Token
  | [] => []
  | (key, ts) :: rest => .fieldName key :: (ts ++ memberTokens rest)

/-- Every member holds the tokens of one value, brackets matched by their number alone. -/
def Tiled (members : List Member) : Prop := ∀ m ∈ members, Token.Balanced m.2

/-- Tokens are cut into members in one way only. -/
theorem Tiled.eq_of_memberTokens {members members' : List Member} (h : Tiled members)
    (h' : Tiled members') {rest rest' : List Token}
    (heq : memberTokens members ++ .endObject :: rest =
      memberTokens members' ++ .endObject :: rest') : members = members' := by
  induction members generalizing members' with
  | nil =>
      cases members' with
      | nil => rfl
      | cons m' more' => cases heq
  | cons m more ih =>
      obtain ⟨key, ts⟩ := m
      obtain ⟨hts, hmore⟩ := List.forall_mem_cons.1 h
      cases members' with
      | nil => cases heq
      | cons m' more' =>
          obtain ⟨key', ts'⟩ := m'
          obtain ⟨hts', hmore'⟩ := List.forall_mem_cons.1 h'
          rw [memberTokens, memberTokens, List.cons_append, List.cons_append, List.append_assoc,
            List.append_assoc] at heq
          obtain ⟨hkey, htail⟩ := List.cons.inj heq
          obtain rfl := Token.fieldName.inj hkey
          -- both values begin at the same place, so they end at the same place
          obtain rfl := hts.skips.eq_of_append hts'.skips htail
          rw [ih hmore hmore' (List.append_cancel_left htail)]

/-- The tokens of the last value under a key. -/
def lastUnder (key : String) : List Member → Option (List Token)
  | [] => none
  | (k, ts) :: rest => (lastUnder key rest).or (if k = key then some ts else none)

/-- The tokens that a field is read from: only the first field with a key gets its values. -/
def tokensFor (fields : List RecordField) (f : RecordField) (members : List Member) :
    Option (List Token) :=
  if fields.find? (·.wireKey = f.wireKey) = some f then lastUnder f.wireKey members else none

/-! ### Denotation -/

/-- The tokens denote the value under the plan. -/
inductive Denotes (kinds : Kinds) : Plan QualifiedName → List Token → Value → Prop
  | null {plan : Plan QualifiedName} : Denotes kinds plan [.null] .null
  | scalar {kind : ScalarKind} {t : Token} {v : Value} :
      readScalar kind t = .ok (some v) → Denotes kinds (.scalar kind) [t] v
  | list {item : Plan QualifiedName} {words : List (List Token)} {items : List Value} :
      words.length = items.length →
      (∀ (i : Nat) (w : List Token) (v : Value), words[i]? = some w → items[i]? = some v →
        Denotes kinds item w v) →
      Denotes kinds (.list item) (.startArray :: (words.flatten ++ [.endArray])) (.list items)
  | map {value : Plan QualifiedName} {members : List Member} {entries : List (String × Value)} :
      Tiled members →
      (∀ key, lastUnder key members = none ↔ Entries.get? key entries = none) →
      (∀ key w v, lastUnder key members = some w → Entries.get? key entries = some v →
        Denotes kinds value w v) →
      Denotes kinds (.map value) (.startObject :: (memberTokens members ++ [.endObject]))
        (.map entries)
  | document {ts : List Token} {json : Json} :
      Token.Spells ts json → json ≠ .null → Denotes kinds .document ts (.document json)
  | record {name : QualifiedName} {fields : List RecordField} {members : List Member}
      {entries : List (String × Value)} :
      kinds name = some fields →
      Tiled members →
      (∀ f ∈ fields, tokensFor fields f members = none →
        Entries.get? f.name entries = some (f.default.getD .null)) →
      (∀ f ∈ fields, ∀ w v, tokensFor fields f members = some w →
        Entries.get? f.name entries = some v → Denotes kinds f.plan w v) →
      Denotes kinds (.record name) (.startObject :: (memberTokens members ++ [.endObject]))
        (.record name entries)

theorem lastUnder_eq_none {key : String} {members : List Member}
    (h : ∀ m ∈ members, m.1 ≠ key) : lastUnder key members = none := by
  induction members with
  | nil => rfl
  | cons m rest ih =>
      obtain ⟨hm, hrest⟩ := List.forall_mem_cons.1 h
      rw [lastUnder, ih hrest, if_neg hm]
      rfl

theorem tokensFor_cons {fields : List RecordField} {f : RecordField} {key : String}
    {ts : List Token} {members : List Member} :
    tokensFor fields f ((key, ts) :: members) = (tokensFor fields f members).or
      (if fields.find? (·.wireKey = key) = some f then some ts else none) := by
  have hkey : fields.find? (·.wireKey = key) = some f → key = f.wireKey :=
    fun h => (of_decide_eq_true (List.find?_some h :)).symm
  unfold tokensFor
  by_cases hsame : key = f.wireKey
  · subst hsame
    split
    · rw [lastUnder, if_pos rfl]
    · rfl
  · rw [if_neg (mt hkey hsame), Option.or_none, lastUnder, if_neg hsame, Option.or_none]

/-- A key belongs to the first field that has it. -/
theorem Decoder.fieldFor?_eq {d : Decoder} {fields : List RecordField}
    (hd : d.fields = fields.map RecordField.decodeField) (key : String) :
    d.fieldFor? key = (fields.find? (·.wireKey = key)).map RecordField.decodeField := by
  rw [fieldFor?, hd, List.find?_map]
  rfl

theorem Decoder.fieldFor?_of_find? {d : Decoder} {fields : List RecordField}
    (hd : d.fields = fields.map RecordField.decodeField) {key : String} {f : RecordField}
    (hf : fields.find? (·.wireKey = key) = some f) : d.fieldFor? key = some f.decodeField := by
  rw [fieldFor?_eq hd, hf, Option.map_some]

/-- What setting one field does to the values of all. -/
theorem get?_set_field {fields : List RecordField} (hn : (fields.map (·.name)).Nodup)
    {f g : RecordField} (hf : f ∈ fields) (hg : g ∈ fields) (r : Record) (v : Value) :
    Entries.get? g.name (r.set f.name v).fields =
      if f = g then some v else Entries.get? g.name r.fields := by
  split
  · rename_i heq
    rw [heq, Record.set, Entries.get?_put_self]
  · rename_i hne
    exact Entries.get?_put_of_ne (fun hname => hne (List.inj_on_of_nodup_map hn hf hg hname)) _ _

section

variable {kinds : Kinds} {decoders : QualifiedName → Option Decoder}

/-! ### Decoded tokens are those of one value -/

theorem readScalar_begins {kind : ScalarKind} {t : Token} {v : Value}
    (h : readScalar kind t = .ok (some v)) : t.begins = false := by
  cases t with
  | startObject | startArray => cases kind <;> cases h
  | _ => rfl

/-- One more member in front of the others that an object holds. -/
theorem exists_inside_member (key : String) {ts rest : List Token} (hts : Token.Balanced ts)
    (h : ∃ us, rest = us ++ [.endObject] ∧ Token.Inside us) :
    ∃ us, .fieldName key :: (ts ++ rest) = us ++ [.endObject] ∧ Token.Inside us := by
  obtain ⟨us, rfl, hus⟩ := h
  refine ⟨.fieldName key :: (ts ++ us), ?_, .cons rfl rfl (hts.inside.append hus)⟩
  rw [List.cons_append, List.append_assoc]

mutual

theorem Decodes.balanced {plan : Plan CodecRef} {ts : List Token} {v : Value} :
    Decodes decoders plan ts v → Token.Balanced ts
  | .null => .single rfl rfl
  | .scalar hv => .single (readScalar_opens hv).1 (readScalar_begins hv)
  | .list hitems => by
      obtain ⟨us, rfl, hus⟩ := hitems.inside
      exact .container rfl rfl hus
  | .map hentries => by
      obtain ⟨us, rfl, hus⟩ := hentries.inside
      exact .container rfl rfl hus
  | .document hspells _ => hspells.legible.balanced
  | .record _ hfields => by
      obtain ⟨us, rfl, hus⟩ := hfields.inside
      exact .container rfl rfl hus

theorem DecodesItems.inside {item : Plan CodecRef} {ts : List Token} {items : List Value} :
    DecodesItems decoders item ts items →
      ∃ us, ts = us ++ [.endArray] ∧ Token.Inside us
  | .nil => ⟨[], rfl, .nil⟩
  | .cons hv hitems => by
      obtain ⟨us, rfl, hus⟩ := hitems.inside
      exact ⟨_, (List.append_assoc _ _ _).symm, hv.balanced.inside.append hus⟩

theorem DecodesEntries.inside {value : Plan CodecRef} {held entries : List (String × Value)}
    {ts : List Token} : DecodesEntries decoders value held ts entries →
      ∃ us, ts = us ++ [.endObject] ∧ Token.Inside us
  | .nil => ⟨[], rfl, .nil⟩
  | .cons hv hentries => exists_inside_member _ hv.balanced hentries.inside

theorem DecodesFields.inside {decoder : Decoder} {record record' : Record} {ts : List Token} :
    DecodesFields decoders decoder record ts record' →
      ∃ us, ts = us ++ [.endObject] ∧ Token.Inside us
  | .nil => ⟨[], rfl, .nil⟩
  | .field _ hv hfields => exists_inside_member _ hv.balanced hfields.inside
  | .skip _ hskips hfields => exists_inside_member _ hskips.balanced hfields.inside

end

/-! ### Decoded tokens denote what is decoded -/

mutual

/-- What is decoded is what the tokens denote. -/
theorem Decodes.denotes (hd : DecodesKinds kinds decoders) {plan : Plan CodecRef}
    {ts : List Token} {v : Value} :
    Decodes decoders plan ts v → Denotes kinds (plan.mapRef CodecRef.record) ts v
  | .null => .null
  | .scalar hv => .scalar hv
  | .list hitems => by
      obtain ⟨words, rfl, hlength, hwords⟩ := hitems.denotes hd
      exact .list hlength hwords
  | .map hentries => by
      obtain ⟨members, rfl, htiled, hheld, hread⟩ := hentries.denotes hd
      refine .map htiled (fun key => ⟨hheld key, fun hnone => ?_⟩) fun key w v hw hv => ?_
      · cases hlast : lastUnder key members with
        | none => rfl
        | some w =>
            obtain ⟨v, hv, _⟩ := hread key w hlast
            rw [hnone] at hv
            cases hv
      · obtain ⟨v', hv', hdenotes⟩ := hread key w hw
        obtain rfl := Option.some.inj (hv.symm.trans hv')
        exact hdenotes
  | .document hspells hne => .document hspells hne
  | .record hdec hfields => by
      obtain ⟨fields, hk, hrecord, hd'⟩ := hd.kind hdec
      obtain ⟨members, rfl, htiled, hkept, hread⟩ := hfields.denotes hd hd' (hd.names hk)
      obtain ⟨hname, hinitial⟩ := shaped_initial hd hdec
      obtain ⟨hsame, _⟩ := hfields.shaped hd (hname ▸ hk) hd' hinitial
      rw [Record.toValue, hsame, hname]
      refine .record hk htiled (fun f hf hnone => ?_) fun f hf w v hw hv => ?_
      · rw [hkept f hf hnone, Decoder.get?_initial hd' (hd.names hk) hf]
      · obtain ⟨v', hv', hdenotes⟩ := hread f hf w hw
        obtain rfl := Option.some.inj (hv.symm.trans hv')
        exact hdenotes

theorem DecodesItems.denotes (hd : DecodesKinds kinds decoders) {item : Plan CodecRef}
    {ts : List Token} {items : List Value} : DecodesItems decoders item ts items →
      ∃ words : List (List Token), ts = words.flatten ++ [.endArray] ∧
        words.length = items.length ∧
        ∀ (i : Nat) (w : List Token) (v : Value), words[i]? = some w → items[i]? = some v →
          Denotes kinds (item.mapRef CodecRef.record) w v
  | .nil => ⟨[], rfl, rfl, by simp⟩
  | @DecodesItems.cons _ _ ts _ _ _ hv hitems => by
      have hfirst := hv.denotes hd
      obtain ⟨words, rfl, hlength, hwords⟩ := hitems.denotes hd
      refine ⟨ts :: words, ?_, congrArg Nat.succ hlength, fun i w v hw hv => ?_⟩
      · rw [List.flatten_cons, List.append_assoc]
      · cases i with
        | zero =>
            cases hw
            cases hv
            exact hfirst
        | succ i => exact hwords i w v hw hv

theorem DecodesEntries.denotes (hd : DecodesKinds kinds decoders) {value : Plan CodecRef}
    {held entries : List (String × Value)} {ts : List Token} :
    DecodesEntries decoders value held ts entries →
      ∃ members, ts = memberTokens members ++ [.endObject] ∧ Tiled members ∧
        (∀ key, lastUnder key members = none → Entries.get? key entries = Entries.get? key held) ∧
        ∀ key w, lastUnder key members = some w → ∃ v, Entries.get? key entries = some v ∧
          Denotes kinds (value.mapRef CodecRef.record) w v
  | .nil => ⟨[], rfl, List.forall_mem_nil _, fun _ _ => rfl, nofun⟩
  | @DecodesEntries.cons _ _ _ _ key ts _ v hv hentries => by
      have hfirst := hv.denotes hd
      obtain ⟨members, rfl, htiled, hheld, hread⟩ := hentries.denotes hd
      refine ⟨(key, ts) :: members, ?_, List.forall_mem_cons.2 ⟨hv.balanced, htiled⟩,
        fun k hnone => ?_, fun k w hw => ?_⟩
      · rw [memberTokens, List.cons_append, List.append_assoc]
      · obtain ⟨hlater, hkey⟩ := Option.or_eq_none_iff.1 hnone
        have hne : key ≠ k := fun heq => by simp [heq] at hkey
        rw [hheld k hlater, Entries.get?_put_of_ne hne]
      · obtain hlater | ⟨hlater, hkey⟩ := Option.or_eq_some_iff.1 hw
        · exact hread k w hlater
        · obtain ⟨rfl, heq⟩ := Option.ite_none_right_eq_some.1 hkey
          obtain rfl := Option.some.inj heq
          exact ⟨v, by rw [hheld key hlater, Entries.get?_put_self], hfirst⟩

theorem DecodesFields.denotes (hd : DecodesKinds kinds decoders) {decoder : Decoder}
    {fields : List RecordField} {record record' : Record} {ts : List Token} :
    DecodesFields decoders decoder record ts record' →
      decoder.fields = fields.map RecordField.decodeField → (fields.map (·.name)).Nodup →
      ∃ members, ts = memberTokens members ++ [.endObject] ∧ Tiled members ∧
        (∀ f ∈ fields, tokensFor fields f members = none →
          Entries.get? f.name record'.fields = Entries.get? f.name record.fields) ∧
        ∀ f ∈ fields, ∀ w, tokensFor fields f members = some w →
          ∃ v, Entries.get? f.name record'.fields = some v ∧ Denotes kinds f.plan w v
  | .nil, _, _ =>
      ⟨[], rfl, List.forall_mem_nil _, fun _ _ _ => rfl, by simp [tokensFor, lastUnder]⟩
  | @DecodesFields.field _ _ _ _ key f ts _ v hf hv hfields, hdec, hn => by
      have hvalue := hv.denotes hd
      obtain ⟨members, rfl, htiled, hkept, hread⟩ := hfields.denotes hd hdec hn
      rw [Decoder.fieldFor?_eq hdec] at hf
      obtain ⟨g, hfirst, rfl⟩ := Option.map_eq_some_iff.1 hf
      have hg := List.mem_of_find?_eq_some hfirst
      have hset := fun {h} (hh : h ∈ fields) => get?_set_field hn hg hh record v
      refine ⟨(key, ts) :: members, ?_, List.forall_mem_cons.2 ⟨hv.balanced, htiled⟩,
        fun h hh hnone => ?_, fun h hh w hw => ?_⟩
      · rw [memberTokens, List.cons_append, List.append_assoc]
      · rw [tokensFor_cons, hfirst] at hnone
        obtain ⟨hlater, hkey⟩ := Option.or_eq_none_iff.1 hnone
        have hne : g ≠ h := fun heq => by simp [heq] at hkey
        rw [hkept h hh hlater, RecordField.field_decodeField, hset hh, if_neg hne]
      · rw [tokensFor_cons, hfirst] at hw
        obtain hlater | ⟨hlater, hkey⟩ := Option.or_eq_some_iff.1 hw
        · exact hread h hh w hlater
        · obtain ⟨heq, hts⟩ := Option.ite_none_right_eq_some.1 hkey
          obtain rfl := Option.some.inj heq
          obtain rfl := Option.some.inj hts
          refine ⟨v, ?_, by rwa [RecordField.mapRef_decodeField] at hvalue⟩
          rw [hkept g hg hlater, RecordField.field_decodeField, hset hg, if_pos rfl]
  | @DecodesFields.skip _ _ _ _ key ts _ hf hskips hfields, hdec, hn => by
      obtain ⟨members, rfl, htiled, hkept, hread⟩ := hfields.denotes hd hdec hn
      rw [Decoder.fieldFor?_eq hdec] at hf
      have hnobody := Option.map_eq_none_iff.1 hf
      -- what is skipped belongs to no field
      have hcons : ∀ h, tokensFor fields h ((key, ts) :: members) = tokensFor fields h members := by
        intro h
        rw [tokensFor_cons, hnobody, if_neg nofun, Option.or_none]
      refine ⟨(key, ts) :: members, ?_, List.forall_mem_cons.2 ⟨hskips.balanced, htiled⟩,
        fun h hh hnone => ?_, fun h hh w hw => ?_⟩
      · rw [memberTokens, List.cons_append, List.append_assoc]
      · exact hkept h hh (hcons h ▸ hnone)
      · exact hread h hh w (hcons h ▸ hw)

end

end

/-! ### Catalogs -/

namespace Catalog

/-- Whatever record a catalog decodes, from whatever stream, has the declared type at every depth
and is what the tokens taken denote; encoding it again meets no value of another type and misses no
record. -/
structure DecodesSoundly (catalog : Catalog) : Prop where
  defaults : ∀ e ∈ catalog.entries, ∀ f ∈ e.definition.fields, ∀ {v}, f.default = some v →
    Shaped catalog.kinds declaredLeaves f.plan v
  shaped : ∀ e ∈ catalog.entries, ∀ {ts rest r},
    decodeRecord catalog.decoder? e.name ts = .ok (r, rest) →
      r.name = e.name ∧ Complete e.definition.fields r.fields ∧
        r.Shaped catalog.kinds declaredLeaves
  denotes : ∀ e ∈ catalog.entries, ∀ {ts rest r},
    decodeRecord catalog.decoder? e.name ts = .ok (r, rest) →
      Token.Taken (Denotes catalog.kinds (.record e.name) · r.toValue) ts rest
  /-- However the tokens are cut into members, a field under whose key there is none holds its
  default or null. -/
  absent : ∀ e ∈ catalog.entries, ∀ {members later rest r}, Tiled members →
    decodeRecord catalog.decoder? e.name
      (.startObject :: (memberTokens members ++ .endObject :: later)) = .ok (r, rest) →
    ∀ f ∈ e.definition.fields, (∀ m ∈ members, m.1 ≠ f.wireKey) →
      Entries.get? f.name r.fields = some (f.default.getD .null)
  encodes : ∀ e ∈ catalog.entries, ∀ {ts rest r},
    decodeRecord catalog.decoder? e.name ts = .ok (r, rest) →
      ∀ {error}, (catalog.encode r).error = some error →
        (∀ path expected found, error ≠ .encodeValue path expected found) ∧
          ∀ name, error ≠ .unknownRecord name
  /-- Decoding by a spelling is decoding by the entry that it names. -/
  spelled : ∀ {spelling ts rest r}, catalog.decode spelling ts = .ok (r, rest) →
    ∃ e ∈ catalog.entries, catalog.resolve? spelling = some e.name ∧
      decodeRecord catalog.decoder? e.name ts = .ok (r, rest)

theorem exists_entry_of_decode {catalog : Catalog} {spelling : String} {ts rest : List Token}
    {r : Record} (h : catalog.decode spelling ts = .ok (r, rest)) :
    ∃ e ∈ catalog.entries, catalog.resolve? spelling = some e.name ∧
      decodeRecord catalog.decoder? e.name ts = .ok (r, rest) := by
  unfold decode resolve at h
  cases hresolve : catalog.resolve? spelling with
  | none =>
      rw [hresolve] at h
      cases h
  | some name =>
      rw [hresolve] at h
      obtain hnone | ⟨e, he, _, rfl⟩ := mem_of_foldl_renamed hresolve
      · cases hnone
      · exact ⟨e, he, rfl, h⟩

end Catalog

theorem DecodesRecord.denotes {kinds : Kinds} {decoders : QualifiedName → Option Decoder}
    (hd : DecodesKinds kinds decoders) {name : QualifiedName} {ts : List Token} {r : Record}
    (h : DecodesRecord decoders name ts r) : Denotes kinds (.record name) ts r.toValue := by
  obtain ⟨decoder, us, hdec, rfl, hfields⟩ := h
  have hvalue : Decodes decoders (.record ⟨name, decoder.name⟩) _ _ := .record hdec hfields
  exact hvalue.denotes hd

theorem Denotes.get?_of_absent {kinds : Kinds} {name : QualifiedName} {fields : List RecordField}
    (hk : kinds name = some fields) {ts later rest : List Token} {r : Record}
    (h : Denotes kinds (.record name) ts r.toValue) {members : List Member} (ht : Tiled members)
    (heq : .startObject :: (memberTokens members ++ .endObject :: later) = ts ++ rest)
    {f : RecordField} (hf : f ∈ fields) (hnone : ∀ m ∈ members, m.1 ≠ f.wireKey) :
    Entries.get? f.name r.fields = some (f.default.getD .null) := by
  cases h with
  | @record _ fields' members' _ hk' ht' hkept _ =>
      obtain rfl := Option.some.inj (hk.symm.trans hk')
      rw [List.cons_append, List.append_assoc] at heq
      obtain rfl := ht.eq_of_memberTokens ht' (List.cons.inj heq).2
      refine hkept f hf ?_
      rw [tokensFor, lastUnder_eq_none hnone]
      exact ite_self none

namespace Forest

variable {settings : Settings} {forest : Forest} {catalog : Catalog}

theorem kinds_of_compile (h : forest.compile settings = .ok catalog) {e : Entry}
    (he : e ∈ catalog.entries) : catalog.kinds e.name = some e.definition.fields := by
  rw [Catalog.kinds, Catalog.entry?_of_mem (nodup_names_of_compile h) he, Option.map_some]

/-- A compiled catalog decodes soundly. -/
theorem compile_decodesSoundly (settings : Settings) (forest : Forest) :
    ∀ catalog, forest.compile settings = .ok catalog → catalog.DecodesSoundly := by
  intro catalog h
  have hd := decodesKinds_of_compile h
  have hshaped : ∀ e ∈ catalog.entries, ∀ {ts rest r},
      decodeRecord catalog.decoder? e.name ts = .ok (r, rest) →
        r.name = e.name ∧ r.Shaped catalog.kinds declaredLeaves := by
    intro e he ts rest r hr
    obtain ⟨taken, _, hdecodes⟩ := decodeRecord_eq_ok_iff.1 hr
    exact hdecodes.shaped hd
  constructor
  case defaults => exact fun e he f hf v hv => hd.defaults (kinds_of_compile h he) f hf v hv
  case shaped =>
    intro e he ts rest r hr
    obtain ⟨hname, hr⟩ := hshaped e he hr
    refine ⟨hname, ?_, hr⟩
    cases hr with
    | record hk hc _ =>
        rw [hname, kinds_of_compile h he] at hk
        exact Option.some.inj hk ▸ hc
  case denotes =>
    intro e he ts rest r hr
    obtain ⟨taken, hts, hdecodes⟩ := decodeRecord_eq_ok_iff.1 hr
    exact ⟨taken, hts, hdecodes.denotes hd⟩
  case absent =>
    intro e he members later rest r ht hr f hf hnone
    obtain ⟨taken, hts, hdecodes⟩ := decodeRecord_eq_ok_iff.1 hr
    exact (hdecodes.denotes hd).get?_of_absent (kinds_of_compile h he) ht hts hf hnone
  case encodes =>
    intro e he ts rest r hr error herror
    obtain ⟨_, hr⟩ := hshaped e he hr
    obtain ⟨digits, rfl⟩ :=
      (outcome_encodeRecord (generates_of_compile h) hr).error_eq_some herror
    exact ⟨nofun, nofun⟩
  case spelled => exact Catalog.exists_entry_of_decode

end Forest

/-- Parcels with a weight, tags in lists by key, a sender, and notes of any form. -/
def Forest.parcel : Forest where
  roots := [{
    name := "parcel"
    properties := [
      { name := "weight", type := some (.scalar .int), wireName := some "w",
        default := some (.number ⟨"3", by decide +kernel⟩) },
      { name := "tags", type := some (.map (.list (.scalar .string))) },
      { name := "sender", properties := [
          { name := "name", type := some (.scalar .string), default := some (.string "nobody") },
          { name := "address", type := some (.scalar .string) }] },
      { name := "notes", type := some .struct }] }]

/-- A parcel on a stream: a key that is not declared, tags given twice, and an empty sender. -/
def Token.parcel : List Token :=
  [.startObject, .fieldName "seal", .startArray, .startObject, .endObject, .endArray,
    .fieldName "tags", .startObject, .endObject,
    .fieldName "tags", .startObject, .fieldName "color", .startArray, .string "red", .null,
    .endArray, .endObject,
    .fieldName "sender", .startObject, .endObject,
    .fieldName "notes", .boolean true, .endObject]

/-- What it holds: the last tags, and defaults where nothing was given. -/
def Record.parcelFields : List (String × Value) :=
  [("notes", .document (.bool true)),
    ("sender", .record ⟨"generated.model", "ParcelSender"⟩
      [("address", .null), ("name", .string "nobody")]),
    ("tags", .map [("color", .list [.string "red", .null])]), ("weight", .int 3)]

theorem Forest.parcel_decodes : ∃ catalog, parcel.compile {} = .ok catalog ∧
    decide ((catalog.decode "Parcel" Token.parcel).map (fun p => (p.1.fields, p.2)) =
      .ok (Record.parcelFields, [])) = true :=
  exists_catalog (by decide +kernel)

theorem Forest.parcel_decodesSoundly : ∃ catalog, parcel.compile {} = .ok catalog ∧
    (catalog.decode "Parcel" Token.parcel).map (fun p => (p.1.fields, p.2)) =
      .ok (Record.parcelFields, []) ∧ catalog.DecodesSoundly := by
  obtain ⟨catalog, hc, hfields⟩ := parcel_decodes
  exact ⟨catalog, hc, of_decide_eq_true hfields, compile_decodesSoundly {} parcel catalog hc⟩

end RecordCodec
