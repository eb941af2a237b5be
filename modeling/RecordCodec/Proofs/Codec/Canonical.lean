import RecordCodec.Proofs.Codec.AsRead
import RecordCodec.Proofs.Codec.Roundtrip

/-!
Round trips through documents. A document is canonical when its records have exactly the declared
keys and its numbers are written as the encoder writes them. Every value of exactly the declared
type is meant by a canonical document; and the value that a canonical document means is written as
tokens that spell this document again, though the encoder writes the fields of a record in the order
of declaration and the document has them in key order. Hence encoding and decoding are inverse to
each other between records and canonical documents.
-/

namespace RecordCodec

open Text (intText)
open Token (Spells SpellsItems SpellsEntries)

/-! ### Canonical documents -/

/-- A scalar written as the encoder writes it: an integer as it is printed, a decimal as the number
literal that is the text of the decimal which it denotes. -/
def CanonicalScalar : ScalarKind → Json → Prop
  | .string, .string _ => True
  | .int, .number n => ∃ i : Int, n.text = intText i
  | .long, .number n => ∃ i : Int, n.text = intText i
  | .decimal, .number n => ∃ d, Decimal.read n.text = .ok d ∧ d.text = n.text
  | .boolean, .bool _ => True
  | _, _ => False

/-- Every object that is read as a record has exactly the declared keys, and every scalar is written
as the encoder writes it. -/
inductive Canonical (kinds : Kinds) : Plan QualifiedName → Json → Prop
  | null {plan : Plan QualifiedName} : Canonical kinds plan .null
  | scalar {kind : ScalarKind} {j : Json} :
      CanonicalScalar kind j → Canonical kinds (.scalar kind) j
  | list {item : Plan QualifiedName} {items : List Json} :
      (∀ j ∈ items, Canonical kinds item j) → Canonical kinds (.list item) (.array items)
  | map {value : Plan QualifiedName} {entries : List (String × Json)} :
      (∀ p ∈ entries, Canonical kinds value p.2) → Canonical kinds (.map value) (.object entries)
  | document (j : Json) : Canonical kinds .document j
  | record {name : QualifiedName} {fields : List RecordField} {entries : List (String × Json)} :
      kinds name = some fields →
      (∀ key, key ∈ Entries.keys entries ↔ key ∈ fields.map (·.wireKey)) →
      (∀ p ∈ entries, ∀ f, fields.find? (·.wireKey = p.1) = some f →
        Canonical kinds f.plan p.2) →
      Canonical kinds (.record name) (.object entries)

/-! ### Writing -/

section

variable (encoders : QualifiedName → Option Encoder)

/-- The value is written, wherever it stands, as tokens that spell the document. -/
def WrittenAs (plan : Plan QualifiedName) (v : Value) (j : Json) : Prop :=
  ∃ ts, Spells ts j ∧ ∀ p : Plan CodecRef, p.mapRef CodecRef.record = plan →
    ∀ path, encodeValue encoders v p path = ⟨ts, none⟩

end

/-- An integer that is read from the text of an integer is written as that text. -/
theorem intText_of_readInt32? {i : Int} {k : Int32} (h : Text.readInt32? (intText i) = some k) :
    intText k.toInt = intText i := by
  have hmin : Int32.minValue.toInt = -2 ^ 31 := by decide
  have hmax : Int32.maxValue.toInt = 2 ^ 31 - 1 := by decide
  simp only [Text.readInt32?, intText, String.toList_ofList, Text.readInt?_intDigits, hmin,
    hmax] at h
  obtain ⟨⟨hlow, hhigh⟩, heq⟩ := Option.ite_none_right_eq_some.1 h
  obtain rfl := Option.some.inj heq
  rw [Int32.toInt_ofInt_of_le hlow (by omega)]

theorem intText_of_readInt64? {i : Int} {k : Int64} (h : Text.readInt64? (intText i) = some k) :
    intText k.toInt = intText i := by
  have hmin : Int64.minValue.toInt = -2 ^ 63 := by decide
  have hmax : Int64.maxValue.toInt = 2 ^ 63 - 1 := by decide
  simp only [Text.readInt64?, intText, String.toList_ofList, Text.readInt?_intDigits, hmin,
    hmax] at h
  obtain ⟨⟨hlow, hhigh⟩, heq⟩ := Option.ite_none_right_eq_some.1 h
  obtain rfl := Option.some.inj heq
  rw [Int64.toInt_ofInt_of_le hlow (by omega)]

/-- The characters of a literal are ASCII, so what it denotes is plain. -/
theorem Numeral.plain_of_read {n : Numeral} {d : Decimal} (h : Decimal.read n.text = .ok d) :
    d.Plain := by
  refine Decimal.plain_of_read (fun c hc => ?_) h
  have hmark := n.isMark_of_mem c hc
  simp only [isMark, Bool.or_eq_true, beq_iff_eq] at hmark
  rcases hmark with (((hdigit | rfl) | rfl) | rfl) | rfl
  · have := (Text.isAsciiDigit_iff.1 hdigit).2
    omega
  · decide
  · decide
  · decide
  · decide

section

variable {kinds : Kinds} {encoders : QualifiedName → Option Encoder}

theorem writtenAs_number {kind : ScalarKind} {v : Value} {n : Numeral}
    (h : ∀ path, encodeValue encoders v (.scalar kind) path = ⟨[.number n.text], none⟩) :
    WrittenAs encoders (.scalar kind) v (.number n) := by
  refine ⟨_, .number n.ofText?_text, fun p hp path => ?_⟩
  obtain rfl := Plan.mapRef_eq_scalar hp
  exact h path

theorem written_scalar {kind : ScalarKind} {j : Json} {v : Value}
    (hv : readScalar kind j.firstToken = .ok (some v)) (hc : CanonicalScalar kind j) :
    WrittenAs encoders (.scalar kind) v j := by
  cases kind with
  | string =>
      cases j with
      | string s =>
          cases hv
          refine ⟨_, .string s, fun p hp path => ?_⟩
          obtain rfl := Plan.mapRef_eq_scalar hp
          rfl
      | _ => cases hc
  | boolean =>
      cases j with
      | bool b =>
          cases hv
          refine ⟨_, .boolean b, fun p hp path => ?_⟩
          obtain rfl := Plan.mapRef_eq_scalar hp
          rfl
      | _ => cases hc
  | int =>
      cases j with
      | number n =>
          obtain ⟨i, hi⟩ := hc
          obtain ⟨k, hk, rfl⟩ := Option.map_eq_some_iff.1 (Except.ok.inj hv)
          rw [hi] at hk
          refine writtenAs_number fun path => ?_
          show (⟨[.number (intText k.toInt)], none⟩ : Written) = _
          rw [intText_of_readInt32? hk, hi]
      | _ => cases hc
  | long =>
      cases j with
      | number n =>
          obtain ⟨i, hi⟩ := hc
          obtain ⟨k, hk, rfl⟩ := Option.map_eq_some_iff.1 (Except.ok.inj hv)
          rw [hi] at hk
          refine writtenAs_number fun path => ?_
          show (⟨[.number (intText k.toInt)], none⟩ : Written) = _
          rw [intText_of_readInt64? hk, hi]
      | _ => cases hc
  | decimal =>
      cases j with
      | number n =>
          obtain ⟨d, hd, htext⟩ := hc
          simp only [Json.firstToken, readScalar, readScalar.decimal, hd] at hv
          obtain rfl := Option.some.inj (Except.ok.inj hv)
          refine writtenAs_number fun path => ?_
          show (if d.isWritable then _ else _) = _
          rw [if_pos (Decimal.isWritable_of_plain (Numeral.plain_of_read hd)), htext]
      | _ => cases hc

/-! ### Rows of members -/

/-- Members with the entries of a sorted object spell it, in whatever order they come. -/
theorem spells_members {entries : List (String × Json)} (hs : Entries.Sorted entries)
    {members : List Member}
    (hm : ∀ m ∈ members, ∃ j, Entries.get? m.1 entries = some j ∧ Spells m.2 j)
    {held : List (String × Json)} (hh : Entries.Sorted held)
    (hothers : ∀ key, key ∉ members.map Prod.fst →
      Entries.get? key held = Entries.get? key entries) :
    SpellsEntries held (memberTokens members ++ [.endObject]) entries := by
  induction members generalizing held with
  | nil =>
      obtain rfl := Entries.ext_of_sorted hh hs fun key => hothers key List.not_mem_nil
      exact .nil
  | cons m members ih =>
      obtain ⟨key, ts⟩ := m
      obtain ⟨⟨j, hj, hspells⟩, hm⟩ := List.forall_mem_cons.1 hm
      rw [memberTokens, List.cons_append, List.append_assoc]
      refine .cons hspells (ih hm (Entries.sorted_put _ _ hh) fun k hk => ?_)
      by_cases hkey : key = k
      · rw [← hkey, Entries.get?_put_self, hj]
      · rw [Entries.get?_put_of_ne hkey]
        refine hothers k fun hmem => ?_
        rcases List.mem_cons.1 hmem with heq | hmem
        · exact hkey heq.symm
        · exact hk hmem

theorem written_items {item : Plan QualifiedName} {items : List Json} {values : List Value}
    (hlength : items.length = values.length)
    (h : ∀ (i : Nat) (j : Json) (v : Value), items[i]? = some j → values[i]? = some v →
      WrittenAs encoders item v j) :
    ∃ ts, SpellsItems (ts ++ [.endArray]) items ∧
      ∀ p : Plan CodecRef, p.mapRef CodecRef.record = item → ∀ path i,
        writeItems p path i (itemWriters encoders values) = ⟨ts, none⟩ := by
  induction items generalizing values with
  | nil =>
      obtain rfl := List.eq_nil_of_length_eq_zero hlength.symm
      exact ⟨[], .nil, fun _ _ _ _ => rfl⟩
  | cons j items ih =>
      cases values with
      | nil => cases hlength
      | cons v values =>
          obtain ⟨ts, hts, hwrites⟩ := h 0 j v rfl rfl
          obtain ⟨us, hus, hwrites'⟩ :=
            ih (Nat.succ.inj hlength) fun i j v hj hv => h (i + 1) j v hj hv
          refine ⟨ts ++ us, ?_, fun p hp path i => ?_⟩
          · rw [List.append_assoc]
            exact .cons hts hus
          · rw [itemWriters, writeItems, hwrites p hp, Written.andThen_done, hwrites' p hp]

theorem written_entries {value : Plan QualifiedName} {entries : List (String × Json)}
    {values : List (String × Value)}
    (h : ∀ q ∈ values, ∃ j, Entries.get? q.1 entries = some j ∧
      WrittenAs encoders value q.2 j) :
    ∃ members : List Member, members.map Prod.fst = Entries.keys values ∧
      (∀ m ∈ members, ∃ j, Entries.get? m.1 entries = some j ∧ Spells m.2 j) ∧
      ∀ p : Plan CodecRef, p.mapRef CodecRef.record = value → ∀ path,
        writeEntries p path (entryWriters encoders values) = ⟨memberTokens members, none⟩ := by
  induction values with
  | nil => exact ⟨[], rfl, nofun, fun _ _ _ => rfl⟩
  | cons q values ih =>
      obtain ⟨key, v⟩ := q
      obtain ⟨⟨j, hj, ts, hts, hwrites⟩, hvalues⟩ := List.forall_mem_cons.1 h
      obtain ⟨members, hkeys, hspells, hwrites'⟩ := ih hvalues
      refine ⟨(key, ts) :: members, congrArg (key :: ·) hkeys,
        List.forall_mem_cons.2 ⟨⟨j, hj, hts⟩, hspells⟩, fun p hp path => ?_⟩
      rw [entryWriters, writeEntries, Written.andThen_done, hwrites p hp, Written.andThen_done,
        hwrites' p hp]
      rfl

theorem written_fields {fields : List RecordField} {entries : List (String × Json)}
    {values : List (String × Value)}
    (h : ∀ f ∈ fields, ∃ j v, Entries.get? f.wireKey entries = some j ∧
      Entries.get? f.name values = some v ∧ WrittenAs encoders f.plan v j) :
    ∃ members : List Member, members.map Prod.fst = fields.map (·.wireKey) ∧
      (∀ m ∈ members, ∃ j, Entries.get? m.1 entries = some j ∧ Spells m.2 j) ∧
      ∀ path, writeFields path (entryWriters encoders values)
        (fields.map RecordField.encodeField) = ⟨memberTokens members, none⟩ := by
  induction fields with
  | nil => exact ⟨[], rfl, nofun, fun _ => rfl⟩
  | cons f fields ih =>
      obtain ⟨⟨j, v, hj, hv, ts, hts, hwrites⟩, hfields⟩ := List.forall_mem_cons.1 h
      obtain ⟨members, hkeys, hspells, hwrites'⟩ := ih hfields
      refine ⟨(f.wireKey, ts) :: members, congrArg (f.wireKey :: ·) hkeys,
        List.forall_mem_cons.2 ⟨⟨j, hj, hts⟩, hspells⟩, fun path => ?_⟩
      rw [List.map_cons, writeFields, Written.andThen_done, RecordField.field_encodeField,
        writers_get? hv]
      simp only [hwrites _ f.mapRef_encodeField, Written.andThen_done, hwrites']
      rfl

/-- The entries of a map are written as members that spell the object that means them. -/
theorem written_map {value : Plan QualifiedName} {entries : List (String × Json)}
    {values : List (String × Value)} (hs : Entries.Sorted entries)
    (habsent : ∀ key, Entries.get? key entries = none ↔ Entries.get? key values = none)
    (h : ∀ q ∈ values, ∃ j, Entries.get? q.1 entries = some j ∧
      WrittenAs encoders value q.2 j) :
    WrittenAs encoders (.map value) (.map values) (.object entries) := by
  obtain ⟨members, hkeys, hspells, hwrites⟩ := written_entries h
  refine ⟨_, .object (spells_members hs hspells .nil fun key hkey => ?_), fun p hp path => ?_⟩
  · rw [hkeys, ← Entries.get?_eq_none_iff, ← habsent] at hkey
    rw [Entries.get?_nil, hkey]
  · obtain ⟨p, rfl, hpart⟩ := Plan.mapRef_eq_map hp
    rw [encodeValue, hwrites p hpart, between_done]

/-! ### Canonical documents are written again -/

section

variable {decoders : QualifiedName → Option Decoder} {methods : MethodTable}
  (hg : Generates kinds decoders encoders methods)
  (hw : ∀ name fields, kinds name = some fields → (fields.map (·.wireKey)).Nodup)

include hg

/-- The fields of a record are written as members that spell the object that means them. -/
theorem written_record {name : QualifiedName} {fields : List RecordField}
    (hk : kinds name = some fields) {entries : List (String × Json)}
    {values : List (String × Value)} (hs : Entries.Sorted entries)
    (hkeys : ∀ key, key ∈ Entries.keys entries ↔ key ∈ fields.map (·.wireKey))
    (h : ∀ f ∈ fields, ∃ j v, Entries.get? f.wireKey entries = some j ∧
      Entries.get? f.name values = some v ∧ WrittenAs encoders f.plan v j) :
    ∃ encoder ts, encoders name = some encoder ∧ Spells ts (.object entries) ∧
      ∀ path, between .startObject .endObject
        (writeFields path (entryWriters encoders values) encoder.fields) = ⟨ts, none⟩ := by
  obtain ⟨encoder, henc, he⟩ := hg.encoder_of_kind hk
  obtain ⟨members, hnames, hspells, hwrites⟩ := written_fields h
  refine ⟨encoder, _, henc, .object (spells_members hs hspells .nil fun key hkey => ?_),
    fun path => ?_⟩
  · rw [hnames, ← hkeys] at hkey
    rw [Entries.get?_nil, Entries.get?_eq_none_iff.2 hkey]
  · rw [he, hwrites, between_done]

include hw

theorem Means.written {plan : Plan QualifiedName} {j : Json} {v : Value}
    (h : Means kinds plan j v) (hc : Canonical kinds plan j) (hj : j.Ordered) :
    WrittenAs encoders plan v j := by
  induction h with
  | null => exact ⟨_, .null, fun _ _ _ => rfl⟩
  | scalar hv =>
      cases hc with
      | null => exact absurd hv readScalar_null
      | scalar hc => exact written_scalar hv hc
  | list hlength _ ih =>
      cases hc with
      | list hitems =>
          cases hj with
          | array hordered =>
              obtain ⟨ts, hts, hwrites⟩ := written_items hlength fun i j v hj hv => by
                have hmem := List.mem_of_getElem? hj
                exact ih i j v hj hv (hitems j hmem) (hordered j hmem)
              refine ⟨_, .array hts, fun p hp path => ?_⟩
              obtain ⟨p, rfl, hpart⟩ := Plan.mapRef_eq_list hp
              rw [encodeValue, hwrites p hpart, between_done]
  | @map value entries values hsorted habsent _ ih =>
      cases hc with
      | map hentries =>
          cases hj with
          | object hs hordered =>
              refine written_map hs habsent fun q hq => ?_
              have hv := Entries.get?_of_mem hsorted hq
              cases hj : Entries.get? q.1 entries with
              | none =>
                  rw [(habsent q.1).1 hj] at hv
                  cases hv
              | some j =>
                  have hmem := Entries.mem_of_get? hj
                  exact ⟨j, rfl, ih q.1 j q.2 hj hv (hentries _ hmem) (hordered _ hmem)⟩
  | document hne =>
      refine ⟨_, Json.spells_tokens hj, fun p hp path => ?_⟩
      obtain rfl := Plan.mapRef_eq_document hp
      rfl
  | @record name fields entries values hk hcomplete _ _ ih =>
      cases hc with
      | @record _ fields' _ hk' hkeys hentries =>
          obtain rfl := Option.some.inj (hk.symm.trans hk')
          cases hj with
          | object hs hordered =>
              have hfields : ∀ f ∈ fields, ∃ j v, Entries.get? f.wireKey entries = some j ∧
                  Entries.get? f.name values = some v ∧ WrittenAs encoders f.plan v j := by
                intro f hf
                obtain ⟨j, hj⟩ := Entries.mem_keys_iff.1
                  ((hkeys f.wireKey).2 (List.mem_map_of_mem hf))
                obtain ⟨v, hv⟩ := hcomplete.exists_value hf
                have hfirst := find?_key_of_nodup (hw name fields hk) hf
                have hmember : memberFor? fields f entries = some j := by
                  rw [memberFor?, if_pos hfirst, hj]
                have hmem := Entries.mem_of_get? hj
                exact ⟨j, v, hj, hv,
                  ih f hf j v hmember hv (hentries _ hmem f hfirst) (hordered _ hmem)⟩
              obtain ⟨encoder, ts, henc, hspells, hwrites⟩ :=
                written_record hg hk hs hkeys hfields
              refine ⟨ts, hspells, fun p hp path => ?_⟩
              obtain ⟨ref, rfl, rfl⟩ := Plan.mapRef_eq_record hp
              rw [encodeValue, if_pos rfl, henc]
              exact hwrites path

end

/-! ### Values have canonical documents -/

theorem exists_canonicalScalar {kind : ScalarKind} {v : Value} (h : ExactScalar kind v) :
    ∃ j : Json, readScalar kind j.firstToken = .ok (some v) ∧ CanonicalScalar kind j ∧
      j.Ordered := by
  cases h with
  | string s => exact ⟨.string s, rfl, trivial, .string s⟩
  | boolean b => exact ⟨.bool b, rfl, trivial, .bool b⟩
  | int i =>
      obtain ⟨n, hn⟩ := Numeral.exists_intText i.toInt
      refine ⟨.number n, ?_, ⟨_, hn⟩, .number n⟩
      simp only [Json.firstToken, readScalar, hn, Text.readInt32?_intText, Option.map_some]
  | long i =>
      obtain ⟨n, hn⟩ := Numeral.exists_intText i.toInt
      refine ⟨.number n, ?_, ⟨_, hn⟩, .number n⟩
      simp only [Json.firstToken, readScalar, hn, Text.readInt64?_intText, Option.map_some]
  | @decimal d hd =>
      obtain ⟨n, hn⟩ := hd.plain.exists_numeral
      have hread := Decimal.read_text hd.plain
      refine ⟨.number n, ?_, ⟨d, hn ▸ hread, hn.symm⟩, .number n⟩
      simp only [Json.firstToken, readScalar, readScalar.decimal, hn, hread]

theorem exists_items {P : Value → Json → Prop} {values : List Value}
    (h : ∀ v ∈ values, ∃ j, P v j) :
    ∃ items : List Json, items.length = values.length ∧
      ∀ (i : Nat) (j : Json) (v : Value), items[i]? = some j → values[i]? = some v → P v j := by
  induction values with
  | nil => exact ⟨[], rfl, nofun⟩
  | cons v values ih =>
      obtain ⟨⟨j, hj⟩, hvalues⟩ := List.forall_mem_cons.1 h
      obtain ⟨items, hlength, hitems⟩ := ih hvalues
      refine ⟨j :: items, congrArg Nat.succ hlength, fun i j' v' hj' hv' => ?_⟩
      cases i with
      | zero =>
          cases hj'
          cases hv'
          exact hj
      | succ i => exact hitems i j' v' hj' hv'

/-- The object has one entry for each member of a list, and no other. -/
structure Gathers {α : Type} (key : α → String) (P : α → Json → Prop) (xs : List α)
    (entries : List (String × Json)) : Prop where
  sorted : Entries.Sorted entries
  keys : ∀ k, k ∈ Entries.keys entries ↔ k ∈ xs.map key
  entry : ∀ x ∈ xs, ∃ j, Entries.get? (key x) entries = some j ∧ P x j

theorem Gathers.exists_of_mem {α : Type} {key : α → String} {P : α → Json → Prop} {xs : List α}
    {entries : List (String × Json)} (h : Gathers key P xs entries) {p : String × Json}
    (hp : p ∈ entries) : ∃ x ∈ xs, key x = p.1 ∧ P x p.2 := by
  have hget := Entries.get?_of_mem h.sorted hp
  obtain ⟨x, hx, hkey⟩ := List.mem_map.1 ((h.keys p.1).1 (Entries.mem_keys_iff.2 ⟨_, hget⟩))
  obtain ⟨j, hj, hP⟩ := h.entry x hx
  rw [hkey, hget] at hj
  obtain rfl := Option.some.inj hj
  exact ⟨x, hx, hkey, hP⟩

theorem exists_gathers {α : Type} (key : α → String) {P : α → Json → Prop} {xs : List α}
    (hn : (xs.map key).Nodup) (h : ∀ x ∈ xs, ∃ j, P x j) : ∃ entries, Gathers key P xs entries := by
  induction xs with
  | nil => exact ⟨[], .nil, fun _ => Iff.rfl, nofun⟩
  | cons x xs ih =>
      obtain ⟨hfresh, hn⟩ := List.nodup_cons.1 hn
      obtain ⟨⟨j, hj⟩, hxs⟩ := List.forall_mem_cons.1 h
      obtain ⟨entries, hentries⟩ := ih hn hxs
      refine ⟨Entries.put (key x) j entries, Entries.sorted_put _ _ hentries.sorted,
        fun k => ?_, ?_⟩
      · rw [Entries.mem_keys_put, hentries.keys, List.map_cons, List.mem_cons]
      · refine List.forall_mem_cons.2 ⟨⟨j, Entries.get?_put_self _ _ _, hj⟩, fun y hy => ?_⟩
        -- the later keys are different from this one
        have hne : key x ≠ key y := fun heq => hfresh (heq ▸ List.mem_map_of_mem hy)
        rw [Entries.get?_put_of_ne hne]
        exact hentries.entry y hy

/-- A canonical document in key order that means the value. -/
structure CanonicallyMeans (kinds : Kinds) (plan : Plan QualifiedName) (v : Value) (j : Json) :
    Prop where
  means : Means kinds plan j v
  canonical : Canonical kinds plan j
  ordered : j.Ordered

theorem canonicallyMeans_list {item : Plan QualifiedName} {values : List Value}
    {items : List Json} (hlength : items.length = values.length)
    (h : ∀ (i : Nat) (j : Json) (v : Value), items[i]? = some j → values[i]? = some v →
      CanonicallyMeans kinds item v j) :
    CanonicallyMeans kinds (.list item) (.list values) (.array items) := by
  have hmem : ∀ j ∈ items, ∃ v, CanonicallyMeans kinds item v j := by
    intro j hj
    obtain ⟨i, hi, rfl⟩ := List.mem_iff_getElem.1 hj
    exact ⟨_, h i _ _ (List.getElem?_eq_getElem hi) (List.getElem?_eq_getElem (hlength ▸ hi))⟩
  refine ⟨.list hlength fun i j v hj hv => (h i j v hj hv).means, .list fun j hj => ?_,
    .array fun j hj => ?_⟩
  · obtain ⟨v, hv⟩ := hmem j hj
    exact hv.canonical
  · obtain ⟨v, hv⟩ := hmem j hj
    exact hv.ordered

theorem Gathers.canonicallyMeans_map {value : Plan QualifiedName} {values : List (String × Value)}
    {entries : List (String × Json)}
    (h : Gathers Prod.fst (fun q j => CanonicallyMeans kinds value q.2 j) values entries)
    (hsorted : Entries.Sorted values) :
    CanonicallyMeans kinds (.map value) (.map values) (.object entries) := by
  refine ⟨.map hsorted (fun key => ?_) fun key j v hj hv => ?_, .map fun p hp => ?_,
    .object h.sorted fun p hp => ?_⟩
  · rw [Entries.get?_eq_none_iff, Entries.get?_eq_none_iff, h.keys]
    rfl
  · obtain ⟨j', hj', hmeans⟩ := h.entry (key, v) (Entries.mem_of_get? hv)
    obtain rfl := Option.some.inj (hj.symm.trans hj')
    exact hmeans.means
  · obtain ⟨q, _, _, hq⟩ := h.exists_of_mem hp
    exact hq.canonical
  · obtain ⟨q, _, _, hq⟩ := h.exists_of_mem hp
    exact hq.ordered

theorem Gathers.canonicallyMeans_record {name : QualifiedName} {fields : List RecordField}
    {values : List (String × Value)} {entries : List (String × Json)}
    (h : Gathers (·.wireKey) (fun f j => ∃ v, Entries.get? f.name values = some v ∧
      CanonicallyMeans kinds f.plan v j) fields entries)
    (hk : kinds name = some fields) (hn : (fields.map (·.wireKey)).Nodup)
    (hcomplete : Complete fields values) :
    CanonicallyMeans kinds (.record name) (.record name values) (.object entries) := by
  have hmember : ∀ f ∈ fields, ∃ j v, memberFor? fields f entries = some j ∧
      Entries.get? f.name values = some v ∧ CanonicallyMeans kinds f.plan v j := by
    intro f hf
    obtain ⟨j, hj, v, hv, hmeans⟩ := h.entry f hf
    exact ⟨j, v, by rw [memberFor?, if_pos (find?_key_of_nodup hn hf), hj], hv, hmeans⟩
  refine ⟨.record hk hcomplete (fun f hf hnone => ?_) fun f hf j v hj hv => ?_,
    .record hk h.keys fun p hp f hf => ?_, .object h.sorted fun p hp => ?_⟩
  · obtain ⟨j, v, hj, _⟩ := hmember f hf
    rw [hnone] at hj
    cases hj
  · obtain ⟨j', v', hj', hv', hmeans⟩ := hmember f hf
    obtain rfl := Option.some.inj (hj.symm.trans hj')
    obtain rfl := Option.some.inj (hv.symm.trans hv')
    exact hmeans.means
  · obtain ⟨g, hg, hkey, v, _, hv⟩ := h.exists_of_mem hp
    rw [← hkey, find?_key_of_nodup hn hg] at hf
    obtain rfl := Option.some.inj hf
    exact hv.canonical
  · obtain ⟨g, _, _, v, _, hv⟩ := h.exists_of_mem hp
    exact hv.ordered

/-- Every value of exactly the declared type is meant by a canonical document. -/
theorem Shaped.exists_canonical
    (hw : ∀ name fields, kinds name = some fields → (fields.map (·.wireKey)).Nodup)
    {plan : Plan QualifiedName} {v : Value} (h : Shaped kinds exactLeaves plan v) :
    ∃ j, CanonicallyMeans kinds plan v j := by
  induction h with
  | null => exact ⟨.null, .null, .null, .null⟩
  | scalar hv =>
      obtain ⟨j, hj, hc, hordered⟩ := exists_canonicalScalar hv
      exact ⟨j, .scalar hj, .scalar hc, hordered⟩
  | list _ ih =>
      obtain ⟨items, hlength, hitems⟩ := exists_items ih
      exact ⟨.array items, canonicallyMeans_list hlength hitems⟩
  | map hsorted _ ih =>
      have hn := (Entries.pairwise_keys hsorted).imp fun hlt => Std.ne_of_lt hlt
      obtain ⟨entries, hentries⟩ := exists_gathers Prod.fst hn ih
      exact ⟨.object entries, hentries.canonicallyMeans_map hsorted⟩
  | document hv =>
      obtain ⟨j, rfl, hne, hordered⟩ := hv
      exact ⟨j, .document hne, .document j, hordered⟩
  | @record name fields values hk hcomplete _ ih =>
      have hvalues : ∀ f ∈ fields, ∃ j, ∃ v, Entries.get? f.name values = some v ∧
          CanonicallyMeans kinds f.plan v j := by
        intro f hf
        obtain ⟨v, hv⟩ := hcomplete.exists_value hf
        obtain ⟨j, hj⟩ := ih f hf v hv
        exact ⟨j, v, hv, hj⟩
      obtain ⟨entries, hentries⟩ := exists_gathers (·.wireKey) (hw name fields hk) hvalues
      exact ⟨.object entries, hentries.canonicallyMeans_record hk (hw name fields hk) hcomplete⟩

end

/-! ### Catalogs -/

theorem Token.toJson_of_spells {ts : List Token} {j : Json} (h : Spells ts j) :
    toJson ts = .ok j := by
  have hgives := h.gives .empty []
  rw [List.append_nil] at hgives
  obtain ⟨_, hread⟩ := gives_iff.1 hgives
  rw [toJson, hread]

/-- A record is encoded as the document that it is written as. -/
theorem Catalog.encodeJson_of_writtenAs {catalog : Catalog} {r : Record} {encoder : Encoder}
    (he : catalog.encoder? r.name = some encoder) {j : Json}
    (h : WrittenAs catalog.encoder? (.record r.name) r.toValue j) :
    catalog.encodeJson r = .ok j := by
  obtain ⟨ts, hspells, hwrites⟩ := h
  have hwritten := hwrites (.record ⟨r.name, encoder.name⟩) rfl (.root r.name.name)
  rw [Record.toValue, encodeValue, if_pos rfl, he] at hwritten
  have hencode : catalog.encode r = ⟨ts, none⟩ := by
    rw [encode, encodeRecord, he]
    exact hwritten
  rw [encodeJson, hencode]
  exact Token.toJson_of_spells hspells

/-- Encoding and decoding are inverse to each other between the records of exactly the declared
types and the canonical documents. -/
structure Catalog.RoundTrips (catalog : Catalog) : Prop where
  returns : ∀ r : Record, r.Shaped catalog.kinds exactLeaves →
    ∃ j, catalog.encodeJson r = .ok j ∧ Canonical catalog.kinds (.record r.name) j ∧ j.Ordered ∧
      ∀ spelling, catalog.resolve? spelling = some r.name → catalog.decodeJson spelling j = .ok r
  restores : ∀ spelling name, catalog.resolve? spelling = some name → ∀ (j : Json) (r : Record),
    Canonical catalog.kinds (.record name) j → j.Ordered → catalog.decodeJson spelling j = .ok r →
      catalog.encodeJson r = .ok j
  /-- Every record can be asked for. -/
  resolves : ∀ e ∈ catalog.entries, catalog.resolve? e.name.text = some e.name

/-- In a catalog whose records have different wire keys each, records come back from the documents
that they are encoded as, and canonical documents from the records that they are decoded as. -/
theorem Forest.compile_roundTrips (settings : Settings) (forest : Forest) :
    ∀ catalog, forest.compile settings = .ok catalog →
      (∀ e ∈ catalog.entries, (e.definition.fields.map (·.wireKey)).Nodup) →
        catalog.RoundTrips := by
  intro catalog h hkeys
  have hg := generates_of_compile h
  have hw : ∀ name fields, catalog.kinds name = some fields →
      (fields.map (·.wireKey)).Nodup := by
    intro name fields hk
    obtain ⟨e, he, rfl⟩ := Option.map_eq_some_iff.1 hk
    exact hkeys e (Catalog.entry?_eq_some he).1
  have hencode : ∀ (r : Record) (j : Json), Means catalog.kinds (.record r.name) j r.toValue →
      Canonical catalog.kinds (.record r.name) j → j.Ordered → catalog.encodeJson r = .ok j := by
    intro r j hmeans hc hj
    have hwritten := hmeans.written hg hw hc hj
    cases hmeans with
    | record hk =>
        obtain ⟨encoder, he, _⟩ := hg.encoder_of_kind hk
        exact Catalog.encodeJson_of_writtenAs he hwritten
  constructor
  case returns =>
    intro r hr
    obtain ⟨j, hmeans, hc, hj⟩ := Shaped.exists_canonical hw hr
    exact ⟨j, hencode r j hmeans hc hj, hc, hj,
      fun spelling hs => (decodeJson_iff_means h hs hj).2 hmeans⟩
  case restores =>
    intro spelling name hs j r hc hj hr
    have hmeans := (decodeJson_iff_means h hs hj).1 hr
    obtain rfl : r.name = name := by
      obtain ⟨rname, fields⟩ := r
      cases hmeans
      rfl
    exact hencode r j hmeans hc hj
  case resolves => exact fun e he => Catalog.resolve?_text (fun _ => scope_of_compile h) he

theorem Forest.tree_resolves : ∃ catalog, tree.compile {} = .ok catalog ∧
    (catalog.entries.all (fun e => decide (e.definition.fields.map (·.wireKey)).Nodup) &&
      (decide (catalog.resolve? "Node" = some ⟨"generated.model", "Node"⟩) &&
      (catalog.kinds ⟨"generated.model", "Node"⟩).any fun fields =>
        decide (fields.map (fun f => (f.name, f.plan)) =
          [("amount", .scalar .decimal),
            ("children", .list (.record ⟨"generated.model", "Node"⟩))]))) = true :=
  exists_catalog (by decide +kernel)

/-- Seven with nothing below it comes back from its document. -/
theorem Forest.tree_roundTrips : ∃ catalog, tree.compile {} = .ok catalog ∧
    (∀ e ∈ catalog.entries, (e.definition.fields.map (·.wireKey)).Nodup) ∧
    ∃ j, catalog.encodeJson (.treeNode (.decimal (.ofInt 7)) []) = .ok j ∧
      catalog.decodeJson "Node" j = .ok (.treeNode (.decimal (.ofInt 7)) []) := by
  obtain ⟨catalog, hc, htest⟩ := tree_resolves
  obtain ⟨hkeys, htest⟩ := Bool.and_eq_true_iff.1 htest
  obtain ⟨hname, hkind⟩ := Bool.and_eq_true_iff.1 htest
  have hw : ∀ e ∈ catalog.entries, (e.definition.fields.map (·.wireKey)).Nodup :=
    fun e he => of_decide_eq_true (List.all_eq_true.1 hkeys e he)
  obtain ⟨fields, hk, hplans⟩ := (Option.any_eq_true _ _).1 hkind
  have hseven : (Record.treeNode (.decimal (.ofInt 7)) []).Shaped catalog.kinds exactLeaves :=
    Record.shaped_treeNode hk (of_decide_eq_true hplans) rfl
      (ExactScalar.decimal (.inr ⟨7, rfl⟩)) nofun
  obtain ⟨j, hj, _, _, hback⟩ := (compile_roundTrips {} tree catalog hc hw).returns _ hseven
  exact ⟨catalog, hc, hw, j, hj, hback "Node" (of_decide_eq_true hname)⟩

end RecordCodec
