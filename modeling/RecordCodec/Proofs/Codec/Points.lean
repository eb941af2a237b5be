import RecordCodec.Proofs.Record.Comparison
import RecordCodec.Proofs.Record.Decoded

/-!
Where writing fails. Values of the declared type are written part by part, and the only part that
cannot be written is a decimal whose point falls inside a character. So writing comes to an end
with this error exactly when such a decimal is somewhere in the value.
-/

namespace RecordCodec

/-- What comes of writing something: all of it is written when it is writable, and the point of a
decimal inside a character is in the way when it is not. -/
inductive Outcome (w : Written) : Bool → Prop
  | written : w.error = none → Outcome w true
  | stuck {digits : String} : w.error = some (.pointInsideCharacter digits) → Outcome w false

namespace Outcome

theorem done (ts : List Token) : Outcome ⟨ts, none⟩ true := .written rfl

theorem andThen {a : Written} {b : Unit → Written} {x y : Bool} (ha : Outcome a x)
    (hb : Outcome (b ()) y) : Outcome (a.andThen b) (x && y) := by
  obtain ⟨ts, e⟩ := a
  cases ha with
  | written h =>
      obtain rfl : e = none := h
      cases hb with
      | written h => exact .written h
      | stuck h => exact .stuck h
  | @stuck digits h =>
      obtain rfl : e = some (.pointInsideCharacter digits) := h
      exact .stuck rfl

theorem between {w : Written} {x : Bool} (h : Outcome w x) (opening closing : Token) :
    Outcome (between opening closing w) x := by
  cases h with
  | written h => exact .written (between_error.trans h)
  | stuck h => exact .stuck (between_error.trans h)

/-- Writing succeeds exactly when everything is writable. -/
theorem error_eq_none_iff {w : Written} {x : Bool} (h : Outcome w x) :
    w.error = none ↔ x = true := by
  cases h with
  | written h => exact ⟨fun _ => rfl, fun _ => h⟩
  | stuck h =>
      rw [h]
      exact ⟨nofun, nofun⟩

theorem error_eq_some {w : Written} {x : Bool} (h : Outcome w x) {e : Error}
    (he : w.error = some e) : ∃ digits, e = .pointInsideCharacter digits := by
  cases h with
  | written h =>
      rw [h] at he
      cases he
  | @stuck digits h =>
      rw [h] at he
      exact ⟨digits, (Option.some.inj he).symm⟩

end Outcome

/-! ### Parts -/

section

variable {encoders : QualifiedName → Option Encoder} {path : Path}

theorem outcome_writeScalar {kind : ScalarKind} {v : Value} (h : DeclaredScalar kind v) :
    Outcome (writeScalar kind path v) v.isWritable := by
  cases h with
  | decimal d =>
      show Outcome (if d.isWritable then _ else _) d.isWritable
      cases d.isWritable with
      | true => exact .written rfl
      | false => exact .stuck rfl
  | _ => exact .written rfl

theorem DeclaredScalar.ne_null {kind : ScalarKind} {v : Value} (h : DeclaredScalar kind v) :
    v ≠ .null := by
  cases h <;> exact nofun

theorem outcome_writeItems {item : Plan CodecRef} {items : List Value}
    (h : ∀ v ∈ items, ∀ path, Outcome (encodeValue encoders v item path) v.isWritable) (i : Nat) :
    Outcome (writeItems item path i (itemWriters encoders items)) (Value.itemsWritable items) := by
  induction items generalizing i with
  | nil => exact .done []
  | cons v items ih =>
      obtain ⟨hv, hitems⟩ := List.forall_mem_cons.1 h
      exact (hv _).andThen (ih hitems (i + 1))

theorem outcome_writeEntries {value : Plan CodecRef} {entries : List (String × Value)}
    (h : ∀ p ∈ entries, ∀ path, Outcome (encodeValue encoders p.2 value path) p.2.isWritable) :
    Outcome (writeEntries value path (entryWriters encoders entries))
      (Value.entriesWritable entries) := by
  induction entries with
  | nil => exact .done []
  | cons p entries ih =>
      obtain ⟨hp, hentries⟩ := List.forall_mem_cons.1 h
      exact (Outcome.done _).andThen ((hp _).andThen (ih hentries))

theorem outcome_writeFields {fields : List RecordField} {entries : List (String × Value)}
    (h : ∀ f ∈ fields, ∀ v, Entries.get? f.name entries = some v →
      ∀ path, Outcome (encodeValue encoders v f.encodeField.plan path) v.isWritable) :
    Outcome (writeFields path (entryWriters encoders entries)
        (fields.map RecordField.encodeField))
      (fields.all fun f => (Entries.getD f.name entries).isWritable) := by
  induction fields with
  | nil => exact .done []
  | cons f fields ih =>
      obtain ⟨hf, hfields⟩ := List.forall_mem_cons.1 h
      refine (Outcome.done _).andThen (Outcome.andThen ?_ (ih hfields))
      rw [RecordField.field_encodeField]
      -- A missing field is written as null, and null is writable.
      show Outcome _ ((Entries.get? f.name entries).getD .null).isWritable
      cases hv : Entries.get? f.name entries with
      | none =>
          rw [Entries.get?_eq_none_iff] at hv
          rw [Entries.get?_eq_none_iff.2]
          · exact .done _
          · rw [entryWriters_eq_map, Entries.keys, List.map_map]
            exact hv
      | some v =>
          rw [writers_get? hv]
          exact hf v hv _

end

/-! ### Records -/

theorem entriesWritable_iff {entries : List (String × Value)} :
    Value.entriesWritable entries = true ↔ ∀ p ∈ entries, p.2.isWritable = true := by
  induction entries with
  | nil => exact ⟨fun _ _ hp => absurd hp List.not_mem_nil, fun _ => rfl⟩
  | cons p entries ih =>
      rw [List.forall_mem_cons, ← ih]
      exact Bool.and_eq_true_iff

theorem itemsWritable_iff {items : List Value} :
    Value.itemsWritable items = true ↔ ∀ v ∈ items, v.isWritable = true := by
  induction items with
  | nil => exact ⟨fun _ _ hv => absurd hv List.not_mem_nil, fun _ => rfl⟩
  | cons v items ih =>
      rw [List.forall_mem_cons, ← ih]
      exact Bool.and_eq_true_iff

/-- A record is writable when its declared fields are. -/
theorem Complete.all_isWritable {fields : List RecordField} {entries : List (String × Value)}
    (h : Complete fields entries) :
    (fields.all fun f => (Entries.getD f.name entries).isWritable) =
      Value.entriesWritable entries := by
  rw [Bool.eq_iff_iff, List.all_eq_true, entriesWritable_iff]
  constructor
  · intro hall p hp
    have hkey : p.1 ∈ fields.map (·.name) := (h.keys p.1).1 (List.mem_map_of_mem hp)
    obtain ⟨f, hf, hname⟩ := List.mem_map.1 hkey
    have hf := hall f hf
    rw [hname, Entries.getD, Entries.get?_of_mem h.sorted hp] at hf
    exact hf
  · intro hall f hf
    obtain ⟨v, hv⟩ := h.exists_value hf
    rw [Entries.getD, hv]
    exact hall _ (Entries.mem_of_get? hv)

section

variable {kinds : Kinds} {decoders : QualifiedName → Option Decoder}
  {encoders : QualifiedName → Option Encoder} {methods : MethodTable}

theorem outcome_of_fields (hg : Generates kinds decoders encoders methods) {name : QualifiedName}
    {fields : List RecordField} {entries : List (String × Value)}
    (hk : kinds name = some fields) (hc : Complete fields entries)
    (h : ∀ f ∈ fields, ∀ v, Entries.get? f.name entries = some v →
      ∀ path, Outcome (encodeValue encoders v f.encodeField.plan path) v.isWritable) :
    ∃ encoder, encoders name = some encoder ∧ ∀ path,
      Outcome (writeFields path (entryWriters encoders entries) encoder.fields)
        (Value.entriesWritable entries) := by
  obtain ⟨encoder, henc, he⟩ := hg.encoder_of_kind hk
  refine ⟨encoder, henc, fun path => ?_⟩
  rw [he, ← hc.all_isWritable]
  exact outcome_writeFields h

/-- Writing a value of the declared type fails at a point inside a character only. -/
theorem outcome_encodeValue (hg : Generates kinds decoders encoders methods)
    {plan : Plan QualifiedName} {v : Value} (h : Shaped kinds declaredLeaves plan v) :
    ∀ p : Plan CodecRef, p.mapRef CodecRef.record = plan →
      ∀ path, Outcome (encodeValue encoders v p path) v.isWritable := by
  induction h with
  | null => exact fun _ _ _ => .written rfl
  | scalar hv =>
      intro p hp path
      obtain rfl := Plan.mapRef_eq_scalar hp
      rw [encodeValue_scalar (DeclaredScalar.ne_null hv)]
      exact outcome_writeScalar hv
  | list _ ih =>
      intro p hp path
      obtain ⟨item, rfl, hitem⟩ := Plan.mapRef_eq_list hp
      exact (outcome_writeItems (fun v hv => ih v hv item hitem) 0).between _ _
  | map _ _ ih =>
      intro p hp path
      obtain ⟨value, rfl, hvalue⟩ := Plan.mapRef_eq_map hp
      exact (outcome_writeEntries fun q hq => ih q hq value hvalue).between _ _
  | document hv =>
      intro p hp path
      obtain rfl := Plan.mapRef_eq_document hp
      obtain ⟨json, rfl, _⟩ := hv
      exact .written rfl
  | @record name fields entries hk hc _ ih =>
      intro p hp path
      obtain ⟨ref, rfl, rfl⟩ := Plan.mapRef_eq_record hp
      obtain ⟨encoder, henc, houtcome⟩ := outcome_of_fields hg hk hc
        fun f hf v hv => ih f hf v hv _ f.mapRef_encodeField
      rw [encodeValue, if_pos rfl, henc]
      exact (houtcome path).between _ _

/-- Writing a record of the declared shape fails exactly when the point of one of its decimals
falls inside a character. -/
theorem outcome_encodeRecord (hg : Generates kinds decoders encoders methods) {r : Record}
    (h : r.Shaped kinds declaredLeaves) :
    Outcome (encodeRecord encoders r) r.toValue.isWritable := by
  obtain ⟨name, entries⟩ := r
  cases h with
  | @record _ fields _ hk hc hfields =>
      obtain ⟨encoder, henc, houtcome⟩ := outcome_of_fields hg hk hc
        fun f hf v hv => outcome_encodeValue hg (hfields f hf v hv) _ f.mapRef_encodeField
      unfold encodeRecord
      rw [henc]
      exact (houtcome _).between _ _

end

end RecordCodec
