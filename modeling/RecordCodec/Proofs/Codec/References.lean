import RecordCodec.Proofs.Codec.Writing

/-!
Which records plans refer to. A table of codecs is closed when every record that a codec in it
refers to is in the table as well. Encoding by a closed table never looks for a record in vain,
whatever the value; for decoding the same follows from where it fails.
-/

namespace RecordCodec

namespace Plan

variable {ρ : Type}

/-- The record at the leaf, if a record stands there. -/
def ref? : Plan ρ → Option ρ
  | .scalar _ => none
  | .list item => ref? item
  | .map value => ref? value
  | .document => none
  | .record r => some r

theorem ref?_of_ofType {ref : Option ρ} {type : FieldType} {r : ρ}
    (h : (ofType ref type).ref? = some r) : ref = some r := by
  induction type with
  | scalar kind => cases h
  | struct =>
      cases ref with
      | none => cases h
      | some r' => exact h
  | list item ih => exact ih h
  | map value ih => exact ih h

/-- The record that the plan refers to, if there is one, is in the table. -/
def Found {α : Type} (table : QualifiedName → Option α) (plan : Plan CodecRef) : Prop :=
  ∀ ref, plan.ref? = some ref → ∃ codec, table ref.record = some codec

end Plan

/-- Every record that a decoder in the table refers to is in the table. -/
def DecodersClosed (decoders : QualifiedName → Option Decoder) : Prop :=
  ∀ {name d}, decoders name = some d → ∀ f ∈ d.fields, f.plan.Found decoders

/-- Every record that an encoder in the table refers to is in the table. -/
def EncodersClosed (encoders : QualifiedName → Option Encoder) : Prop :=
  ∀ {name e}, encoders name = some e → ∀ f ∈ e.fields, f.plan.Found encoders

/-! ### Parts of values -/

namespace Value

/-- The values directly inside a value. -/
def parts : Value → List Value
  | .list items => items
  | .map entries => entries.map (·.2)
  | .record _ fields => fields.map (·.2)
  | _ => []

/-- What holds of a value when it holds of its parts holds of every value. -/
@[elab_as_elim]
theorem partsInduction {motive : Value → Prop}
    (step : ∀ v : Value, (∀ x ∈ v.parts, motive x) → motive v) (v : Value) : motive v := by
  have hentries : ∀ entries : List (String × Value), (∀ p ∈ entries, motive p.2) →
      ∀ x ∈ entries.map (·.2), motive x := by
    intro entries h x hx
    obtain ⟨p, hp, rfl⟩ := List.mem_map.1 hx
    exact h p hp
  induction v using nestedInduction with
  | leaf v hlist hmap hrecord =>
      refine step v fun x hx => ?_
      cases v with
      | list items => cases hlist
      | map entries => cases hmap
      | record name fields => cases hrecord
      | _ => exact absurd hx List.not_mem_nil
  | list items ih => exact step _ ih
  | map entries ih => exact step _ (hentries entries ih)
  | record name fields ih => exact step _ (hentries fields ih)

end Value

/-! ### Encoding -/

/-- No record was looked for in vain. -/
def Written.FindsRecords (w : Written) : Prop := ∀ name, w.error ≠ some (.unknownRecord name)

namespace Written.FindsRecords

theorem done (ts : List Token) : FindsRecords ⟨ts, none⟩ := fun _ => nofun

theorem andThen {a : Written} {b : Unit → Written} (ha : a.FindsRecords)
    (hb : (b ()).FindsRecords) : (a.andThen b).FindsRecords := by
  obtain ⟨ts, e⟩ := a
  cases e with
  | none => exact hb
  | some e => exact ha

theorem between {w : Written} (h : w.FindsRecords) (opening closing : Token) :
    (between opening closing w).FindsRecords := by
  intro name
  rw [between_error]
  exact h name

end Written.FindsRecords

section

variable {path : Path}

theorem findsRecords_writeItems {item : Plan CodecRef} {ws : List Writer}
    (h : ∀ w ∈ ws, ∀ path, (w item path).FindsRecords) (i : Nat) :
    (writeItems item path i ws).FindsRecords := by
  induction ws generalizing i with
  | nil => exact .done []
  | cons w ws ih =>
      obtain ⟨hw, hws⟩ := List.forall_mem_cons.1 h
      exact (hw _).andThen (ih hws (i + 1))

theorem findsRecords_writeEntries {value : Plan CodecRef} {ws : List (String × Writer)}
    (h : ∀ p ∈ ws, ∀ path, (p.2 value path).FindsRecords) :
    (writeEntries value path ws).FindsRecords := by
  induction ws with
  | nil => exact .done []
  | cons p ws ih =>
      obtain ⟨hp, hws⟩ := List.forall_mem_cons.1 h
      exact (Written.FindsRecords.done _).andThen ((hp _).andThen (ih hws))

theorem findsRecords_writeFields {ws : List (String × Writer)} {fields : List EncodeField}
    (h : ∀ f ∈ fields, ∀ p ∈ ws, ∀ path, (p.2 f.plan path).FindsRecords) :
    (writeFields path ws fields).FindsRecords := by
  induction fields with
  | nil => exact .done []
  | cons f fields ih =>
      obtain ⟨hf, hfields⟩ := List.forall_mem_cons.1 h
      refine (Written.FindsRecords.done _).andThen (.andThen ?_ (ih hfields))
      split
      · rename_i w hw
        exact hf _ (Entries.mem_of_get? hw) _
      · exact .done _

theorem findsRecords_writeScalar (kind : ScalarKind) (v : Value) :
    (writeScalar kind path v).FindsRecords := by
  unfold writeScalar
  split
  · split
    · exact .done _
    · exact fun _ => nofun
  · exact .done _
  · exact fun _ => nofun

theorem findsRecords_writeDocument (v : Value) : (writeDocument v).FindsRecords := by
  unfold writeDocument Value.rendering
  split
  · exact .done _
  · rename_i heq
    split at heq
    · cases heq
    · cases heq
      exact fun _ => nofun

variable {encoders : QualifiedName → Option Encoder}

theorem findsRecords_entryWriters {fields : List (String × Value)} {plan : Plan CodecRef}
    (h : ∀ p ∈ fields, ∀ path, (encodeValue encoders p.2 plan path).FindsRecords) :
    ∀ p ∈ entryWriters encoders fields, ∀ path, (p.2 plan path).FindsRecords := by
  rw [entryWriters_eq_map]
  intro p hp
  obtain ⟨q, hq, rfl⟩ := List.mem_map.1 hp
  exact h q hq

theorem findsRecords_itemWriters {items : List Value} {plan : Plan CodecRef}
    (h : ∀ v ∈ items, ∀ path, (encodeValue encoders v plan path).FindsRecords) :
    ∀ w ∈ itemWriters encoders items, ∀ path, (w plan path).FindsRecords := by
  rw [itemWriters_eq_map]
  intro w hw
  obtain ⟨v, hv, rfl⟩ := List.mem_map.1 hw
  exact h v hv

/-- Written by plans whose records are found, the value looks for no record in vain. -/
def Value.FindsRecords (encoders : QualifiedName → Option Encoder) (v : Value) : Prop :=
  ∀ {plan : Plan CodecRef}, plan.Found encoders → ∀ path,
    (encodeValue encoders v plan path).FindsRecords

theorem findsRecords_encodeValue (hc : EncodersClosed encoders) (v : Value) :
    v.FindsRecords encoders := by
  -- the plan of a part is a part of the plan, or that of a field of a record that is found
  induction v using Value.partsInduction with
  | step v ih =>
      intro plan hplan path
      unfold encodeValue
      split
      · exact .done _
      · rename_i items item
        have hitem : item.Found encoders := hplan
        have hwriters := findsRecords_itemWriters fun x hx => ih x hx hitem
        exact (findsRecords_writeItems hwriters 0).between _ _
      · rename_i entries value
        have hvalue : value.Found encoders := hplan
        have hwriters := findsRecords_entryWriters fun p hp => ih _ (List.mem_map_of_mem hp) hvalue
        exact (findsRecords_writeEntries hwriters).between _ _
      · rename_i name fields ref
        split
        · obtain ⟨encoder, hencoder⟩ := hplan ref rfl
          rw [hencoder]
          refine (findsRecords_writeFields fun f hf => ?_).between _ _
          exact findsRecords_entryWriters fun p hp =>
            ih _ (List.mem_map_of_mem hp) (hc hencoder f hf)
        · exact fun _ => nofun
      · exact findsRecords_writeDocument _
      · exact findsRecords_writeScalar _ _
      · exact fun _ => nofun

/-- Encoding a record of a known kind looks for no record in vain. -/
theorem findsRecords_encodeRecord (hc : EncodersClosed encoders) {r : Record} {encoder : Encoder}
    (h : encoders r.name = some encoder) : (encodeRecord encoders r).FindsRecords := by
  unfold encodeRecord
  rw [h]
  refine (findsRecords_writeFields fun f hf => ?_).between _ _
  exact findsRecords_entryWriters fun p _ => findsRecords_encodeValue hc p.2 (hc h f hf)

end

end RecordCodec
