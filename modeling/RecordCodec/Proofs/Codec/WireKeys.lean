import RecordCodec.Proofs.Compile.Generated
import RecordCodec.Proofs.Lookup

/-!
Fields and their keys in documents. A decoder has one field for each nested field of the owner from
which its record was made, under the same names and keys. Siblings are checked to have different
names but not different keys, so each field is found under its own key exactly when the owner's
nested fields have different keys.
-/

namespace RecordCodec

open Compile

/-! ### Names and keys -/

theorem Compile.CompiledFrom.names_eq {c : Setting} {owner : Field} {fields : List RecordField}
    (h : CompiledFrom c owner fields) :
    fields.map (·.name) = owner.properties.map (·.name) := by
  have hnames : List.Forall₂ (fun f g : String => f = g) (owner.properties.map (·.name))
      (fields.map (·.name)) := by
    rw [List.forall₂_map_left_iff, List.forall₂_map_right_iff]
    exact h.imp fun _ _ hf => hf.name.symm
  rw [List.forall₂_eq_eq_eq] at hnames
  exact hnames.symm

theorem Compile.CompiledFrom.wireKeys_eq {c : Setting} {owner : Field}
    {fields : List RecordField} (h : CompiledFrom c owner fields) :
    fields.map (·.wireKey) = owner.properties.map Field.wireKey := by
  have hkeys : List.Forall₂ (fun f g : String => f = g) (owner.properties.map Field.wireKey)
      (fields.map (·.wireKey)) := by
    rw [List.forall₂_map_left_iff, List.forall₂_map_right_iff]
    exact h.imp fun _ _ hf => hf.wireKey.symm
  rw [List.forall₂_eq_eq_eq] at hkeys
  exact hkeys.symm

namespace Entry.Generated

variable {c : Setting} {e : Entry}

theorem decoder_eq (h : e.Generated c) : e.decoder =
    ⟨e.definition.names.decoder, e.name, e.definition.fields.map RecordField.decodeField⟩ := by
  have hcodecs := congrArg CodecPair.decoder h.codecs
  exact hcodecs

theorem encoder_eq (h : e.Generated c) : e.encoder =
    ⟨e.definition.names.encoder, e.name, e.definition.fields.map RecordField.encodeField⟩ := by
  have hcodecs := congrArg CodecPair.encoder h.codecs
  exact hcodecs

end Entry.Generated

theorem Forest.nodup_fieldNames_of_compile {settings : Settings} {forest : Forest}
    {catalog : Catalog} (h : forest.compile settings = .ok catalog) {e : Entry}
    (he : e ∈ catalog.entries) : (e.definition.fields.map (·.name)).Nodup := by
  obtain ⟨_, owner, hw, hfields⟩ := (generated_of_compile h he).record
  rw [hfields.names_eq]
  exact siblingsDistinct (validate_of_compile h) hw

/-! ### Finding fields by their keys -/

/-- Every field of a decoder is found under its own key exactly when the nested fields of the
record's owner have different keys. -/
theorem Forest.fieldFor?_wireKey_iff {settings : Settings} {forest : Forest} {catalog : Catalog}
    (h : forest.compile settings = .ok catalog) {e : Entry} (he : e ∈ catalog.entries) :
    ∃ owner : Field, owner.Within forest.roots ∧
      e.decoder.fields.map (·.field) = owner.properties.map (·.name) ∧
      e.decoder.fields.map (·.wireKey) = owner.properties.map Field.wireKey ∧
      ((∀ f ∈ e.decoder.fields, e.decoder.fieldFor? f.wireKey = some f) ↔
        (owner.properties.map Field.wireKey).Nodup) := by
  have hgenerated := generated_of_compile h he
  obtain ⟨_, owner, hw, hfields⟩ := hgenerated.record
  have hnames : e.decoder.fields.map (·.field) = owner.properties.map (·.name) := by
    rw [hgenerated.decoder_eq, List.map_map, ← hfields.names_eq]
    rfl
  have hkeys : e.decoder.fields.map (·.wireKey) = owner.properties.map Field.wireKey := by
    rw [hgenerated.decoder_eq, List.map_map, ← hfields.wireKeys_eq]
    rfl
  -- fields of different names are different, so a key that two of them share finds one only
  have hdistinct : e.decoder.fields.Nodup := by
    apply List.Nodup.of_map (·.field)
    rw [hnames]
    exact siblingsDistinct (validate_of_compile h) hw
  refine ⟨owner, hw, hnames, hkeys, ?_⟩
  rw [← hkeys]
  exact find?_key_iff_nodup hdistinct

/-- Two siblings with different names and one key. -/
def Forest.sharedKey : Forest where
  roots := [{
    name := "pair"
    properties := [
      { name := "left", wireName := some "side" },
      { name := "right", wireName := some "side" }] }]

theorem Forest.sharedKey_compiles : ∃ catalog, sharedKey.compile {} = .ok catalog ∧
    catalog.entries.any (fun e =>
      e.decoder.fields.any fun f => e.decoder.fieldFor? f.wireKey != some f) = true :=
  exists_catalog (by decide +kernel)

theorem Forest.sharedKey_losesField :
    ∃ catalog, sharedKey.compile {} = .ok catalog ∧ ∃ e ∈ catalog.entries,
      ∃ f ∈ e.decoder.fields, e.decoder.fieldFor? f.wireKey ≠ some f := by
  obtain ⟨catalog, hc, hany⟩ := sharedKey_compiles
  obtain ⟨e, he, hfields⟩ := List.any_eq_true.1 hany
  obtain ⟨f, hf, hlost⟩ := List.any_eq_true.1 hfields
  exact ⟨catalog, hc, e, he, f, hf, by simpa using hlost⟩

theorem Forest.sharedKey_fieldFor? :
    ∃ catalog, sharedKey.compile {} = .ok catalog ∧ ∃ e ∈ catalog.entries,
      ∃ owner : Field, owner.Within sharedKey.roots ∧
        e.decoder.fields.map (·.field) = owner.properties.map (·.name) ∧
        e.decoder.fields.map (·.wireKey) = owner.properties.map Field.wireKey ∧
        ((∀ f ∈ e.decoder.fields, e.decoder.fieldFor? f.wireKey = some f) ↔
          (owner.properties.map Field.wireKey).Nodup) := by
  obtain ⟨catalog, hc, hany⟩ := sharedKey_compiles
  obtain ⟨e, he, _⟩ := List.any_eq_true.1 hany
  exact ⟨catalog, hc, e, he, fieldFor?_wireKey_iff hc he⟩

end RecordCodec
