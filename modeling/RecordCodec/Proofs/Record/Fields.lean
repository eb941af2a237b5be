import RecordCodec.Proofs.Record.Shape

/-!
Records with exactly their declared fields. A decoder starts from such a record, filled with
defaults, and sets declared fields only; so every record on the way has exactly the declared
fields, and two of them are equal when they agree on each.
-/

namespace RecordCodec

/-- The entries of a record with the fields: in key order, one for each of them. -/
structure Complete (fields : List RecordField) (entries : List (String × Value)) : Prop where
  sorted : Entries.Sorted entries
  keys : ∀ key, key ∈ Entries.keys entries ↔ key ∈ fields.map (·.name)

namespace Complete

variable {fields : List RecordField} {entries : List (String × Value)}

theorem exists_value (h : Complete fields entries) {f : RecordField} (hf : f ∈ fields) :
    ∃ v, Entries.get? f.name entries = some v := by
  rw [← Entries.mem_keys_iff, h.keys]
  exact List.mem_map_of_mem hf

theorem put (h : Complete fields entries) {f : RecordField} (hf : f ∈ fields) (v : Value) :
    Complete fields (Entries.put f.name v entries) where
  sorted := Entries.sorted_put _ _ h.sorted
  keys key := by
    rw [Entries.mem_keys_put, h.keys]
    constructor
    · rintro (rfl | hkey)
      · exact List.mem_map_of_mem hf
      · exact hkey
    · exact .inr

/-- Records with the same fields are equal when they agree on each of them. -/
theorem ext {entries' : List (String × Value)} (h : Complete fields entries)
    (h' : Complete fields entries')
    (heq : ∀ f ∈ fields, Entries.get? f.name entries = Entries.get? f.name entries') :
    entries = entries' := by
  apply Entries.ext_of_sorted h.sorted h'.sorted
  intro key
  by_cases hkey : key ∈ fields.map (·.name)
  · obtain ⟨f, hf, rfl⟩ := List.mem_map.1 hkey
    exact heq f hf
  · rw [Entries.get?_eq_none_iff.2 fun hk => hkey ((h.keys key).1 hk),
      Entries.get?_eq_none_iff.2 fun hk => hkey ((h'.keys key).1 hk)]

end Complete

/-! ### Decoders of the fields -/

namespace Decoder

variable {d : Decoder} {fields : List RecordField}

theorem mem_of_fieldFor? (hd : d.fields = fields.map RecordField.decodeField) {key : String}
    {f : DecodeField} (h : d.fieldFor? key = some f) :
    ∃ g ∈ fields, g.decodeField = f ∧ g.wireKey = key := by
  unfold fieldFor? at h
  have hkey := List.find?_some h
  have hmem := List.mem_of_find?_eq_some h
  rw [hd] at hmem
  obtain ⟨g, hg, rfl⟩ := List.mem_map.1 hmem
  exact ⟨g, hg, rfl, of_decide_eq_true hkey⟩

theorem fieldFor?_of_nodup (hd : d.fields = fields.map RecordField.decodeField)
    (hkeys : (fields.map (·.wireKey)).Nodup) {f : RecordField} (hf : f ∈ fields) :
    d.fieldFor? f.wireKey = some f.decodeField := by
  unfold fieldFor?
  have hnodup : (d.fields.map DecodeField.wireKey).Nodup := by
    rw [hd, List.map_map]
    exact hkeys
  have hmem : f.decodeField ∈ d.fields := by
    rw [hd]
    exact List.mem_map_of_mem hf
  exact find?_key_of_nodup hnodup hmem

/-! ### The initial record -/

@[simp] theorem name_initial : d.initial.name = d.record := by
  unfold initial
  suffices h : ∀ r : Record,
      (d.fields.foldl (fun r f => r.set f.field (f.default.getD .null)) r).name = r.name from h _
  induction d.fields with
  | nil => exact fun _ => rfl
  | cons f rest ih => exact fun r => ih _

/-- What setting initial values one after another preserves and adds. -/
theorem initial_invariant (fs : List DecodeField) (r : Record) :
    let r' := fs.foldl (fun r f => r.set f.field (f.default.getD .null)) r
    (Entries.Sorted r.fields → Entries.Sorted r'.fields) ∧
    (∀ key, key ∈ Entries.keys r'.fields ↔
      key ∈ Entries.keys r.fields ∨ key ∈ fs.map DecodeField.field) ∧
    ∀ p ∈ r'.fields, p ∈ r.fields ∨ ∃ f ∈ fs, p = (f.field, f.default.getD .null) := by
  induction fs generalizing r with
  | nil => exact ⟨id, by simp, fun _ hp => .inl hp⟩
  | cons f fs ih =>
      obtain ⟨hsorted, hkeys, hvalues⟩ := ih (r.set f.field (f.default.getD .null))
      refine ⟨fun h => hsorted (Entries.sorted_put _ _ h), fun key => ?_, fun p hp => ?_⟩
      · rw [List.foldl_cons, hkeys, Record.set, Entries.mem_keys_put, List.map_cons,
          List.mem_cons]
        tauto
      · rcases hvalues p hp with hput | ⟨g, hg, hp⟩
        · rcases Entries.mem_put hput with rfl | hmem
          · exact .inr ⟨f, List.mem_cons_self, rfl⟩
          · exact .inl hmem
        · exact .inr ⟨g, List.mem_cons_of_mem _ hg, hp⟩

theorem complete_initial (hd : d.fields = fields.map RecordField.decodeField) :
    Complete fields d.initial.fields := by
  obtain ⟨hsorted, hkeys, _⟩ := initial_invariant d.fields (.blank d.record)
  refine ⟨hsorted .nil, fun key => ?_⟩
  rw [initial, hkeys, hd, List.map_map]
  simp [Record.blank, Entries.keys, Function.comp_def]

/-- A field that has not been read holds its default, or null without one. -/
theorem get?_initial (hd : d.fields = fields.map RecordField.decodeField)
    (hnames : (fields.map (·.name)).Nodup) {f : RecordField} (hf : f ∈ fields) :
    Entries.get? f.name d.initial.fields = some (f.default.getD .null) := by
  obtain ⟨v, hv⟩ := (complete_initial hd).exists_value hf
  obtain ⟨_, _, hvalues⟩ := initial_invariant d.fields (.blank d.record)
  rcases hvalues _ (Entries.mem_of_get? hv) with hblank | ⟨g, hg, heq⟩
  · cases hblank
  · rw [hd] at hg
    obtain ⟨g, hmem, rfl⟩ := List.mem_map.1 hg
    injection heq with hname hvalue
    obtain rfl := List.inj_on_of_nodup_map hnames hf hmem hname
    rw [hv, hvalue]
    rfl

end Decoder

end RecordCodec
