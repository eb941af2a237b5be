import Mathlib.Data.List.Nodup
import RecordCodec.Proofs.Compile.Steps

/-!
What a catalog holds. A run is sound when every finished record was made from an owner in the
schema and every codec that is held was generated for a finished record; soundness holds at the
start and is kept by every step. Since the codecs of a record are taken out once, a run whose
records are all given their codecs has records of different names, so that each record gets the
codecs that were generated for it.
-/

namespace RecordCodec

/-! ### Reservations -/

namespace Reservations

@[simp] theorem find?_empty (name : QualifiedName) : empty.find? name = none := rfl

theorem find?_of_reserve? {r r' : Reservations} {name other : QualifiedName} {pair : CodecPair}
    (h : r.reserve? name = some r') (hf : r'.find? other = some pair) :
    r.find? other = some pair := by
  unfold reserve? at h
  split at h
  · cases h
  · cases h
    by_cases hn : name = other
    · simp [find?, hn] at hf
    · simpa [find?, hn] using hf

theorem find?_without {r : Reservations} {name other : QualifiedName} :
    find? ⟨r.without name⟩ other = if other = name then none else r.find? other := by
  unfold find? without
  rw [List.find?_filter]
  split
  · rename_i heq
    subst heq
    rw [List.find?_eq_none.2]
    · rfl
    · intro s _
      simp
  · rename_i hne
    congr 1
    apply congrArg (List.find? · r.slots)
    funext s
    by_cases hs : s.1 = other
    · simp [hs, hne]
    · simp [hs]

theorem find?_fill {r : Reservations} {pair : CodecPair} {other : QualifiedName} :
    (r.fill pair).find? other =
      if other = pair.decoder.record then some pair else r.find? other := by
  have hrest := @find?_without r pair.decoder.record other
  by_cases h : other = pair.decoder.record
  · simp [fill, find?, h]
  · rw [if_neg h] at hrest ⊢
    rw [← hrest]
    simp [fill, find?, Ne.symm h]

theorem take?_eq_some {r r' : Reservations} {name : QualifiedName} {pair : CodecPair}
    (h : r.take? name = some (pair, r')) :
    r.find? name = some pair ∧ r' = ⟨r.without name⟩ := by
  obtain ⟨p, hp, heq⟩ := Option.map_eq_some_iff.1 h
  cases heq
  exact ⟨hp, rfl⟩

end Reservations

/-! ### What does not depend on boxing -/

namespace RecordField

theorem method_boxed (f : RecordField) (b : Bool) : method { f with boxed := b } = f.method := rfl

theorem decodeField_boxed (f : RecordField) (b : Bool) :
    decodeField { f with boxed := b } = f.decodeField := rfl

theorem encodeField_boxed (f : RecordField) (b : Bool) :
    encodeField { f with boxed := b } = f.encodeField := rfl

end RecordField

theorem CodecPair.generate_boxed (names : ArtifactNames) (fields : List RecordField)
    (box : RecordField → Bool) :
    generate names (fields.map fun f => { f with boxed := box f }) = generate names fields := by
  simp [generate, List.map_map, Function.comp_def, RecordField.decodeField_boxed,
    RecordField.encodeField_boxed]

namespace Compile

theorem CompiledFrom.boxed {c : Setting} {owner : Field} {fields : List RecordField}
    (h : CompiledFrom c owner fields) (box : RecordField → Bool) :
    CompiledFrom c owner (fields.map fun f => { f with boxed := box f }) :=
  List.forall₂_map_right_iff.2 (h.imp fun _ _ hf =>
    ⟨hf.name, hf.wireKey, hf.type, hf.target, hf.default⟩)

/-! ### Sound runs -/

/-- The record was made from an owner in the schema. -/
def MadeFromOwner (c : Setting) (r : RecordDefinition) : Prop :=
  r.methods = r.fields.map RecordField.method ∧
    ∃ owner : Field, owner.Within c.forest.roots ∧ CompiledFrom c owner r.fields

structure Sound (c : Setting) (run : Run) : Prop where
  records : ∀ r ∈ run.records, MadeFromOwner c r
  codecs : ∀ {name pair}, run.codecs.find? name = some pair →
    ∃ r ∈ run.records, r.name = name ∧ pair = .generate r.names r.fields

variable {c : Setting}

theorem sound_start : Sound c start := by
  refine ⟨?_, ?_⟩
  · intro r hr
    exact absurd hr List.not_mem_nil
  · intro name pair h
    rw [start, Reservations.find?_empty] at h
    cases h

theorem Sound.step {run run' : Run} (h : Sound c run) (hs : Step c run run') : Sound c run' := by
  cases hs with
  | claim identity enclosing field => exact ⟨h.records, h.codecs⟩
  | register names _ => exact ⟨h.records, h.codecs⟩
  | reserve hr => exact ⟨h.records, fun hf => h.codecs (Reservations.find?_of_reserve? hr hf)⟩
  | @add owner fields names identity hw hfields =>
      refine ⟨?_, ?_⟩
      · intro r hr
        rcases List.mem_append.1 hr with hr | hr
        · exact h.records r hr
        · rw [List.mem_singleton.1 hr]
          exact ⟨rfl, owner, hw, hfields⟩
      · intro name pair hf
        rw [addRecord, Reservations.find?_fill] at hf
        -- the pair just filled is that of the record just added
        split at hf
        · rename_i hname
          cases hf
          exact ⟨recordDefinition owner names identity fields, by simp [addRecord], hname.symm, rfl⟩
        · obtain ⟨r, hr, hname, hpair⟩ := h.codecs hf
          exact ⟨r, List.mem_append_left _ hr, hname, hpair⟩

theorem Sound.steps {run run' : Run} (h : Sound c run) (hs : Steps c run run') : Sound c run' := by
  induction hs with
  | refl => exact h
  | tail _ hstep ih => exact ih.step hstep

/-! ### Assembly -/

@[simp] theorem name_flagged (roots : List QualifiedName) (groups : List CycleGroup)
    (r : RecordDefinition) : (flagged roots groups r).name = r.name := rfl

/-- The entries of an assembly are the flagged records in order, each with the codecs held under
its name and at most a builder of its own; no name occurs twice. -/
structure Assembled (roots : List QualifiedName) (groups : List CycleGroup) (codecs : Reservations)
    (records : List RecordDefinition) (entries : List Entry) : Prop where
  definitions : entries.map Entry.definition = records.map (flagged roots groups)
  codecs : ∀ e ∈ entries, codecs.find? e.name = some ⟨e.decoder, e.encoder⟩
  builders : ∀ e ∈ entries, ∀ {b}, e.builder = some b → b = .ofRecord e.definition
  names : (entries.map Entry.name).Nodup

theorem assembled_of_assemble {roots : List QualifiedName} {groups : List CycleGroup}
    {codecs : Reservations} {records : List RecordDefinition} {entries : List Entry}
    (h : assemble roots groups codecs records = .ok entries) :
    Assembled roots groups codecs records entries := by
  induction records generalizing codecs entries with
  | nil =>
      cases h
      exact ⟨rfl, by simp, by simp, List.nodup_nil⟩
  | cons r rest ih =>
      unfold assemble at h
      split at h
      · cases h
      · rename_i pair left htake
        obtain ⟨hfind, rfl⟩ := Reservations.take?_eq_some htake
        simp only at h
        split at h
        · cases h
        · rename_i entries' hrest
          cases h
          have hlater := ih hrest
          -- a record that comes later finds its codecs although this record's are gone
          have hfound : ∀ e ∈ entries', e.name ≠ r.name ∧
              codecs.find? e.name = some ⟨e.decoder, e.encoder⟩ := by
            intro e he
            have hcodecs := hlater.codecs e he
            rw [Reservations.find?_without] at hcodecs
            split at hcodecs
            · cases hcodecs
            · rename_i hne
              exact ⟨hne, hcodecs⟩
          refine ⟨?_, ?_, ?_, ?_⟩
          · rw [List.map_cons, List.map_cons, hlater.definitions]
          · intro e he
            rcases List.mem_cons.1 he with rfl | he
            · exact hfind
            · exact (hfound e he).2
          · intro e he b hb
            rcases List.mem_cons.1 he with rfl | he
            · simpa [eq_comm] using (Option.ite_none_right_eq_some.1 hb).2
            · exact hlater.builders e he hb
          · refine List.nodup_cons.2 ⟨fun hm => ?_, hlater.names⟩
            obtain ⟨e, he, hname⟩ := List.mem_map.1 hm
            exact (hfound e he).1 hname

theorem Assembled.names_eq {roots : List QualifiedName} {groups : List CycleGroup}
    {codecs : Reservations} {records : List RecordDefinition} {entries : List Entry}
    (h : Assembled roots groups codecs records entries) :
    records.map RecordDefinition.name = entries.map Entry.name := by
  have hnames := congrArg (List.map RecordDefinition.name) h.definitions
  rw [List.map_map, List.map_map] at hnames
  exact hnames.symm

end Compile

/-! ### Catalogs -/

open Compile

/-- Everything in the entry was generated from the fields of its record, and those were made from
an owner in the schema. -/
structure Entry.Generated (c : Setting) (e : Entry) : Prop where
  codecs : (⟨e.decoder, e.encoder⟩ : CodecPair) = .generate e.definition.names e.definition.fields
  record : MadeFromOwner c e.definition

theorem generated_of_assembled {c : Setting} {run : Run} {roots : List QualifiedName}
    {groups : List CycleGroup} {entries : List Entry} (hs : Sound c run)
    (ha : Assembled roots groups run.codecs run.records entries) {e : Entry} (he : e ∈ entries) :
    e.Generated c := by
  have hdef : e.definition ∈ run.records.map (flagged roots groups) := by
    rw [← ha.definitions]
    exact List.mem_map_of_mem he
  obtain ⟨r, hr, hflagged⟩ := List.mem_map.1 hdef
  obtain ⟨r', hr', hname, hpair⟩ := hs.codecs (ha.codecs e he)
  have hnodup : (run.records.map RecordDefinition.name).Nodup := by
    rw [ha.names_eq]
    exact ha.names
  have hsame : r' = r := by
    refine List.inj_on_of_nodup_map hnodup hr' hr ?_
    rw [hname, Entry.name, ← hflagged, name_flagged]
  subst hsame
  obtain ⟨hmethods, owner, hw, hfields⟩ := hs.records r' hr
  refine ⟨?_, ?_, owner, hw, ?_⟩
  · rw [hpair, ← hflagged]
    exact (CodecPair.generate_boxed r'.names r'.fields _).symm
  · rw [← hflagged]
    simp only [flagged, hmethods, List.map_map, Function.comp_def, RecordField.method_boxed]
  · rw [← hflagged]
    exact hfields.boxed _

theorem Forest.validate_of_compile {settings : Settings} {forest : Forest} {catalog : Catalog}
    (h : forest.compile settings = .ok catalog) : forest.validate settings.untyped = .ok () := by
  unfold Forest.compile at h
  split at h
  · cases h
  · assumption

/-- A catalog that a test finds by running the compilation. -/
theorem Forest.exists_catalog {settings : Settings} {forest : Forest} {test : Catalog → Bool}
    (h : (forest.compile settings).toOption.any test = true) :
    ∃ catalog, forest.compile settings = .ok catalog ∧ test catalog = true := by
  cases hc : forest.compile settings with
  | error e =>
      rw [hc] at h
      cases h
  | ok catalog =>
      rw [hc] at h
      exact ⟨catalog, rfl, h⟩

/-- A catalog is assembled from the run in which the roots were compiled. -/
theorem Forest.roots_of_compile {settings : Settings} {forest : Forest} {catalog : Catalog}
    (h : forest.compile settings = .ok catalog) :
    ∃ roots run, compileRoots ⟨settings, forest⟩ start forest.roots = .ok (roots, run) ∧
      Assembled roots (ReferenceGraph.ofRecords run.records).cycleGroups run.codecs run.records
        catalog.entries := by
  unfold Forest.compile at h
  split at h
  · cases h
  · split at h
    · cases h
    · rename_i roots run hroots
      unfold finish at h
      split at h
      · cases h
      · obtain ⟨entries, hentries, rfl⟩ := map_eq_ok_iff.1 h
        exact ⟨roots, run, hroots, assembled_of_assemble hentries⟩

theorem Forest.assembled_of_compile {settings : Settings} {forest : Forest} {catalog : Catalog}
    (h : forest.compile settings = .ok catalog) :
    ∃ run roots groups, Sound ⟨settings, forest⟩ run ∧
      Assembled roots groups run.codecs run.records catalog.entries := by
  obtain ⟨roots, run, hroots, ha⟩ := roots_of_compile h
  have hsteps := compileRoots_steps (c := ⟨settings, forest⟩) (fun _ hr => .here hr) hroots
  exact ⟨run, roots, _, sound_start.steps hsteps, ha⟩

/-- Every entry of a compiled catalog is generated. -/
theorem Forest.generated_of_compile {settings : Settings} {forest : Forest} {catalog : Catalog}
    (h : forest.compile settings = .ok catalog) {e : Entry} (he : e ∈ catalog.entries) :
    e.Generated ⟨settings, forest⟩ := by
  obtain ⟨run, roots, groups, hs, ha⟩ := assembled_of_compile h
  exact generated_of_assembled hs ha he

/-- The records of a compiled catalog have different names. -/
theorem Forest.nodup_names_of_compile {settings : Settings} {forest : Forest} {catalog : Catalog}
    (h : forest.compile settings = .ok catalog) : (catalog.entries.map Entry.name).Nodup := by
  obtain ⟨run, roots, groups, _, ha⟩ := assembled_of_compile h
  exact ha.names

/-- A builder is that of the record it stands with. -/
theorem Forest.builder_of_compile {settings : Settings} {forest : Forest} {catalog : Catalog}
    (h : forest.compile settings = .ok catalog) {e : Entry} (he : e ∈ catalog.entries) {b : Builder}
    (hb : e.builder = some b) : b = .ofRecord e.definition := by
  obtain ⟨run, roots, groups, _, ha⟩ := assembled_of_compile h
  exact ha.builders e he hb

end RecordCodec
