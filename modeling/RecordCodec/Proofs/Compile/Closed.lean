import RecordCodec.Proofs.Compile.Advance
import RecordCodec.Proofs.Compile.Errors
import RecordCodec.Proofs.EndOfRun
import RecordCodec.Proofs.Naming.Order

/-!
Compiled catalogs are closed. When the roots of a schema have been compiled, every reserved name
has its codecs and every record is found under its name, so that taking the records together cannot
fail. The entries have names that differ in more than case, and whatever a field, a plan or a
method of an entry refers to is an entry, under the names that the entry announces. Decoding and
encoding records of a catalog therefore never look for a record in vain.
-/

namespace RecordCodec

/-! ### Names -/

theorem Naming.Style.eq_of_record_artifactNames {style : Naming.Style} {a b : String}
    (h : (style.artifactNames a).record = (style.artifactNames b).record) :
    style.artifactNames a = style.artifactNames b := by
  rw [show a = b from congrArg QualifiedName.name h]

namespace Compile

/-! ### The end of a run -/

section

variable {c : Setting} {ms : List Making} {run : Run}

theorem advances_of_compileRoots {roots : List Field} {names : List QualifiedName}
    (h : compileRoots c start roots = .ok (names, run)) : ∃ ms, Advances c start ms run := by
  obtain ⟨targets, ms, _, hcourse⟩ := compileRoots_courses h
  exact ⟨ms, hcourse.advances tidy_start⟩

namespace Advances

theorem records_eq (h : Advances c start ms run) : run.records = ms.map (·.record) := h.records

theorem mem_slots (h : Advances c start ms run) {slot : QualifiedName × Option CodecPair} :
    slot ∈ run.codecs.slots ↔ ∃ m ∈ ms, slot = m.slot := by
  rw [h.mem_slots_iff]
  exact or_iff_right List.not_mem_nil

theorem pending_eq_nil (h : Advances c start ms run) : run.codecs.pending = [] := by
  have hfilled : run.codecs.slots.filter (·.2.isNone) = [] := by
    refine List.filter_eq_nil_iff.2 fun slot hslot => ?_
    obtain ⟨m, _, rfl⟩ := h.mem_slots.1 hslot
    exact Bool.false_ne_true
  rw [Reservations.pending, hfilled, List.map_nil, List.mergeSort_nil]

theorem nodup_names (h : Advances c start ms run) :
    (run.records.map RecordDefinition.name).Nodup := by
  rw [h.records_eq, List.map_map]
  refine List.Nodup.of_map (fun name => Text.lower name.name) ?_
  rw [List.map_map]
  exact h.distinct

theorem exists_codecs (h : Advances c start ms run) {r : RecordDefinition}
    (hr : r ∈ run.records) : ∃ pair, run.codecs.find? r.name = some pair := by
  rw [h.records_eq] at hr
  obtain ⟨m, hm, rfl⟩ := List.mem_map.1 hr
  have hslot : m.slot ∈ run.codecs.slots := h.mem_slots.2 ⟨m, hm, rfl⟩
  cases hfind : run.codecs.slots.find? (·.1 = m.record.name) with
  | none => exact absurd (List.find?_eq_none.1 hfind _ hslot) (by simp [Making.slot])
  | some found =>
      obtain ⟨m', _, rfl⟩ := h.mem_slots.1 (List.mem_of_find?_eq_some hfind)
      exact ⟨_, by rw [Reservations.find?, hfind]; rfl⟩

end Advances

theorem assemble_isOk {roots : List QualifiedName} {groups : List CycleGroup}
    {records : List RecordDefinition} {codecs : Reservations}
    (hn : (records.map RecordDefinition.name).Nodup)
    (hf : ∀ r ∈ records, ∃ pair, codecs.find? r.name = some pair) :
    ∃ entries, assemble roots groups codecs records = .ok entries := by
  induction records generalizing codecs with
  | nil => exact ⟨[], rfl⟩
  | cons r rest ih =>
      obtain ⟨hr, hrest⟩ := List.nodup_cons.1 hn
      obtain ⟨pair, hpair⟩ := hf r List.mem_cons_self
      -- taking out the codecs of the first record leaves those of the others
      obtain ⟨entries, hentries⟩ := @ih ⟨codecs.without r.name⟩ hrest fun r' hr' => by
        rw [Reservations.find?_without, if_neg]
        · exact hf r' (List.mem_cons_of_mem _ hr')
        · exact fun heq => hr (List.mem_map.2 ⟨r', hr', heq⟩)
      unfold assemble Reservations.take?
      rw [hpair, Option.map_some]
      simp only [hentries]
      exact ⟨_, rfl⟩

theorem finish_isOk (h : Advances c start ms run) (roots : List QualifiedName) :
    ∃ catalog, finish roots run = .ok catalog := by
  unfold finish
  rw [h.pending_eq_nil]
  obtain ⟨entries, hentries⟩ := assemble_isOk h.nodup_names fun r hr => h.exists_codecs hr
  exact ⟨⟨entries⟩, map_eq_ok_iff.2 ⟨entries, hentries, rfl⟩⟩

end

end Compile

namespace Forest

open Compile

variable {settings : Settings} {forest : Forest} {catalog : Catalog}

theorem not_missesRecord_of_compile {e : Error} (h : forest.compile settings = .error e) :
    ¬e.MissesRecord := by
  unfold compile at h
  split at h
  · rename_i hvalidate
    cases h
    exact not_missesRecord_of_validate hvalidate
  · split at h
    · rename_i hroots
      cases h
      exact not_missesRecord_of_compileRoots hroots
    · rename_i hroots
      obtain ⟨ms, ha⟩ := advances_of_compileRoots hroots
      obtain ⟨catalog, hcatalog⟩ := finish_isOk ha _
      rw [hcatalog] at h
      cases h

/-! ### Entries and makings -/

/-- The records of a catalog are those made on the course of compiling the roots, flagged by their
references among each other. -/
theorem flagged_of_compile (h : forest.compile settings = .ok catalog) :
    ∃ targets ms run,
      compileRoots ⟨settings, forest⟩ start forest.roots =
        .ok (targets.map ArtifactNames.record, run) ∧
      CompilesRoots ⟨settings, forest⟩ forest.roots start targets ms run ∧
      catalog.records = ms.map fun m => flagged (targets.map ArtifactNames.record)
        (ReferenceGraph.ofRecords (ms.map (·.record))).cycleGroups m.record := by
  obtain ⟨roots, run, hroots, ha⟩ := roots_of_compile h
  obtain ⟨targets, ms, rfl, hcourse⟩ := compileRoots_courses hroots
  refine ⟨targets, ms, run, hroots, hcourse, ?_⟩
  rw [Catalog.records, ha.definitions, (hcourse.advances tidy_start).records_eq, List.map_map]
  rfl

theorem course_of_compile (h : forest.compile settings = .ok catalog) :
    ∃ targets ms run groups,
      compileRoots ⟨settings, forest⟩ start forest.roots =
        .ok (targets.map ArtifactNames.record, run) ∧
      CompilesRoots ⟨settings, forest⟩ forest.roots start targets ms run ∧
      catalog.records =
        ms.map fun m => flagged (targets.map ArtifactNames.record) groups m.record := by
  obtain ⟨targets, ms, run, hroots, hcourse, hrecords⟩ := flagged_of_compile h
  exact ⟨targets, ms, run, _, hroots, hcourse, hrecords⟩

theorem advances_of_compile (h : forest.compile settings = .ok catalog) :
    ∃ ms run roots groups, Advances ⟨settings, forest⟩ start ms run ∧
      catalog.records = ms.map fun m => flagged roots groups m.record := by
  obtain ⟨targets, ms, run, groups, _, hcourse, hrecords⟩ := course_of_compile h
  exact ⟨ms, run, _, groups, hcourse.advances tidy_start, hrecords⟩

/-- The simple names of the records differ in more than case. -/
theorem nodup_lower_of_compile (h : forest.compile settings = .ok catalog) :
    (catalog.entries.map fun e => Text.lower e.name.name).Nodup := by
  obtain ⟨ms, run, roots, groups, ha, hrecords⟩ := advances_of_compile h
  have hnames := congrArg (List.map fun r : RecordDefinition => Text.lower r.name.name) hrecords
  rw [Catalog.records, List.map_map, List.map_map] at hnames
  exact hnames ▸ ha.distinct

/-- All names of a record follow from its simple name. -/
theorem names_of_compile (h : forest.compile settings = .ok catalog) {e : Entry}
    (he : e ∈ catalog.entries) :
    e.definition.names = settings.naming.artifactNames e.name.name := by
  obtain ⟨ms, run, roots, groups, ha, hrecords⟩ := advances_of_compile h
  have hdefinition : e.definition ∈ catalog.records := List.mem_map_of_mem he
  rw [hrecords] at hdefinition
  obtain ⟨m, hm, hflagged⟩ := List.mem_map.1 hdefinition
  obtain ⟨simple, hnames⟩ := (ha.made m hm).known.style
  have hown : e.definition.names = settings.naming.artifactNames simple := by
    rw [← hflagged]
    exact hnames
  rw [Entry.name, RecordDefinition.name, hown]
  rfl

/-- All records are named in one scope. -/
theorem scope_of_compile (h : forest.compile settings = .ok catalog) {e : Entry}
    (he : e ∈ catalog.entries) :
    e.name.scope = settings.naming.scope settings.naming.modelScope := by
  rw [Entry.name, RecordDefinition.name, names_of_compile h he]
  rfl

/-- What a field of a record points at is a record of the catalog. -/
theorem exists_entry_of_names (h : forest.compile settings = .ok catalog) {e : Entry}
    (he : e ∈ catalog.entries) {f : RecordField} (hf : f ∈ e.definition.fields)
    {names : ArtifactNames} (hnames : f.names? = some names) :
    ∃ e' ∈ catalog.entries, e'.definition.names = names := by
  obtain ⟨ms, run, roots, groups, ha, hrecords⟩ := advances_of_compile h
  have hdefinition : e.definition ∈ catalog.records := List.mem_map_of_mem he
  rw [hrecords] at hdefinition
  obtain ⟨m, hm, hflagged⟩ := List.mem_map.1 hdefinition
  rw [← hflagged] at hf
  obtain ⟨g, hg, rfl⟩ := List.mem_map.1 hf
  -- the name is reserved, so it is that of a made record, and names follow from a record's name
  have hknown := (ha.made m hm).targets g hg hnames
  obtain ⟨pair?, hslot⟩ := Reservations.holds_iff.1 hknown.held
  obtain ⟨m', hm', heq⟩ := ha.mem_slots.1 hslot
  obtain ⟨a, ha'⟩ := hknown.style
  obtain ⟨b, hb⟩ := (ha.made m' hm').known.style
  have hsame : m'.record.names = names := by
    have hrecord : names.record = m'.record.names.record := congrArg Prod.fst heq
    rw [ha', hb] at hrecord ⊢
    exact (Naming.Style.eq_of_record_artifactNames hrecord).symm
  have hentry : flagged roots groups m'.record ∈ catalog.records := by
    rw [hrecords]
    exact List.mem_map_of_mem hm'
  obtain ⟨e', he', hdef⟩ := List.mem_map.1 hentry
  refine ⟨e', he', ?_⟩
  rw [hdef]
  exact hsame

end Forest

/-! ### Looking up -/

namespace Catalog

variable {c : Catalog} {spelling : String}

/-- With different names, every entry is found under its own. -/
theorem entry?_of_mem (hn : (c.entries.map Entry.name).Nodup) {e : Entry} (he : e ∈ c.entries) :
    c.entry? e.name = some e := by
  refine find?_key_of_nodup ?_ (List.mem_reverse.2 he)
  rw [List.map_reverse]
  exact List.nodup_reverse.2 hn

/-- The entry is spelled so, by its simple or its qualified name. -/
def Spells (spelling : String) (e : Entry) : Prop :=
  e.name.name = spelling ∨ e.name.text = spelling

theorem renamed_of_spells (found : Option QualifiedName) {e : Entry} (h : Spells spelling e) :
    ∃ name, renamed spelling found e = some name := by
  unfold renamed
  obtain h | h := h
  · rw [if_pos h]
    exact ⟨_, rfl⟩
  · rw [if_pos h]
    split <;> exact ⟨_, rfl⟩

theorem renamed_cases (found : Option QualifiedName) (e : Entry) :
    renamed spelling found e = found ∨
      Spells spelling e ∧ renamed spelling found e = some e.name := by
  unfold renamed Spells
  cases found with
  | none => split <;> split <;> simp_all
  | some name => split <;> split <;> simp_all

theorem foldl_renamed_isSome {entries : List Entry} {found : Option QualifiedName}
    (h : (∃ name, found = some name) ∨ ∃ e ∈ entries, Spells spelling e) :
    ∃ name, entries.foldl (renamed spelling) found = some name := by
  induction entries generalizing found with
  | nil => exact h.resolve_right (by simp)
  | cons e rest ih =>
      rw [List.foldl_cons]
      refine ih ?_
      rw [List.exists_mem_cons_iff] at h
      obtain ⟨name, rfl⟩ | he | hrest := h
      · obtain heq | ⟨_, heq⟩ := @renamed_cases spelling (some name) e
        · exact .inl ⟨name, heq⟩
        · exact .inl ⟨_, heq⟩
      · exact .inl (renamed_of_spells found he)
      · exact .inr hrest

theorem mem_of_foldl_renamed {entries : List Entry} {found : Option QualifiedName}
    {name : QualifiedName} (h : entries.foldl (renamed spelling) found = some name) :
    found = some name ∨ ∃ e ∈ entries, Spells spelling e ∧ e.name = name := by
  induction entries generalizing found with
  | nil => exact .inl h
  | cons e rest ih =>
      rw [List.exists_mem_cons_iff]
      obtain hfound | hrest := ih h
      · obtain heq | ⟨hspells, heq⟩ := @renamed_cases spelling found e
        · exact .inl (heq ▸ hfound)
        · rw [heq] at hfound
          exact .inr (.inl ⟨hspells, Option.some.inj hfound⟩)
      · exact .inr (.inr hrest)

/-- A spelling of an entry names an entry that it spells. -/
theorem resolve?_of_spells {e : Entry} (he : e ∈ c.entries) (h : Spells spelling e) :
    ∃ e' ∈ c.entries, Spells spelling e' ∧ c.resolve? spelling = some e'.name := by
  obtain ⟨name, hname⟩ := @foldl_renamed_isSome spelling c.entries none (.inr ⟨e, he, h⟩)
  obtain hnone | ⟨e', he', hspells, rfl⟩ := mem_of_foldl_renamed hname
  · cases hnone
  · exact ⟨e', he', hspells, hname⟩

theorem foldl_renamed_text {e : Entry} {entries : List Entry} {found : Option QualifiedName}
    (hsame : ∀ e' ∈ entries, e'.name.text = e.name.text → e'.name = e.name)
    (h : found = some e.name ∨ e ∈ entries) :
    entries.foldl (renamed e.name.text) found = some e.name := by
  induction entries generalizing found with
  | nil => exact h.resolve_right List.not_mem_nil
  | cons e' rest ih =>
      obtain ⟨hfirst, hrest⟩ := List.forall_mem_cons.1 hsame
      rw [List.foldl_cons]
      refine ih hrest ?_
      by_cases htext : e'.name.text = e.name.text
      · left
        rw [renamed, if_pos htext, hfirst htext]
        exact ite_self _
      · rw [List.mem_cons] at h
        obtain rfl | rfl | he := h
        · left
          rw [renamed, if_neg htext]
          exact ite_self _
        · exact absurd rfl htext
        · exact .inr he

/-- Where all entries have one scope, the qualified name of an entry names it. -/
theorem resolve?_text {scope : String} (hscope : ∀ e ∈ c.entries, e.name.scope = scope)
    {e : Entry} (he : e ∈ c.entries) : c.resolve? e.name.text = some e.name := by
  refine foldl_renamed_text (fun e' he' htext => ?_) (.inr he)
  exact QualifiedName.eq_of_text ((hscope e' he').trans (hscope e he).symm) htext

end Catalog

/-! ### Closed catalogs -/

/-- An artifact that decodes records of the kind. -/
def Artifact.decodes (name : QualifiedName) : Artifact → Bool
  | .decoder d => d.record = name
  | _ => false

/-- An artifact that encodes records of the kind. -/
def Artifact.encodes (name : QualifiedName) : Artifact → Bool
  | .encoder e => e.record = name
  | _ => false

/-- The definition of a record, its codecs and its methods agree. -/
structure Entry.Consistent (catalog : Catalog) (e : Entry) : Prop where
  decoders : catalog.artifacts.filter (·.decodes e.name) = [.decoder e.decoder]
  encoders : catalog.artifacts.filter (·.encodes e.name) = [.encoder e.encoder]
  decoder : catalog.decoder? e.name = some e.decoder
  encoder : catalog.encoder? e.name = some e.encoder
  decoderName : e.decoder.name = e.definition.names.decoder
  encoderName : e.encoder.name = e.definition.names.encoder
  decodePlans : e.decoder.fields.map (fun d => (d.field, d.plan.mapRef CodecRef.record)) =
    e.definition.fields.map fun f => (f.name, f.plan)
  encodePlans : e.encoder.fields.map (fun n => (n.field, n.plan.mapRef CodecRef.record)) =
    e.definition.fields.map fun f => (f.name, f.plan)
  comparators : e.definition.methods.map (fun m => (m.field, m.comparator)) =
    e.definition.fields.map fun f => (f.name, f.plan)
  copies : e.definition.methods.map (fun m => (m.field, m.copy)) =
    e.definition.fields.map fun f => (f.name, f.plan)

/-- Whatever an entry refers to is an entry of the catalog. -/
structure Entry.RefersInside (catalog : Catalog) (e : Entry) : Prop where
  targets : ∀ f ∈ e.definition.fields, ∀ {names}, f.names? = some names →
    ∃ e' ∈ catalog.entries, e'.definition.names = names
  decodePlans : ∀ d ∈ e.decoder.fields, ∀ {ref}, d.plan.ref? = some ref →
    ∃ e' ∈ catalog.entries, e'.name = ref.record ∧ e'.decoder.name = ref.codec
  encodePlans : ∀ n ∈ e.encoder.fields, ∀ {ref}, n.plan.ref? = some ref →
    ∃ e' ∈ catalog.entries, e'.name = ref.record ∧ e'.encoder.name = ref.codec
  comparators : ∀ m ∈ e.definition.methods, ∀ {name}, m.comparator.ref? = some name →
    ∃ e' ∈ catalog.entries, e'.name = name
  copies : ∀ m ∈ e.definition.methods, ∀ {name}, m.copy.ref? = some name →
    ∃ e' ∈ catalog.entries, e'.name = name

/-- The catalog has records of different simple names, whatever their case, its entries are
consistent and refer to each other only, and its records are decoded and encoded without looking
for a record in vain. -/
structure Catalog.Closed (catalog : Catalog) : Prop where
  distinct : (catalog.entries.map fun e => Text.lower e.name.name).Nodup
  consistent : ∀ e ∈ catalog.entries, e.Consistent catalog
  refersInside : ∀ e ∈ catalog.entries, e.RefersInside catalog
  decodesKind : ∀ e ∈ catalog.entries, ∀ {ts stop},
    decodeRecord catalog.decoder? e.name ts = .error stop → ∀ name, stop.error ≠ .unknownRecord name
  decodes : ∀ e ∈ catalog.entries, ∀ {spelling}, Catalog.Spells spelling e →
    ∀ {ts stop}, catalog.decode spelling ts = .error stop →
      ∀ name, stop.error ≠ .unknownRecord name
  encodes : ∀ e ∈ catalog.entries, ∀ {r : Record}, r.name = e.name →
    ∀ name, (catalog.encode r).error ≠ some (.unknownRecord name)

/-! ### Artifacts of one kind -/

theorem Entry.filter_decodes {e : Entry} (h : e.decoder.record = e.name) (name : QualifiedName) :
    e.artifacts.filter (·.decodes name) = if e.name = name then [.decoder e.decoder] else [] := by
  unfold artifacts
  by_cases hname : e.name = name
  · cases e.builder <;> simp [Artifact.decodes, h, hname]
  · cases e.builder <;> simp [Artifact.decodes, h, hname]

theorem Entry.filter_encodes {e : Entry} (h : e.encoder.record = e.name) (name : QualifiedName) :
    e.artifacts.filter (·.encodes name) = if e.name = name then [.encoder e.encoder] else [] := by
  unfold artifacts
  by_cases hname : e.name = name
  · cases e.builder <;> simp [Artifact.encodes, h, hname]
  · cases e.builder <;> simp [Artifact.encodes, h, hname]

namespace Forest

open Compile

variable {settings : Settings} {forest : Forest} {catalog : Catalog}

theorem consistent_of_compile (h : forest.compile settings = .ok catalog) {e : Entry}
    (he : e ∈ catalog.entries) : e.Consistent catalog := by
  have hn := nodup_names_of_compile h
  have hentry := Catalog.entry?_of_mem hn he
  have hgenerated : ∀ e' ∈ catalog.entries, e'.Generated ⟨settings, forest⟩ :=
    fun _ he' => generated_of_compile h he'
  have hdecoder := (hgenerated e he).decoder_eq
  have hencoder := (hgenerated e he).encoder_eq
  have hmethods := (hgenerated e he).record.1
  constructor
  case decoders =>
    rw [Catalog.artifacts, List.filter_flatMap, flatMap_of_key hn he]
    · rw [Entry.filter_decodes (by rw [hdecoder]), if_pos rfl]
    · intro e' he' hne
      rw [Entry.filter_decodes (by rw [(hgenerated e' he').decoder_eq]), if_neg hne]
  case encoders =>
    rw [Catalog.artifacts, List.filter_flatMap, flatMap_of_key hn he]
    · rw [Entry.filter_encodes (by rw [hencoder]), if_pos rfl]
    · intro e' he' hne
      rw [Entry.filter_encodes (by rw [(hgenerated e' he').encoder_eq]), if_neg hne]
  case decoder => rw [Catalog.decoder?, hentry, Option.map_some]
  case encoder => rw [Catalog.encoder?, hentry, Option.map_some]
  case decoderName => rw [hdecoder]
  case encoderName => rw [hencoder]
  case decodePlans => simp [hdecoder]
  case encodePlans => simp [hencoder]
  case comparators => simp [hmethods]
  case copies =>
    rw [hmethods, List.map_map]
    rfl

theorem refersInside_of_compile (h : forest.compile settings = .ok catalog) {e : Entry}
    (he : e ∈ catalog.entries) : e.RefersInside catalog := by
  have hgenerated := generated_of_compile h he
  have htargets : ∀ f ∈ e.definition.fields, ∀ {names}, f.names? = some names →
      ∃ e' ∈ catalog.entries, e'.definition.names = names :=
    fun f hf _ hnames => exists_entry_of_names h he hf hnames
  have hrecords : ∀ m ∈ e.definition.methods, ∀ {name},
      m.comparator.ref? = some name ∨ m.copy.ref? = some name →
      ∃ e' ∈ catalog.entries, e'.name = name := by
    intro m hm name hname
    rw [hgenerated.record.1] at hm
    obtain ⟨f, hf, rfl⟩ := List.mem_map.1 hm
    have href : f.refersTo? = some name := by
      obtain hname | hname := hname
      · exact Plan.ref?_of_ofType hname
      · exact Plan.ref?_of_ofType hname
    rw [RecordField.refersTo?_eq] at href
    obtain ⟨names, hnames, rfl⟩ := Option.map_eq_some_iff.1 href
    obtain ⟨e', he', rfl⟩ := htargets f hf hnames
    exact ⟨e', he', rfl⟩
  constructor
  case targets => exact htargets
  case decodePlans =>
    intro d hd ref href
    rw [hgenerated.decoder_eq] at hd
    obtain ⟨f, hf, rfl⟩ := List.mem_map.1 hd
    obtain ⟨names, hnames, rfl⟩ := Option.map_eq_some_iff.1 (Plan.ref?_of_ofType href)
    obtain ⟨e', he', rfl⟩ := htargets f hf hnames
    exact ⟨e', he', rfl, by rw [(generated_of_compile h he').decoder_eq]⟩
  case encodePlans =>
    intro n hn ref href
    rw [hgenerated.encoder_eq] at hn
    obtain ⟨f, hf, rfl⟩ := List.mem_map.1 hn
    obtain ⟨names, hnames, rfl⟩ := Option.map_eq_some_iff.1 (Plan.ref?_of_ofType href)
    obtain ⟨e', he', rfl⟩ := htargets f hf hnames
    exact ⟨e', he', rfl, by rw [(generated_of_compile h he').encoder_eq]⟩
  case comparators => exact fun m hm _ hname => hrecords m hm (.inl hname)
  case copies => exact fun m hm _ hname => hrecords m hm (.inr hname)

theorem decodersClosed_of_compile (h : forest.compile settings = .ok catalog) :
    DecodersClosed catalog.decoder? := by
  intro name d hd f hf ref href
  obtain ⟨e, hentry, rfl⟩ := Option.map_eq_some_iff.1 hd
  obtain ⟨he, _⟩ := Catalog.entry?_eq_some hentry
  obtain ⟨e', he', hname, _⟩ := (refersInside_of_compile h he).decodePlans f hf href
  rw [← hname]
  exact ⟨_, (consistent_of_compile h he').decoder⟩

theorem encodersClosed_of_compile (h : forest.compile settings = .ok catalog) :
    EncodersClosed catalog.encoder? := by
  intro name n hn f hf ref href
  obtain ⟨e, hentry, rfl⟩ := Option.map_eq_some_iff.1 hn
  obtain ⟨he, _⟩ := Catalog.entry?_eq_some hentry
  obtain ⟨e', he', hname, _⟩ := (refersInside_of_compile h he).encodePlans f hf href
  rw [← hname]
  exact ⟨_, (consistent_of_compile h he').encoder⟩

theorem recordSupplied_of_compile (h : forest.compile settings = .ok catalog) {e : Entry}
    (he : e ∈ catalog.entries) : RecordSupplied catalog.decoder? e.name := by
  refine ⟨decodersClosed_of_compile h, ?_⟩
  rw [(consistent_of_compile h he).decoder]
  exact nofun

/-- Compiling never fails because a record is not known, and what it gives is closed. -/
theorem compile_closed (settings : Settings) (forest : Forest) :
    (∀ name, forest.compile settings ≠ .error (.unknownRecord name)) ∧
      ∀ catalog, forest.compile settings = .ok catalog → catalog.Closed := by
  refine ⟨fun name h => not_missesRecord_of_compile h ⟨name, rfl⟩, fun catalog h => ?_⟩
  constructor
  case distinct => exact nodup_lower_of_compile h
  case consistent => exact fun e he => consistent_of_compile h he
  case refersInside => exact fun e he => refersInside_of_compile h he
  case decodesKind =>
    intro e he ts stop hstop
    have hknown := recordSupplied_of_compile h he
    exact (readsScalars_decodeRecord e.name).error_ne_unknownRecord hknown hstop
  case decodes =>
    intro e he spelling hspells ts stop hstop
    -- a spelling that several entries share names one of them
    obtain ⟨e', he', _, hresolve⟩ := Catalog.resolve?_of_spells he hspells
    have hknown : ∃ name, catalog.resolve spelling = .ok name ∧
        RecordSupplied catalog.decoder? name := by
      refine ⟨e'.name, ?_, recordSupplied_of_compile h he'⟩
      rw [Catalog.resolve, hresolve]
    exact (catalog.readsScalars_decode spelling).error_ne_unknownRecord hknown hstop
  case encodes =>
    intro e he r hr
    have hencoder : catalog.encoder? r.name = some e.encoder := by
      rw [hr]
      exact (consistent_of_compile h he).encoder
    exact findsRecords_encodeRecord (encodersClosed_of_compile h) hencoder

end Forest

/-- Orders and customers, with customers that refer to each other. -/
def Forest.orders : Forest where
  roots := [
    { name := "order", properties := [
        { name := "buyer", identity := some "customer" },
        { name := "lines", type := some (.list .struct), properties := [{ name := "note" }] }] },
    { name := "customer", identity := some "customer", properties := [
        { name := "friends", type := some (.list .struct), identity := some "customer" }] }]

theorem Forest.orders_compiles : ∃ catalog, orders.compile {} = .ok catalog ∧
    decide (catalog.entries.map (·.name.name) = ["Customer", "OrderLines", "Order"]) = true :=
  exists_catalog (by decide +kernel)

theorem Forest.orders_closed : ∃ catalog, orders.compile {} = .ok catalog ∧
    catalog.entries.map (·.name.name) = ["Customer", "OrderLines", "Order"] ∧ catalog.Closed := by
  obtain ⟨catalog, hc, hnames⟩ := orders_compiles
  exact ⟨catalog, hc, of_decide_eq_true hnames, (compile_closed {} orders).2 catalog hc⟩

end RecordCodec
