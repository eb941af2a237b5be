import RecordCodec.Proofs.Compile.Cycles

/-!
The order of a catalog. A record is finished after everything that was begun below it, so a
reference of a finished record is to a record that was finished before, or to one that is still in
progress; from a record in progress references lead down to everything that is finished meanwhile,
so such a reference closes a cycle. Dependencies are therefore delivered first, except among
records that depend on each other.
-/

namespace RecordCodec

open Relation (ReflTransGen TransGen)

namespace Compile

variable {c : Setting} {R : QualifiedName → QualifiedName → Prop}

/-! ### Records in order -/

/-- Wherever a field of the made record refers to, the relation leads. -/
def Making.Follows (R : QualifiedName → QualifiedName → Prop) (m : Making) : Prop :=
  ∀ f ∈ m.record.fields, ∀ {b}, f.refersTo? = some b → R m.record.name b

/-- A reference of a made record is to a record seen already, or to one from which the relation
leads back; afterwards the record is seen itself. -/
def InOrder (R : QualifiedName → QualifiedName → Prop) (seen : QualifiedName → Prop) :
    List Making → Prop
  | [] => True
  | m :: rest =>
      (∀ f ∈ m.record.fields, ∀ {b}, f.refersTo? = some b →
        seen b ∨ ReflTransGen R b m.record.name) ∧
      InOrder R (fun n => seen n ∨ m.record.name = n) rest

namespace InOrder

variable {seen seen' : QualifiedName → Prop} {ms ms' : List Making} {m : Making}

/-- Names need not be seen from which the relation leads to every record. -/
theorem of_seen (h : InOrder R seen ms)
    (hseen : ∀ m ∈ ms, ∀ {b}, seen b → seen' b ∨ ReflTransGen R b m.record.name) :
    InOrder R seen' ms := by
  induction ms generalizing seen seen' with
  | nil => trivial
  | cons m rest ih =>
      obtain ⟨hfields, hrest⟩ := h
      obtain ⟨hm, hlater⟩ := List.forall_mem_cons.1 hseen
      refine ⟨fun f hf b hb => ?_, ih hrest fun m' hm' b hb => ?_⟩
      · exact (hfields f hf hb).elim hm .inr
      · obtain hb | hb := hb
        · exact (hlater m' hm' hb).imp_left .inl
        · exact .inl (.inr hb)

theorem append (h : InOrder R seen ms) (h' : InOrder R seen' ms')
    (hseen : ∀ {b}, seen' b → seen b ∨ ∃ m ∈ ms, m.record.name = b) :
    InOrder R seen (ms ++ ms') := by
  induction ms generalizing seen with
  | nil => exact h'.of_seen fun _ _ _ hb => .inl ((hseen hb).resolve_right (by simp))
  | cons m rest ih =>
      refine ⟨h.1, ih h.2 fun hb => ?_⟩
      simpa [or_assoc] using hseen hb

/-- A record is made after those it refers to, unless they were seen or lead back to it. -/
theorem made_before {before after : List Making} (h : InOrder R seen (before ++ m :: after))
    {f : RecordField} (hf : f ∈ m.record.fields) {b : QualifiedName} (hb : f.refersTo? = some b) :
    seen b ∨ (∃ m' ∈ before, m'.record.name = b) ∨ ReflTransGen R b m.record.name := by
  induction before generalizing seen with
  | nil => exact (h.1 f hf hb).imp_right .inr
  | cons first before ih =>
      rw [List.exists_mem_cons_iff, or_assoc, ← or_assoc]
      exact ih h.2

end InOrder

/-! ### Courses -/

/-- From one of the names the relation leads to each of the made records. -/
def LeadsTo (R : QualifiedName → QualifiedName → Prop) (names : QualifiedName → Prop)
    (ms : List Making) : Prop :=
  ∀ m ∈ ms, ∃ n, names n ∧ ReflTransGen R n m.record.name

/-- The names to which some of the fields refer. -/
def TargetOf (fields : List RecordField) (n : QualifiedName) : Prop :=
  ∃ f ∈ fields, f.refersTo? = some n

theorem Advances.holds_iff {run run' : Run} {ms : List Making} (h : Advances c run ms run')
    {name : QualifiedName} : run'.codecs.holds name = true ↔
      run.codecs.holds name = true ∨ ∃ m ∈ ms, m.record.name = name := by
  simp only [Reservations.holds_iff, h.mem_slots_iff]
  constructor
  · rintro ⟨pair?, hslot | ⟨m, hm, heq⟩⟩
    · exact .inl ⟨pair?, hslot⟩
    · exact .inr ⟨m, hm, (congrArg Prod.fst heq).symm⟩
  · rintro (⟨pair?, hslot⟩ | ⟨m, hm, rfl⟩)
    · exact ⟨pair?, .inl hslot⟩
    · exact ⟨_, .inr ⟨m, hm, rfl⟩⟩

section

variable {f owner : Field} {names : ArtifactNames} {fields : List RecordField}
  {run run₁ run₂ : Run} {ms : List Making}

/-- The record that is made last has only references to what was made below it, to itself and to
what was there before; the records below it may refer to it, since it leads to all of them. -/
theorem Begun.inOrder (h : Begun c f owner run names run₁) (ha : Advances c run₁ ms run₂)
    (hfollows : Making.Follows R ⟨owner, recordDefinition owner names f.identity fields⟩)
    (htargets : ∀ g ∈ fields, ∀ {others}, g.names? = some others → Known c run₂ others)
    (hin : InOrder R (fun n => run₁.codecs.holds n = true) ms)
    (hleads : LeadsTo R (TargetOf fields) ms) :
    InOrder R (fun n => run.codecs.holds n = true)
        (ms ++ [⟨owner, recordDefinition owner names f.identity fields⟩]) ∧
      LeadsTo R (· = names.record)
        (ms ++ [⟨owner, recordDefinition owner names f.identity fields⟩]) := by
  have hdown : ∀ m ∈ ms, ReflTransGen R names.record m.record.name := by
    intro m hm
    obtain ⟨n, ⟨g, hg, hn⟩, hway⟩ := hleads m hm
    exact .head (hfollows g hg hn) hway
  constructor
  · have hbelow : InOrder R (fun n => run.codecs.holds n = true) ms := by
      refine hin.of_seen fun m hm b hb => ?_
      obtain rfl | hb := h.holds_iff.1 hb
      · exact .inr (hdown m hm)
      · exact .inl hb
    have hlast : InOrder R (fun n => run₂.codecs.holds n = true ∧ n ≠ names.record)
        [⟨owner, recordDefinition owner names f.identity fields⟩] := by
      refine ⟨fun g hg b hb => ?_, trivial⟩
      rw [RecordField.refersTo?_eq] at hb
      obtain ⟨others, hothers, rfl⟩ := Option.map_eq_some_iff.1 hb
      by_cases hself : others.record = names.record
      · exact .inr (hself ▸ .refl)
      · exact .inl ⟨(htargets g hg hothers).held, hself⟩
    refine hbelow.append hlast fun hb => ?_
    obtain ⟨hb, hne⟩ := hb
    obtain hb | hmade := ha.holds_iff.1 hb
    · exact .inl ((h.holds_iff.1 hb).resolve_left hne)
    · exact .inr hmade
  · intro m hm
    obtain hm | hm := List.mem_append.1 hm
    · exact ⟨_, rfl, hdown m hm⟩
    · exact ⟨_, rfl, List.mem_singleton.1 hm ▸ .refl⟩

end

mutual

theorem Resolves.inOrder {enclosing : String} {place : Place} {f : Field} {run run' : Run}
    {target : Target} {ms : List Making} :
    Resolves c enclosing place f run target ms run' → Tidy c run → (∀ m ∈ ms, m.Follows R) →
      InOrder R (fun n => run.codecs.holds n = true) ms ∧
        LeadsTo R (fun n => target.record? = some n) ms
  | .document _ _, _, _ => ⟨trivial, nofun⟩
  | .external _ _ _ _, _, _ => ⟨trivial, nofun⟩
  | .shared _ _, _, _ => ⟨trivial, nofun⟩
  | .held _ _ _, _, _ => ⟨trivial, nofun⟩
  | .made hdefines hannounce hr hfields, ht, hfollows => by
      have hbegun := begun_of_reserve hdefines hannounce hr
      obtain ⟨hfollows, hlast⟩ := List.forall_mem_append.1 hfollows
      obtain ⟨ha, htargets⟩ := hfields.advances (hbegun.tidy ht)
      obtain ⟨hin, hleads⟩ := hfields.inOrder (hbegun.tidy ht) hfollows
      obtain ⟨hin, hleads⟩ :=
        hbegun.inOrder ha (List.forall_mem_singleton.1 hlast) htargets hin hleads
      refine ⟨hin, fun m hm => ?_⟩
      obtain ⟨_, rfl, hway⟩ := hleads m hm
      exact ⟨_, rfl, hway⟩

theorem Compiles.inOrder {enclosing : String} {place : Place} {accessors constants : List String}
    {fs : List Field} {run run' : Run} {fields : List RecordField} {ms : List Making} :
    Compiles c enclosing place accessors constants fs run fields ms run' → Tidy c run →
      (∀ m ∈ ms, m.Follows R) →
      InOrder R (fun n => run.codecs.holds n = true) ms ∧ LeadsTo R (TargetOf fields) ms
  | .nil, _, _ => ⟨trivial, nofun⟩
  | .plain _ _ _ hrest, ht, hfollows => by
      obtain ⟨hin, hleads⟩ := hrest.inOrder ht hfollows
      refine ⟨hin, fun m hm => ?_⟩
      obtain ⟨n, ⟨g, hg, hn⟩, hway⟩ := hleads m hm
      exact ⟨n, ⟨g, List.mem_cons_of_mem _ hg, hn⟩, hway⟩
  | .struct _ _ hresolves _ hrest, ht, hfollows => by
      obtain ⟨hfirst, hlater⟩ := List.forall_mem_append.1 hfollows
      obtain ⟨ha, _⟩ := hresolves.advances ht
      obtain ⟨hin, hleads⟩ := hresolves.inOrder ht hfirst
      obtain ⟨hin', hleads'⟩ := hrest.inOrder ha.tidy hlater
      refine ⟨hin.append hin' ha.holds_iff.1, List.forall_mem_append.2 ⟨fun m hm => ?_, ?_⟩⟩
      · obtain ⟨n, hn, hway⟩ := hleads m hm
        exact ⟨n, ⟨_, List.mem_cons_self, hn⟩, hway⟩
      · intro m hm
        obtain ⟨n, ⟨g, hg, hn⟩, hway⟩ := hleads' m hm
        exact ⟨n, ⟨g, List.mem_cons_of_mem _ hg, hn⟩, hway⟩

end

theorem CompilesRoots.inOrder {roots : List Field} {run run' : Run}
    {targets : List ArtifactNames} {ms : List Making}
    (h : CompilesRoots c roots run targets ms run') (ht : Tidy c run)
    (hfollows : ∀ m ∈ ms, m.Follows R) : InOrder R (fun n => run.codecs.holds n = true) ms := by
  induction h with
  | nil => trivial
  | cons _ hresolves _ ih =>
      obtain ⟨hfirst, hlater⟩ := List.forall_mem_append.1 hfollows
      obtain ⟨ha, _⟩ := hresolves.advances ht
      exact (hresolves.inOrder ht hfirst).1.append (ih ha.tidy hlater) ha.holds_iff.1

end Compile

/-! ### Delivery -/

/-- The record for which an artifact was made. -/
def Artifact.madeFor : Artifact → QualifiedName
  | .record r => r.name
  | .decoder d => d.record
  | .encoder e => e.record
  | .builder b => b.record

namespace Catalog

variable {catalog : Catalog} {a b : QualifiedName}

/-- The artifacts of the first record, and there are some, all come before those of the second. -/
def Precedes (catalog : Catalog) (a b : QualifiedName) : Prop :=
  ∃ before after, catalog.artifacts = before ++ after ∧
    (∃ x ∈ before, x.madeFor = a) ∧ (∃ y ∈ after, y.madeFor = b) ∧
    (∀ x ∈ before, x.madeFor ≠ b) ∧ ∀ y ∈ after, y.madeFor ≠ a

/-- What a record refers to is delivered before it, except within a cycle. -/
structure DependenciesFirst (catalog : Catalog) : Prop where
  precedes : ∀ {a b}, catalog.Refers a b → b ≠ a →
    catalog.Precedes b a ∨ TransGen catalog.Refers b a
  recursive : ∀ {a b}, catalog.Refers a b → TransGen catalog.Refers b a →
    ∀ r ∈ catalog.records, r.name = a ∨ r.name = b → r.recursive = true
  acyclic : (∀ r ∈ catalog.records, r.recursive = false) →
    ∀ {a b}, catalog.Refers a b → catalog.Precedes b a

/-- Entries that come before an entry are delivered before it. -/
theorem precedes_of_entries {before after : List Entry} {e : Entry}
    (hartifacts : ∀ e ∈ catalog.entries, ∀ x ∈ e.artifacts, x.madeFor = e.name)
    (hn : (catalog.entries.map Entry.name).Nodup)
    (hentries : catalog.entries = before ++ e :: after)
    (hb : ∃ e' ∈ before, e'.name = b) : catalog.Precedes b e.name := by
  obtain ⟨e', he', rfl⟩ := hb
  rw [hentries, List.forall_mem_append] at hartifacts
  obtain ⟨hbefore, hafter⟩ := hartifacts
  rw [hentries, List.map_append, List.nodup_append] at hn
  obtain ⟨_, _, hapart⟩ := hn
  refine ⟨before.flatMap Entry.artifacts, (e :: after).flatMap Entry.artifacts, ?_, ?_, ?_, ?_, ?_⟩
  · rw [artifacts, hentries, List.flatMap_append]
  · exact ⟨.record e'.definition, List.mem_flatMap.2 ⟨e', he', List.mem_cons_self⟩, rfl⟩
  · refine ⟨.record e.definition, List.mem_flatMap.2 ⟨e, ?_, ?_⟩, rfl⟩
    · exact List.mem_cons_self
    · exact List.mem_cons_self
  · intro x hx
    obtain ⟨d, hd, hx⟩ := List.mem_flatMap.1 hx
    rw [hbefore d hd x hx]
    exact hapart _ (List.mem_map_of_mem hd) _ (List.mem_map_of_mem List.mem_cons_self)
  · intro y hy
    obtain ⟨d, hd, hy⟩ := List.mem_flatMap.1 hy
    rw [hafter d hd y hy]
    exact (hapart _ (List.mem_map_of_mem he') _ (List.mem_map_of_mem hd)).symm

end Catalog

namespace Forest

open Compile

variable {settings : Settings} {forest : Forest} {catalog : Catalog}

theorem madeFor_eq_of_mem_artifacts (h : forest.compile settings = .ok catalog) {e : Entry}
    (he : e ∈ catalog.entries) {x : Artifact} (hx : x ∈ e.artifacts) : x.madeFor = e.name := by
  have hgenerated := generated_of_compile h he
  simp only [Entry.artifacts, List.mem_append, List.mem_cons, List.not_mem_nil, or_false,
    Option.mem_toList, Option.map_eq_some_iff] at hx
  obtain (rfl | rfl | rfl) | ⟨b, hb, rfl⟩ := hx
  · rfl
  · rw [Artifact.madeFor, hgenerated.decoder_eq]
  · rw [Artifact.madeFor, hgenerated.encoder_eq]
  · rw [Artifact.madeFor, builder_of_compile h he hb]
    rfl

/-- A record that another refers to is entered before it, unless it leads back to it. -/
theorem entered_before (h : forest.compile settings = .ok catalog) {before after : List Entry}
    {e : Entry} (hentries : catalog.entries = before ++ e :: after) {f : RecordField}
    (hf : f ∈ e.definition.fields) {b : QualifiedName} (hb : f.refersTo? = some b) :
    (∃ e' ∈ before, e'.name = b) ∨ ReflTransGen catalog.Refers b e.name := by
  obtain ⟨targets, ms, run, groups, _, hcourse, hrecords⟩ := course_of_compile h
  have hfollows : ∀ m ∈ ms, m.Follows catalog.Refers := by
    intro m hm g hg b hb
    refine ⟨flagged _ _ m.record, hrecords ▸ List.mem_map_of_mem hm, rfl, ?_⟩
    exact ⟨_, List.mem_map_of_mem hg, hb⟩
  have hin := hcourse.inOrder tidy_start hfollows
  -- the made records are cut where the entries are
  rw [Catalog.records, hentries, List.map_append, List.map_cons] at hrecords
  obtain ⟨first, rest, rfl, hfirst, hrest⟩ := List.map_eq_append_iff.1 hrecords.symm
  obtain ⟨m, later, rfl, hm, _⟩ := List.map_eq_cons_iff.1 hrest
  have hnames : first.map (·.record.name) = before.map Entry.name := by
    have hmapped := congrArg (List.map RecordDefinition.name) hfirst
    rw [List.map_map, List.map_map] at hmapped
    exact hmapped
  rw [← hm] at hf
  obtain ⟨g, hg, rfl⟩ := List.mem_map.1 hf
  obtain hseen | ⟨m', hm', rfl⟩ | hback := hin.made_before hg hb
  · cases hseen
  · exact .inl (List.mem_map.1 (hnames ▸ List.mem_map_of_mem hm'))
  · exact .inr (by rwa [Entry.name, ← hm])

/-- A catalog delivers dependencies first. -/
theorem compile_dependenciesFirst (settings : Settings) (forest : Forest) :
    ∀ catalog, forest.compile settings = .ok catalog → catalog.DependenciesFirst := by
  intro catalog h
  have hprecedes : ∀ {a b}, catalog.Refers a b → b ≠ a →
      catalog.Precedes b a ∨ TransGen catalog.Refers b a := by
    rintro a b ⟨r, hr, rfl, f, hf, hb⟩ hne
    obtain ⟨e, he, rfl⟩ := List.mem_map.1 hr
    obtain ⟨before, after, hentries⟩ := List.append_of_mem he
    obtain hbefore | hback := entered_before h hentries hf hb
    · exact .inl (Catalog.precedes_of_entries (fun _ he _ hx => madeFor_eq_of_mem_artifacts h he hx)
        (nodup_names_of_compile h) hentries hbefore)
    · exact .inr ((Relation.reflTransGen_iff_eq_or_transGen.1 hback).resolve_left hne.symm)
  have hrecursive : ∀ {a b}, catalog.Refers a b → TransGen catalog.Refers b a →
      ∀ r ∈ catalog.records, r.name = a ∨ r.name = b → r.recursive = true := by
    intro a b hrefers hback r hr hname
    rw [recursive_iff_of_compile h hr]
    obtain rfl | rfl := hname
    · exact .head hrefers hback
    · exact hback.tail hrefers
  refine ⟨hprecedes, hrecursive, fun hnone a b hrefers => ?_⟩
  obtain ⟨r, hr, rfl, _⟩ := id hrefers
  have hno : ¬TransGen catalog.Refers b r.name := fun hback => by
    have hflag := hrecursive hrefers hback r hr (.inl rfl)
    rw [hnone r hr] at hflag
    cases hflag
  have hne : b ≠ r.name := by
    rintro rfl
    exact hno (.single hrefers)
  exact (hprecedes hrefers hne).resolve_right hno

end Forest

/-- A company and its head, who refer to each other, and an office. -/
def Forest.company : Forest where
  roots := [
    { name := "company", identity := some "company", properties := [
        { name := "head", identity := some "person" },
        { name := "office", properties := [{ name := "floor", type := some (.scalar .int) }] }] },
    { name := "person", identity := some "person", properties := [
        { name := "employer", identity := some "company" }] }]

theorem Forest.company_compiles : ∃ catalog, company.compile {} = .ok catalog ∧
    decide (catalog.artifacts.map (fun x => (x.madeFor.name, x.kind)) =
      [("Person", "record"), ("Person", "decoder"), ("Person", "encoder"), ("Person", "builder"),
        ("CompanyOffice", "record"), ("CompanyOffice", "decoder"), ("CompanyOffice", "encoder"),
        ("Company", "record"), ("Company", "decoder"), ("Company", "encoder"),
        ("Company", "builder")]) = true :=
  exists_catalog (by decide +kernel)

theorem Forest.company_dependenciesFirst : ∃ catalog, company.compile {} = .ok catalog ∧
    catalog.artifacts.map (fun x => (x.madeFor.name, x.kind)) =
      [("Person", "record"), ("Person", "decoder"), ("Person", "encoder"), ("Person", "builder"),
        ("CompanyOffice", "record"), ("CompanyOffice", "decoder"), ("CompanyOffice", "encoder"),
        ("Company", "record"), ("Company", "decoder"), ("Company", "encoder"),
        ("Company", "builder")] ∧ catalog.DependenciesFirst := by
  obtain ⟨catalog, hc, hartifacts⟩ := company_compiles
  exact ⟨catalog, hc, of_decide_eq_true hartifacts, compile_dependenciesFirst {} company catalog hc⟩

end RecordCodec
