import RecordCodec.Proofs.Compile.ArtifactNames
import RecordCodec.Proofs.Compile.Cycles
import RecordCodec.Proofs.Compile.Parallel

/-!
Appended roots. Roots are compiled in order, so a schema with further roots at its end is compiled
by compiling the schema first. The first owner of an identity counts, so owned identities keep
their owners; only an identity that was external can get one from the further roots. If none does
to which the schema comes, the records of the schema are made as before, and those of the further
roots after them. The earlier records refer to each other only, so that the cycles among them stay
the same as well.
-/

namespace RecordCodec

open Relation (ReflTransGen TransGen)

/-! ### More roots -/

theorem Field.ownerIn?_append (identity : String) (fs gs : List Field) :
    ownerIn? identity (fs ++ gs) = (ownerIn? identity fs).or (ownerIn? identity gs) := by
  induction fs with
  | nil => simp [ownerIn?]
  | cons f rest ih =>
      rw [List.cons_append, ownerIn?, ownerIn?, ih]
      cases owner? identity f with
      | none => rfl
      | some owner => rfl

/-- The schema with further roots. -/
def Forest.append (forest : Forest) (later : List Field) : Forest :=
  { forest with roots := forest.roots ++ later }

theorem Forest.owner?_append (forest : Forest) (later : List Field) (identity : String) :
    (forest.append later).owner? identity =
      (forest.owner? identity).or (Field.ownerIn? identity later) :=
  Field.ownerIn?_append identity forest.roots later

namespace Compile

variable {c : Setting} {settings : Settings} {forest : Forest} {later : List Field}

/-- None of the trees owns an identity that the compilation treats as external. -/
def LeavesExternal (c : Setting) (later : List Field) : Prop :=
  ∀ identity, TreatsAsExternal c identity → Field.ownerIn? identity later = none

theorem LeavesExternal.alongside (h : LeavesExternal ⟨settings, forest⟩ later) :
    Alongside (· = ·) ⟨settings, forest⟩ ⟨settings, forest.append later⟩ where
  settings := rfl
  owned := by
    intro identity owner howner
    refine ⟨owner, ?_, rfl⟩
    rw [Forest.owner?_append, howner, Option.some_or]
  external := by
    intro identity hexternal
    rw [Forest.owner?_append, hexternal.1, Option.none_or]
    exact h identity hexternal

theorem CompilesRoots.split {roots later : List Field} {run run' : Run}
    {targets : List ArtifactNames} {ms : List Making}
    (h : CompilesRoots c (roots ++ later) run targets ms run') :
    ∃ first rest made more run₁, targets = first ++ rest ∧ ms = made ++ more ∧
      CompilesRoots c roots run first made run₁ ∧ CompilesRoots c later run₁ rest more run' := by
  induction roots generalizing run targets ms with
  | nil => exact ⟨[], targets, [], ms, run, rfl, rfl, .nil, h⟩
  | cons root others ih =>
      cases h with
      | cons htype hresolves hrest =>
          obtain ⟨first, rest, made, more, run₁, rfl, rfl, hothers, hlater⟩ := ih hrest
          exact ⟨_, rest, _, more, run₁, rfl, (List.append_assoc ..).symm,
            .cons htype hresolves hothers, hlater⟩

/-- From one field and one place comes one compiled field. -/
theorem TwinFields.eq {f g : RecordField} (h : TwinFields (· = ·) f g) : f = g := by
  obtain ⟨rfl, hdefault, hdefault'⟩ := h
  rw [hdefault] at hdefault'
  cases hdefault'
  rfl

theorem TwinMakings.eq {m m' : Making} (h : TwinMakings (· = ·) m m') : m = m' := by
  obtain ⟨rfl, hfields⟩ := h
  have hsame := hfields.imp fun _ _ => TwinFields.eq
  rw [List.forall₂_eq_eq_eq] at hsame
  subst hsame
  rfl

end Compile

/-! ### References among the first records -/

/-- Going along a relation from a closed set of names stays in the set. -/
theorem reflTransGen_of_closed {R R' : QualifiedName → QualifiedName → Prop}
    {S : QualifiedName → Prop} (hstep : ∀ {a b}, S a → R a b → R' a b ∧ S b)
    {a b : QualifiedName} (ha : S a) (h : ReflTransGen R a b) : ReflTransGen R' a b := by
  induction h using ReflTransGen.head_induction_on with
  | refl => exact .refl
  | head hab _ ih =>
      obtain ⟨hab', hb⟩ := hstep ha hab
      exact .head hab' (ih hb)

/-- The records made, whatever their flags, say which record refers to which. -/
theorem Catalog.refers_iff_of_flagged {catalog : Catalog} {ms : List Compile.Making}
    {roots : List QualifiedName} {groups : List CycleGroup}
    (hrecords : catalog.records = ms.map fun m => Compile.flagged roots groups m.record)
    {a b : QualifiedName} : catalog.Refers a b ↔
      ∃ m ∈ ms, m.record.name = a ∧ ∃ f ∈ m.record.fields, f.refersTo? = some b := by
  simp [Refers, hrecords, Compile.flagged, RecordDefinition.name, RecordField.refersTo?]

/-- The name is that of a record that was made. -/
def Compile.Named (ms : List Compile.Making) (name : QualifiedName) : Prop :=
  ∃ m ∈ ms, m.record.name = name

/-! ### The records of an extended schema -/

/-- The definition without saying whether it was made for a root. -/
def RecordDefinition.rootless (r : RecordDefinition) : RecordDefinition := { r with root := false }

@[simp] theorem RecordDefinition.names_rootless (r : RecordDefinition) :
    r.rootless.names = r.names := rfl

@[simp] theorem RecordDefinition.fields_rootless (r : RecordDefinition) :
    r.rootless.fields = r.fields := rfl

/-- The definitions of two catalogs made in one course up to where the shorter one ends. -/
structure Catalog.Continues (catalog catalog' : Catalog) (ms more : List Compile.Making)
    (roots others : List QualifiedName) (groups groups' : List CycleGroup) : Prop where
  first : catalog.records = ms.map fun m => Compile.flagged roots groups m.record
  whole : catalog'.records =
    (ms ++ more).map fun m => Compile.flagged (roots ++ others) groups' m.record

namespace Forest

open Compile

variable {settings : Settings} {forest : Forest} {later : List Field}
  {catalog catalog' : Catalog}

theorem continues_of_append (hopen : LeavesExternal ⟨settings, forest⟩ later)
    (h : forest.compile settings = .ok catalog)
    (h' : (forest.append later).compile settings = .ok catalog') :
    ∃ ms more roots others groups groups',
      catalog.Continues catalog' ms more roots others groups groups' := by
  obtain ⟨targets, ms, run, _, hcourse, hrecords⟩ := flagged_of_compile h
  obtain ⟨targets', ms', run', _, hcourse', hrecords'⟩ := flagged_of_compile h'
  obtain ⟨first, rest, made, more, run₁, rfl, rfl, hfirst, _⟩ := CompilesRoots.split hcourse'
  have hcompilable := (hcourse.settles tidy_start registersOwned_start).1
  have hsame : List.Forall₂ (· = ·) forest.roots forest.roots := by rw [List.forall₂_eq_eq_eq]
  obtain ⟨rfl, hms, _⟩ := hcourse.alongside Field.likeness_eq hopen.alongside hfirst hsame
    tidy_start tidy_start ⟨rfl, rfl⟩ fun root hroot => ⟨hroot, (hcompilable root hroot).2⟩
  have hmade := hms.imp fun _ _ => TwinMakings.eq
  rw [List.forall₂_eq_eq_eq] at hmade
  subst hmade
  have htargets : (targets ++ rest).map ArtifactNames.record =
      targets.map ArtifactNames.record ++ rest.map ArtifactNames.record := List.map_append
  rw [htargets] at hrecords'
  exact ⟨ms, more, _, _, _, _, hrecords, hrecords'⟩

section

variable {ms more : List Making} {roots others : List QualifiedName}
  {groups groups' : List CycleGroup} {a b : QualifiedName}
  (h : forest.compile settings = .ok catalog)
  (h' : (forest.append later).compile settings = .ok catalog')
  (hc : catalog.Continues catalog' ms more roots others groups groups')

include h h' hc

omit h' in
/-- What the first records refer to is among them. -/
theorem named_of_refers (hrefers : catalog.Refers a b) : Named ms b := by
  obtain ⟨r, hr, -, f, hf, hb⟩ := hrefers
  obtain ⟨e, he, rfl⟩ := List.mem_map.1 hr
  rw [RecordField.refersTo?_eq] at hb
  obtain ⟨names, hnames, rfl⟩ := Option.map_eq_some_iff.1 hb
  obtain ⟨e', he', rfl⟩ := exists_entry_of_names h he hf hnames
  have hdefinition : e'.definition ∈ catalog.records := List.mem_map_of_mem he'
  rw [hc.first] at hdefinition
  obtain ⟨m, hm, heq⟩ := List.mem_map.1 hdefinition
  exact ⟨m, hm, congrArg (·.names.record) heq⟩

omit h in
/-- The first records refer to what they referred to before. -/
theorem refers_iff_of_first (ha : Named ms a) : catalog'.Refers a b ↔ catalog.Refers a b := by
  obtain ⟨m, hm, rfl⟩ := ha
  rw [Catalog.refers_iff_of_flagged hc.first, Catalog.refers_iff_of_flagged hc.whole]
  constructor
  · rintro ⟨m', hm', hname, hrefers⟩
    -- names are different, so the later records have other names
    have hnames : ((ms ++ more).map (·.record.name)).Nodup := by
      have hn := nodup_names_of_compile h'
      have hmapped := congrArg (List.map RecordDefinition.name) hc.whole
      rw [Catalog.records, List.map_map, List.map_map] at hmapped
      exact hmapped ▸ hn
    obtain rfl := List.inj_on_of_nodup_map hnames hm' (List.mem_append_left _ hm) hname
    exact ⟨m', hm, rfl, hrefers⟩
  · rintro ⟨m', hm', hname, hrefers⟩
    exact ⟨m', List.mem_append_left _ hm', hname, hrefers⟩

theorem reaches_iff_of_first (ha : Named ms a) :
    ReflTransGen catalog'.Refers a b ↔ ReflTransGen catalog.Refers a b := by
  constructor
  · refine reflTransGen_of_closed (fun hn hrefers => ?_) ha
    have hbefore := (refers_iff_of_first h' hc hn).1 hrefers
    exact ⟨hbefore, named_of_refers h hc hbefore⟩
  · refine reflTransGen_of_closed (fun hn hrefers => ?_) ha
    exact ⟨(refers_iff_of_first h' hc hn).2 hrefers, named_of_refers h hc hrefers⟩

theorem leads_iff_of_first (ha : Named ms a) :
    TransGen catalog'.Refers a b ↔ TransGen catalog.Refers a b := by
  rw [TransGen.head'_iff, TransGen.head'_iff]
  refine exists_congr fun n => ?_
  rw [refers_iff_of_first h' hc ha]
  exact and_congr_right fun hrefers => reaches_iff_of_first h h' hc (named_of_refers h hc hrefers)

/-- A record that was made before has the flags it had, but for being a root. -/
theorem flagged_of_first {m : Making} (hm : m ∈ ms) :
    (flagged (roots ++ others) groups' m.record).rootless =
      (flagged roots groups m.record).rootless := by
  have hr : flagged roots groups m.record ∈ catalog.records :=
    hc.first ▸ List.mem_map.2 ⟨m, hm, rfl⟩
  have hr' : flagged (roots ++ others) groups' m.record ∈ catalog'.records :=
    hc.whole ▸ List.mem_map.2 ⟨m, List.mem_append_left _ hm, rfl⟩
  have hfirst : Named ms m.record.name := ⟨m, hm, rfl⟩
  have hrecursive : isRecursive groups' m.record.name = isRecursive groups m.record.name := by
    rw [Bool.eq_iff_iff]
    exact (recursive_iff_of_compile h' hr').trans
      ((leads_iff_of_first h h' hc hfirst).trans (recursive_iff_of_compile h hr).symm)
  have hboxed : ∀ f ∈ m.record.fields,
      needsBox groups' m.record.name f.name = needsBox groups m.record.name f.name := by
    intro f hf
    have hbefore := boxed_iff_of_compile h hr (List.mem_map.2 ⟨f, hf, rfl⟩)
    have hafter := boxed_iff_of_compile h' hr' (List.mem_map.2 ⟨f, hf, rfl⟩)
    rw [Bool.eq_iff_iff]
    refine hafter.trans (Iff.trans ?_ hbefore.symm)
    refine and_congr_right fun _ => exists_congr fun target => and_congr_right fun htarget => ?_
    have hrefers : catalog.Refers m.record.name target :=
      (Catalog.refers_iff_of_flagged hc.first).2 ⟨m, hm, rfl, f, hf, htarget⟩
    exact reaches_iff_of_first h h' hc (named_of_refers h hc hrefers)
  have hfields : (flagged (roots ++ others) groups' m.record).fields =
      (flagged roots groups m.record).fields :=
    List.map_congr_left fun f hf => by rw [hboxed f hf]
  simp only [RecordDefinition.rootless, flagged] at hfields ⊢
  rw [hrecursive, hfields]

end

end Forest

/-! ### Entries -/

/-- Of an entry another one keeps everything, its record may have become a root. -/
structure Entry.KeptAs (e e' : Entry) : Prop where
  definition : e'.definition.rootless = e.definition.rootless
  decoder : e'.decoder = e.decoder
  encoder : e'.encoder = e.encoder
  root : e.definition.root = true → e'.definition.root = true
  builder : ∀ {b}, e.builder = some b → e'.builder = some b

namespace Forest

open Compile

variable {settings : Settings} {forest : Forest} {later : List Field}
  {catalog catalog' : Catalog}

/-- An entry of the same definition, whether or not that is a root, is kept. -/
theorem keptAs_of_definition (h : forest.compile settings = .ok catalog)
    (h' : (forest.append later).compile settings = .ok catalog') {e e' : Entry}
    (he : e ∈ catalog.entries) (he' : e' ∈ catalog'.entries)
    (hdefinition : e'.definition.rootless = e.definition.rootless)
    (hroot : e.definition.root = true → e'.definition.root = true) : e.KeptAs e' := by
  have hnames : e'.definition.names = e.definition.names := by
    simpa using congrArg RecordDefinition.names hdefinition
  have hfields : e'.definition.fields = e.definition.fields := by
    simpa using congrArg RecordDefinition.fields hdefinition
  refine ⟨hdefinition, ?_, ?_, hroot, fun {b} hb => ?_⟩
  · rw [(generated_of_compile h he).decoder_eq, (generated_of_compile h' he').decoder_eq,
      Entry.name, Entry.name, RecordDefinition.name, RecordDefinition.name, hnames, hfields]
  · rw [(generated_of_compile h he).encoder_eq, (generated_of_compile h' he').encoder_eq,
      Entry.name, Entry.name, RecordDefinition.name, RecordDefinition.name, hnames, hfields]
  · rw [builder_eq_of_compile h he, Option.ite_none_right_eq_some] at hb
    obtain ⟨hisRoot, hbuilder⟩ := hb
    rw [builder_eq_of_compile h' he', if_pos (hroot hisRoot), ← hbuilder, Builder.ofRecord,
      Builder.ofRecord, RecordDefinition.name, RecordDefinition.name, hnames, hfields]

/-- Roots appended to a schema leave all entries in place, unless they own an identity that the
schema treats as external. -/
theorem compile_append (hopen : LeavesExternal ⟨settings, forest⟩ later) :
    ∀ catalog catalog', forest.compile settings = .ok catalog →
      (forest.append later).compile settings = .ok catalog' →
      ∃ kept added, catalog'.entries = kept ++ added ∧
        List.Forall₂ Entry.KeptAs catalog.entries kept := by
  intro catalog catalog' h h'
  obtain ⟨ms, more, roots, others, groups, groups', hc⟩ := continues_of_append hopen h h'
  have hwhole := hc.whole
  rw [List.map_append, Catalog.records] at hwhole
  obtain ⟨kept, added, hentries, hkept, _⟩ := List.map_eq_append_iff.1 hwhole
  have hpairs : List.Forall₂ (fun r r' => ∃ m ∈ ms, r = flagged roots groups m.record ∧
      r' = flagged (roots ++ others) groups' m.record)
      (catalog.entries.map (·.definition)) (kept.map (·.definition)) := by
    rw [hkept, ← Catalog.records, hc.first, List.forall₂_map_left_iff, List.forall₂_map_right_iff]
    exact List.forall₂_same.2 fun m hm => ⟨m, hm, rfl, rfl⟩
  rw [List.forall₂_map_left_iff, List.forall₂_map_right_iff] at hpairs
  refine ⟨kept, added, hentries, List.forall₂_iff_zip.2 ⟨hpairs.length_eq, fun hpair => ?_⟩⟩
  obtain ⟨he, he'⟩ := List.of_mem_zip hpair
  obtain ⟨m, hm, hdefinition, hdefinition'⟩ := List.forall₂_zip hpairs hpair
  refine keptAs_of_definition h h' he (hentries ▸ List.mem_append_left _ he') ?_ ?_
  · rw [hdefinition, hdefinition']
    exact flagged_of_first h h' hc hm
  · rw [hdefinition, hdefinition']
    simp only [flagged, List.contains_eq_mem, List.mem_append, decide_eq_true_eq]
    exact .inl

/-- An order with its buyer and a courier defined elsewhere. -/
def shop : Forest where
  external := ["courier"]
  roots := [
    { name := "order", properties := [
        { name := "buyer", identity := some "customer", properties := [
            { name := "friends", type := some (.list .struct), identity := some "customer" }] },
        { name := "courier", identity := some "courier" }] }]

/-- The customer as a root, and parcels. -/
def shopLater : List Field := [
  { name := "customer", identity := some "customer" },
  { name := "shipment", properties := [
      { name := "parcel", identity := some "parcel", properties := [
          { name := "order", identity := some "courier" }] }] }]

theorem shop_compiles : ∃ catalog, shop.compile {} = .ok catalog ∧
    decide (catalog.records.map (fun r => (r.name.name, r.root)) =
      [("Customer", false), ("Order", true)]) = true :=
  exists_catalog (by decide +kernel)

theorem shopLater_compiles : ∃ catalog, (shop.append shopLater).compile {} = .ok catalog ∧
    decide (catalog.records.map (fun r => (r.name.name, r.root)) =
      [("Customer", true), ("Order", true), ("Parcel", false), ("Shipment", true)]) = true :=
  exists_catalog (by decide +kernel)

theorem shopLater_leavesExternal : LeavesExternal ⟨{}, shop⟩ shopLater := by
  rintro identity ⟨_, f, type, hvisited, _, _, hidentity⟩
  have hwithin := hvisited.within
  simp only [shop, Field.within_cons_iff, Field.not_within_nil, or_false] at hwithin
  obtain rfl | rfl | rfl | rfl := hwithin <;> cases hidentity <;> decide

theorem shop_append : ∃ catalog catalog' kept added, shop.compile {} = .ok catalog ∧
    (shop.append shopLater).compile {} = .ok catalog' ∧
    catalog.records.map (fun r => (r.name.name, r.root)) =
      [("Customer", false), ("Order", true)] ∧
    catalog'.records.map (fun r => (r.name.name, r.root)) =
      [("Customer", true), ("Order", true), ("Parcel", false), ("Shipment", true)] ∧
    catalog'.entries = kept ++ added ∧ List.Forall₂ Entry.KeptAs catalog.entries kept := by
  obtain ⟨catalog, hc, hroots⟩ := shop_compiles
  obtain ⟨catalog', hc', hroots'⟩ := shopLater_compiles
  obtain ⟨kept, added, hentries, hkept⟩ :=
    compile_append shopLater_leavesExternal catalog catalog' hc hc'
  exact ⟨catalog, catalog', kept, added, hc, hc', of_decide_eq_true hroots,
    of_decide_eq_true hroots', hentries, hkept⟩

end Forest
end RecordCodec
