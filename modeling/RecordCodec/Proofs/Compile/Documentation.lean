import RecordCodec.Proofs.Compile.ArtifactNames
import RecordCodec.Proofs.Compile.Cycles
import RecordCodec.Proofs.Compile.Parallel

/-!
Documentation and keys. The descriptions, samples, defaults, positions and document keys of fields
say nothing about shapes. `bare` takes them out of a schema, at every depth, and out of the
definitions of records. Compiling two schemas with the same bare schema comes, if it succeeds for
both, to the same bare definitions in the same order, flags and fingerprints included, and to
artifacts of the same names.
-/

namespace RecordCodec

/-! ### Bare schemas -/

namespace Field

mutual

/-- The field with nothing but names, types, identities, capabilities and nested fields. -/
def bare : Field → Field
  | f@{ properties := ps, .. } =>
      { f with
        wireName := none, description := none, default := none, sample := none, position := none
        properties := bareAll ps }

def bareAll : List Field → List Field
  | [] => []
  | f :: rest => bare f :: bareAll rest

end

theorem bareAll_eq_map (fs : List Field) : bareAll fs = fs.map bare := by
  induction fs with
  | nil => rfl
  | cons f rest ih => rw [bareAll, ih, List.map_cons]

theorem forall₂_bare {fs gs : List Field} (h : bareAll gs = bareAll fs) :
    List.Forall₂ (fun f g => g.bare = f.bare) fs gs := by
  rw [bareAll_eq_map, bareAll_eq_map] at h
  have hbare : List.Forall₂ (· = ·) (fs.map bare) (gs.map bare) := by
    rw [List.forall₂_eq_eq_eq, h]
  rw [List.forall₂_map_left_iff, List.forall₂_map_right_iff] at hbare
  exact hbare.imp fun _ _ => Eq.symm

variable (f : Field)

@[simp] theorem name_bare : f.bare.name = f.name := by
  obtain ⟨⟩ := f
  rfl

@[simp] theorem type_bare : f.bare.type = f.type := by
  obtain ⟨⟩ := f
  rfl

@[simp] theorem identity_bare : f.bare.identity = f.identity := by
  obtain ⟨⟩ := f
  rfl

@[simp] theorem capabilities_bare : f.bare.capabilities = f.capabilities := by
  obtain ⟨⟩ := f
  rfl

@[simp] theorem properties_bare : f.bare.properties = bareAll f.properties := by
  obtain ⟨⟩ := f
  rfl

theorem likeness_bare : Likeness fun f g => g.bare = f.bare where
  name h := by simpa using congrArg name h
  type h := by simpa using congrArg type h
  identity h := by simpa using congrArg identity h
  capabilities h := by simpa using congrArg capabilities h
  properties h := forall₂_bare (by simpa using congrArg properties h)

end Field

def Forest.bare (forest : Forest) : Forest :=
  { forest with roots := Field.bareAll forest.roots }

/-! ### Bare definitions -/

/-- The field without its documentation, under its own name as the key. -/
def RecordField.bare (f : RecordField) : RecordField :=
  { f with
    wireKey := f.name, description := none, default := none, sample := none, position := none }

def RecordDefinition.bare (r : RecordDefinition) : RecordDefinition :=
  { r with description := none, fields := r.fields.map RecordField.bare }

namespace Compile

theorem bare_flagged (roots : List QualifiedName) (groups : List CycleGroup)
    (r : RecordDefinition) : (flagged roots groups r).bare = flagged roots groups r.bare := by
  simp [flagged, RecordDefinition.bare, RecordField.bare, RecordDefinition.name]

end Compile

namespace ReferenceGraph

theorem referencesOf_bare (r : RecordDefinition) : referencesOf r.bare = referencesOf r := by
  simp only [referencesOf, RecordDefinition.bare, List.filterMap_map]
  rfl

theorem ofRecords_bare (records : List RecordDefinition) :
    ofRecords (records.map RecordDefinition.bare) = ofRecords records := by
  simp only [ofRecords, List.flatMap_map, List.map_map, referencesOf_bare]
  rfl

end ReferenceGraph

namespace Compile

variable {ρ : Field → Field → Prop} {f g : RecordField} {fs gs : List RecordField}
  {m m' : Making} {ms ms' : List Making}

theorem TwinFields.bare_eq (hρ : Field.Likeness ρ) (h : TwinFields ρ f g) : g.bare = f.bare := by
  obtain ⟨hfg, _, _⟩ := h
  simp [recordField, RecordField.bare, hρ.name hfg]

theorem twinFields_bare_eq (hρ : Field.Likeness ρ)
    (h : List.Forall₂ (TwinFields ρ) fs gs) :
    gs.map RecordField.bare = fs.map RecordField.bare :=
  map_eq_of_forall₂ (fun _ _ hfg => hfg.bare_eq hρ) h

/-- What is bare in the fields decides the fingerprint and the methods. -/
theorem TwinMakings.bare_eq (hρ : Field.Likeness ρ) (h : TwinMakings ρ m m') :
    m'.record.bare = m.record.bare := by
  obtain ⟨howner, hfields⟩ := h
  rename_i fields fields'
  have hbare := twinFields_bare_eq hρ hfields
  have hshape : (fields'.map fun f => (f.name, f.signature)) =
      fields.map fun f => (f.name, f.signature) := by
    have hread := congrArg (List.map fun f : RecordField => (f.name, f.signature)) hbare
    rwa [List.map_map, List.map_map] at hread
  have hmethods : fields'.map RecordField.method = fields.map RecordField.method := by
    have hread := congrArg (List.map RecordField.method) hbare
    rwa [List.map_map, List.map_map] at hread
  simp only [RecordDefinition.bare, recordDefinition, hbare, hshape, hmethods,
    hρ.capabilities howner]

theorem twinMakings_bare_eq (hρ : Field.Likeness ρ) (h : List.Forall₂ (TwinMakings ρ) ms ms') :
    (ms'.map (·.record)).map RecordDefinition.bare =
      (ms.map (·.record)).map RecordDefinition.bare := by
  rw [List.map_map, List.map_map]
  exact map_eq_of_forall₂ (fun _ _ hm => hm.bare_eq hρ) h

end Compile

/-! ### Compiling -/

namespace Forest

open Compile

variable {settings : Settings} {forest forest' : Forest} {catalog catalog' : Catalog}

/-- Schemas with like roots are compiled to records made in pairs, with the same flags. -/
theorem twins_of_compile {ρ : Field → Field → Prop} (hρ : Field.Likeness ρ)
    (hroots : List.Forall₂ ρ forest.roots forest'.roots)
    (h : forest.compile settings = .ok catalog) (h' : forest'.compile settings = .ok catalog') :
    ∃ roots groups ms ms', List.Forall₂ (TwinMakings ρ) ms ms' ∧
      catalog.records = ms.map (fun m => flagged roots groups m.record) ∧
      catalog'.records = ms'.map fun m => flagged roots groups m.record := by
  obtain ⟨targets, ms, run, _, hcourse, hrecords⟩ := flagged_of_compile h
  obtain ⟨targets', ms', run', _, hcourse', hrecords'⟩ := flagged_of_compile h'
  have hc : Alongside ρ ⟨settings, forest⟩ ⟨settings, forest'⟩ :=
    alongside_of_roots hρ rfl hroots
  have hcompilable := (hcourse.settles tidy_start registersOwned_start).1
  obtain ⟨rfl, hms, _⟩ := hcourse.alongside hρ hc hcourse' hroots tidy_start
    tidy_start ⟨rfl, rfl⟩ fun root hroot => ⟨hroot, (hcompilable root hroot).2⟩
  -- bare definitions refer as the full ones do, so the cycles are the same
  have hgraph : ReferenceGraph.ofRecords (ms'.map (·.record)) =
      ReferenceGraph.ofRecords (ms.map (·.record)) := by
    rw [← ReferenceGraph.ofRecords_bare, twinMakings_bare_eq hρ hms,
      ReferenceGraph.ofRecords_bare]
  rw [hgraph] at hrecords'
  exact ⟨_, _, ms, ms', hms, hrecords, hrecords'⟩

/-- Schemas that are bare alike are compiled to definitions that are bare alike. -/
theorem bare_records_eq (hbare : forest'.bare = forest.bare)
    (h : forest.compile settings = .ok catalog) (h' : forest'.compile settings = .ok catalog') :
    catalog'.records.map RecordDefinition.bare = catalog.records.map RecordDefinition.bare := by
  obtain ⟨roots, groups, ms, ms', hms, hrecords, hrecords'⟩ := twins_of_compile
    Field.likeness_bare (Field.forall₂_bare (congrArg Forest.roots hbare)) h h'
  have hmade := twinMakings_bare_eq Field.likeness_bare hms
  have hflagged := congrArg (List.map (flagged roots groups)) hmade
  rw [hrecords, hrecords', List.map_map, List.map_map]
  simpa only [List.map_map, Function.comp_def, bare_flagged] using hflagged

/-- What artifacts there are, and their names, follows from the bare definitions. -/
theorem origins_eq_of_bare
    (hrecords : catalog'.records.map RecordDefinition.bare =
      catalog.records.map RecordDefinition.bare) : catalog'.origins = catalog.origins := by
  have horigins := congrArg (List.flatMap fun r : RecordDefinition =>
    r.families.map (·, r.name.name)) hrecords
  rwa [List.flatMap_map, List.flatMap_map] at horigins

/-- Documentation and keys affect neither shapes nor names. -/
theorem compile_ignoresDocumentation (settings : Settings) {forest forest' : Forest}
    (hbare : forest'.bare = forest.bare) :
    ∀ catalog catalog', forest.compile settings = .ok catalog →
      forest'.compile settings = .ok catalog' →
      catalog'.records.map RecordDefinition.bare = catalog.records.map RecordDefinition.bare ∧
      catalog'.artifacts.map (fun x => (x.family, x.name)) =
        catalog.artifacts.map fun x => (x.family, x.name) := by
  intro catalog catalog' h h'
  have hrecords := bare_records_eq hbare h h'
  refine ⟨hrecords, ?_⟩
  rw [artifacts_eq_origins h, artifacts_eq_origins h', origins_eq_of_bare hrecords]

/-- The orders with descriptions, a sample, a default, keys and positions, also in the owner of a
shared identity. -/
def documentedOrders : Forest where
  roots := [
    { name := "order", description := some "An order.", properties := [
        { name := "buyer", identity := some "customer", wireName := some "b", position := some 1 },
        { name := "lines", type := some (.list .struct), properties := [
            { name := "note", default := some (.string "-"), sample := some (.string "n") }] }] },
    { name := "customer", identity := some "customer", wireName := some "c", properties := [
        { name := "friends", type := some (.list .struct), identity := some "customer"
          description := some "Known to each other.", wireName := some "f" }] }]

theorem documentedOrders_compiles : ∃ catalog, documentedOrders.compile {} = .ok catalog ∧
    decide (catalog.records.map (·.description) = [none, none, some "An order."]) = true :=
  exists_catalog (by decide +kernel)

theorem orders_ignoresDocumentation : ∃ catalog catalog', orders.compile {} = .ok catalog ∧
    documentedOrders.compile {} = .ok catalog' ∧
    catalog'.records.map (·.description) = [none, none, some "An order."] ∧
    catalog'.records.map RecordDefinition.bare = catalog.records.map RecordDefinition.bare := by
  obtain ⟨catalog, hc, _⟩ := orders_compiles
  obtain ⟨catalog', hc', hdescriptions⟩ := documentedOrders_compiles
  have hbare : documentedOrders.bare = orders.bare := by decide
  have hsame := compile_ignoresDocumentation {} hbare catalog catalog' hc hc'
  exact ⟨catalog, catalog', hc, hc', of_decide_eq_true hdescriptions, hsame.1⟩

end Forest
end RecordCodec
