import Mathlib.Data.Set.Card
import RecordCodec.Proofs.Compile.Closed
import RecordCodec.Proofs.References.Components
import RecordCodec.StructCode

/-!
Recursion and boxes in compiled catalogs. The flags of a record do not change what it refers to, so
they say how the records of the catalog refer to each other: a record is recursive exactly when
references lead from it back to it, and a field is boxed exactly when it holds, without a list or a
map between them, a record that leads back to its own. What is held without a box therefore never
leads back, and every struct of the generated code has a finite size.
-/

namespace RecordCodec

open Compile
open Relation (ReflTransGen TransGen)

/-! ### Relations without cycles -/

/-- Going along a relation without cycles among finitely many names comes to an end. -/
theorem wellFounded_of_acyclic {R : QualifiedName → QualifiedName → Prop}
    {names : List QualifiedName} (hnames : ∀ {a b}, R a b → b ∈ names)
    (hcycle : ∀ a, ¬TransGen R a a) : WellFounded fun b a => R a b := by
  have hfinite : ∀ a, {n | TransGen R a n}.Finite := by
    refine fun a => names.finite_toSet.subset fun n hn => ?_
    obtain ⟨_, _, hlast⟩ := TransGen.tail'_iff.1 hn
    exact hnames hlast
  -- each step leads to a name from which fewer names are reached
  refine Subrelation.wf (fun {b a} hab => ?_)
    (InvImage.wf (fun a => {n | TransGen R a n}.ncard) wellFounded_lt)
  refine Set.ncard_lt_ncard ⟨fun n hn => .head hab hn, fun hsub => ?_⟩ (hfinite a)
  exact hcycle b (hsub (.single hab))

/-! ### What records refer to -/

namespace ReferenceGraph

variable {records : List RecordDefinition}

theorem mem_references_iff {reference : Reference} :
    reference ∈ (ofRecords records).references ↔ ∃ r ∈ records, ∃ f ∈ r.fields, ∃ target,
      f.refersTo? = some target ∧ reference = ⟨r.name, f.name, f.type.depth, target⟩ := by
  simp [ofRecords, referencesOf, eq_comm]

/-- Flags do not change what records refer to. -/
theorem ofRecords_flagged (roots : List QualifiedName) (groups : List CycleGroup) :
    ofRecords (records.map (flagged roots groups)) = ofRecords records := by
  have hreferences : ∀ r, referencesOf (flagged roots groups r) = referencesOf r := by
    intro r
    simp only [referencesOf, flagged, List.filterMap_map]
    rfl
  simp only [ofRecords, List.flatMap_map, List.map_map, hreferences]
  rfl

end ReferenceGraph

theorem FieldType.eq_struct_of_depth {type : FieldType} (hleaf : type.isStructLeaf = true)
    (hdepth : type.depth = 0) : type = .struct := by
  cases type with
  | scalar kind => cases hleaf
  | struct => rfl
  | list item => cases hdepth
  | map value => cases hdepth

namespace Catalog

variable {catalog : Catalog} {a b : QualifiedName}

/-- A field of the first record refers to the second. -/
def Refers (catalog : Catalog) (a b : QualifiedName) : Prop :=
  ∃ r ∈ catalog.records, r.name = a ∧ ∃ f ∈ r.fields, f.refersTo? = some b

/-- A field of the first record, with no layer around its leaf and no box, refers to the second. -/
def HoldsUnboxed (catalog : Catalog) (a b : QualifiedName) : Prop :=
  ∃ r ∈ catalog.records, r.name = a ∧
    ∃ f ∈ r.fields, f.type = .struct ∧ f.refersTo? = some b ∧ f.boxed = false

def graph (catalog : Catalog) : ReferenceGraph := .ofRecords catalog.records

theorem refers_graph (catalog : Catalog) : catalog.graph.Refers = catalog.Refers := by
  funext a b
  simp only [ReferenceGraph.refers_iff, graph, ReferenceGraph.mem_references_iff, Refers,
    eq_iff_iff]
  constructor
  · rintro ⟨_, ⟨r, hr, f, hf, target, htarget, rfl⟩, rfl, rfl⟩
    exact ⟨r, hr, rfl, f, hf, htarget⟩
  · rintro ⟨r, hr, rfl, f, hf, htarget⟩
    exact ⟨_, ⟨r, hr, f, hf, b, htarget, rfl⟩, rfl, rfl⟩

theorem HoldsUnboxed.refers (h : catalog.HoldsUnboxed a b) : catalog.Refers a b := by
  obtain ⟨r, hr, hname, f, hf, _, htarget, _⟩ := h
  exact ⟨r, hr, hname, f, hf, htarget⟩

theorem wellFormed_graph (catalog : Catalog) : catalog.graph.WellFormed :=
  ReferenceGraph.wellFormed_ofRecords _

end Catalog

/-! ### Generated code -/

namespace StructCode

/-- In the code the struct of the first record holds that of the second in place: the type of a
field is its bare name. -/
def HoldsInPlace (m : TypeMappings) (catalog : Catalog) (a b : QualifiedName) : Prop :=
  ∃ r ∈ catalog.records, r.name = a ∧
    ∃ f ∈ r.fields, f.type = .struct ∧ f.refersTo? = some b ∧ typeText m f f.type = b.name

theorem typeText_eq_name_iff {m : TypeMappings} {f : RecordField} {b : QualifiedName}
    (htype : f.type = .struct) (htarget : f.refersTo? = some b) :
    typeText m f f.type = b.name ↔ f.boxed = false := by
  simp only [htype, typeText, structType, htarget]
  cases f.boxed with
  | false => simp
  | true =>
      -- a box makes the text longer
      refine iff_of_false (fun heq => ?_) Bool.noConfusion
      have hlength := congrArg String.length heq
      simp only [if_true, String.length_append] at hlength
      have hbox : "Box<".length = 4 := rfl
      omega

theorem HoldsInPlace.holdsUnboxed {m : TypeMappings} {catalog : Catalog} {a b : QualifiedName}
    (h : HoldsInPlace m catalog a b) : catalog.HoldsUnboxed a b := by
  obtain ⟨r, hr, hname, f, hf, htype, htarget, htext⟩ := h
  exact ⟨r, hr, hname, f, hf, htype, htarget, (typeText_eq_name_iff htype htarget).1 htext⟩

end StructCode

/-! ### Flags -/

/-- The flags of a catalog's records say how the records refer to each other. -/
structure Catalog.FlagsCycles (catalog : Catalog) : Prop where
  recursive : ∀ r ∈ catalog.records, r.recursive = true ↔ TransGen catalog.Refers r.name r.name
  boxed : ∀ r ∈ catalog.records, ∀ f ∈ r.fields, f.boxed = true ↔ f.type = .struct ∧
    ∃ target, f.refersTo? = some target ∧ ReflTransGen catalog.Refers target r.name
  /-- However the components are listed, their groups are the cycles and carry the flags. -/
  groups : ∀ cs, catalog.graph.IsComponents cs →
    ReferenceGraph.ListsCycles catalog.Refers (catalog.graph.groupsOf cs) ∧
    ∀ r ∈ catalog.records, r.recursive = isRecursive (catalog.graph.groupsOf cs) r.name ∧
      ∀ f ∈ r.fields, f.boxed = needsBox (catalog.graph.groupsOf cs) r.name f.name
  unboxed : ∀ name, ¬TransGen catalog.HoldsUnboxed name name
  finite : ∀ m, WellFounded fun b a => StructCode.HoldsInPlace m catalog a b

namespace Forest

variable {settings : Settings} {forest : Forest} {catalog : Catalog}

/-- The flags are looked up in the cycle groups of the catalog's own references. -/
theorem flags_of_compile (h : forest.compile settings = .ok catalog) {r : RecordDefinition}
    (hr : r ∈ catalog.records) : r.recursive = isRecursive catalog.graph.cycleGroups r.name ∧
      ∀ f ∈ r.fields, f.boxed = needsBox catalog.graph.cycleGroups r.name f.name := by
  obtain ⟨targets, ms, run, _, _, hrecords⟩ := flagged_of_compile h
  have hgraph : catalog.graph = .ofRecords (ms.map (·.record)) := by
    rw [Catalog.graph, hrecords]
    exact (congrArg _ (List.map_map ..).symm).trans (ReferenceGraph.ofRecords_flagged _ _)
  rw [hrecords] at hr
  obtain ⟨m, _, rfl⟩ := List.mem_map.1 hr
  rw [hgraph]
  refine ⟨rfl, fun f hf => ?_⟩
  obtain ⟨f', _, rfl⟩ := List.mem_map.1 hf
  rfl

/-- Only fields with a struct leaf refer to records. -/
theorem isStructLeaf_of_compile (h : forest.compile settings = .ok catalog) {e : Entry}
    (he : e ∈ catalog.entries) {f : RecordField} (hf : f ∈ e.definition.fields)
    {target : QualifiedName} (htarget : f.refersTo? = some target) :
    f.type.isStructLeaf = true := by
  obtain ⟨_, owner, _, hfields⟩ := (generated_of_compile h he).record
  obtain ⟨g, _, hcompiled⟩ := hfields.exists_field hf
  rw [← hcompiled.target]
  exact Option.isSome_of_isSome_bind (Option.isSome_of_eq_some htarget)

/-- A record is recursive exactly when references lead from it back to it. -/
theorem recursive_iff_of_compile (h : forest.compile settings = .ok catalog)
    {r : RecordDefinition} (hr : r ∈ catalog.records) :
    r.recursive = true ↔ TransGen catalog.Refers r.name r.name := by
  rw [(flags_of_compile h hr).1,
    ReferenceGraph.isRecursive_cycleGroups_iff catalog.wellFormed_graph, catalog.refers_graph]

/-- A field is boxed exactly when it is direct and what it refers to leads back to its record. -/
theorem boxed_iff_of_compile (h : forest.compile settings = .ok catalog) {r : RecordDefinition}
    (hr : r ∈ catalog.records) {f : RecordField} (hf : f ∈ r.fields) :
    f.boxed = true ↔ f.type = .struct ∧
      ∃ target, f.refersTo? = some target ∧ ReflTransGen catalog.Refers target r.name := by
  obtain ⟨e, he, rfl⟩ := List.mem_map.1 hr
  rw [(flags_of_compile h hr).2 f hf,
    ReferenceGraph.needsBox_cycleGroups_iff catalog.wellFormed_graph, catalog.refers_graph]
  constructor
  · rintro ⟨reference, hreference, ⟨hsource, hfield, hdepth⟩, hback⟩
    obtain ⟨r', hr', f', hf', target, htarget, rfl⟩ :=
      ReferenceGraph.mem_references_iff.1 hreference
    obtain ⟨e', he', rfl⟩ := List.mem_map.1 hr'
    -- a record has one field of that name, so the reference is that of the field
    obtain rfl : e' = e := List.inj_on_of_nodup_map (nodup_names_of_compile h) he' he hsource
    obtain rfl : f' = f := List.inj_on_of_nodup_map (nodup_fieldNames_of_compile h he) hf' hf hfield
    exact ⟨FieldType.eq_struct_of_depth (isStructLeaf_of_compile h he hf htarget) hdepth,
      target, htarget, hback⟩
  · rintro ⟨htype, target, htarget, hback⟩
    refine ⟨_, ReferenceGraph.mem_references_iff.2 ⟨_, hr, f, hf, target, htarget, rfl⟩,
      ⟨rfl, rfl, ?_⟩, hback⟩
    rw [htype, FieldType.depth]

theorem acyclic_holdsUnboxed_of_compile (h : forest.compile settings = .ok catalog)
    (name : QualifiedName) : ¬TransGen catalog.HoldsUnboxed name name := by
  intro hcycle
  obtain ⟨b, ⟨r, hr, rfl, f, hf, htype, htarget, hboxed⟩, hback⟩ := TransGen.head'_iff.1 hcycle
  have hrefers := ReflTransGen.mono (fun _ _ => Catalog.HoldsUnboxed.refers) _ _ hback
  rw [(boxed_iff_of_compile h hr hf).2 ⟨htype, b, htarget, hrefers⟩] at hboxed
  cases hboxed

/-- In a compiled catalog the flags are exact. -/
theorem compile_flagsCycles (settings : Settings) (forest : Forest) :
    ∀ catalog, forest.compile settings = .ok catalog → catalog.FlagsCycles := by
  intro catalog h
  have hg := catalog.wellFormed_graph
  constructor
  case recursive => exact fun r hr => recursive_iff_of_compile h hr
  case boxed => exact fun r hr f hf => boxed_iff_of_compile h hr hf
  case groups =>
    intro cs hcs
    refine ⟨catalog.refers_graph ▸ ReferenceGraph.listsCycles_groupsOf hg hcs, fun r hr => ?_⟩
    rw [hcs.groupsOf_eq (ReferenceGraph.isComponents_components hg)]
    exact flags_of_compile h hr
  case unboxed => exact acyclic_holdsUnboxed_of_compile h
  case finite =>
    intro m
    have hends : WellFounded fun b a => catalog.HoldsUnboxed a b :=
      wellFounded_of_acyclic (fun hab => hg.mem_nodes (catalog.refers_graph ▸ hab.refers))
        (acyclic_holdsUnboxed_of_compile h)
    exact Subrelation.wf (fun hab => hab.holdsUnboxed) hends

end Forest

/-- Persons with partners, friends and homes. -/
def Forest.family : Forest where
  roots := [
    { name := "person", identity := some "person", properties := [
        { name := "partner", identity := some "person" },
        { name := "friends", type := some (.list .struct), identity := some "person" },
        { name := "home", properties := [{ name := "street", type := some (.scalar .string) }] }] }]

theorem Forest.family_compiles : ∃ catalog, family.compile {} = .ok catalog ∧
    decide (catalog.records.map (fun r => (r.name.name, r.recursive, r.fields.map (·.boxed))) =
      [("PersonHome", false, [false]), ("Person", true, [true, false, false])]) = true :=
  exists_catalog (by decide +kernel)

theorem Forest.family_flagsCycles : ∃ catalog, family.compile {} = .ok catalog ∧
    catalog.records.map (fun r => (r.name.name, r.recursive, r.fields.map (·.boxed))) =
      [("PersonHome", false, [false]), ("Person", true, [true, false, false])] ∧
    catalog.FlagsCycles := by
  obtain ⟨catalog, hc, hflags⟩ := family_compiles
  exact ⟨catalog, hc, of_decide_eq_true hflags, compile_flagsCycles {} family catalog hc⟩

end RecordCodec
