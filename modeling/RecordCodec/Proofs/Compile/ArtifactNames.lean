import RecordCodec.Proofs.Compile.Closed

/-!
Names of artifacts. A record, its decoder, its encoder and, for a root, its builder are named after
the record's simple name, each family in a namespace and with a suffix of its own. Simple names of
records are told apart while a schema is compiled, the names made of them are not looked at again:
artifacts of one family never share a name, and artifacts of different families do when their
families share a namespace and their suffixes make up for the difference of the simple names. In a
style that keeps its families separate that cannot be.
-/

namespace RecordCodec

/-! ### Families -/

/-- What an artifact is to its record. -/
inductive Family where
  | record
  | decoder
  | encoder
  | builder
deriving DecidableEq, Repr

namespace Naming.Style

/-- The namespace of a family, below the root namespace. -/
def leafOf (style : Style) : Family → String
  | .record => style.modelScope
  | .decoder => style.decoderScope
  | .encoder => style.encoderScope
  | .builder => style.builderScope

def suffixOf (style : Style) : Family → String
  | .record => ""
  | .decoder => style.decoderSuffix
  | .encoder => style.encoderSuffix
  | .builder => style.builderSuffix

/-- The name of the artifact of a family for the record with this simple name. -/
def nameOf (style : Style) (family : Family) (simple : String) : QualifiedName :=
  ⟨style.scope (style.leafOf family), simple ++ style.suffixOf family⟩

/-- Two families share a namespace only if neither suffix ends with the other. -/
def Separate (style : Style) : Prop :=
  ∀ a b : Family, a ≠ b → style.leafOf a = style.leafOf b →
    ¬(style.suffixOf a).toList <:+ (style.suffixOf b).toList

variable {style : Style}

theorem scope_inj {a b : String} : style.scope a = style.scope b ↔ a = b := by
  unfold scope
  split
  · rfl
  · rw [String.append_right_inj]

theorem nameOf_eq_iff {a b : Family} {x y : String} :
    style.nameOf a x = style.nameOf b y ↔
      style.leafOf a = style.leafOf b ∧ x ++ style.suffixOf a = y ++ style.suffixOf b := by
  rw [nameOf, nameOf, QualifiedName.mk.injEq, scope_inj]

/-- In one family names are as different as the records they are for. -/
theorem nameOf_inj {family : Family} {x y : String} :
    style.nameOf family x = style.nameOf family y ↔ x = y := by
  rw [nameOf_eq_iff, String.append_left_inj]
  exact and_iff_right rfl

theorem Separate.nameOf_ne (h : style.Separate) {a b : Family} (hne : a ≠ b) (x y : String) :
    style.nameOf a x ≠ style.nameOf b y := by
  intro heq
  obtain ⟨hleaf, htext⟩ := nameOf_eq_iff.1 heq
  -- both suffixes end one text, so the longer ends with the shorter
  have hfirst : (style.suffixOf a).toList <:+ (x ++ style.suffixOf a).toList := by simp
  have hsecond : (style.suffixOf b).toList <:+ (x ++ style.suffixOf a).toList := by simp [htext]
  obtain hends | hends := List.suffix_or_suffix_of_suffix hfirst hsecond
  · exact h a b hne hleaf hends
  · exact h b a hne.symm hleaf.symm hends

/-- Families with namespaces of their own are separate, whatever their suffixes. -/
theorem separate_of_scopes (h : [style.modelScope, style.decoderScope, style.encoderScope,
    style.builderScope].Nodup) : style.Separate := by
  intro a b hne hleaf
  have hinj : Function.Injective style.leafOf := by
    intro a b heq
    cases a <;> cases b <;> simp_all [leafOf]
  exact absurd (hinj hleaf) hne

end Naming.Style

/-! ### The artifacts of an entry -/

def Artifact.family : Artifact → Family
  | .record _ => .record
  | .decoder _ => .decoder
  | .encoder _ => .encoder
  | .builder _ => .builder

/-- The families of which a record has an artifact. -/
def RecordDefinition.families (r : RecordDefinition) : List Family :=
  [.record, .decoder, .encoder] ++ if r.root then [.builder] else []

theorem RecordDefinition.nodup_families (r : RecordDefinition) : r.families.Nodup := by
  unfold families
  split <;> decide

/-- Records are assembled with a builder exactly if they are roots. -/
theorem Compile.builder_of_assemble {roots : List QualifiedName} {groups : List CycleGroup}
    {codecs : Reservations} {records : List RecordDefinition} {entries : List Entry}
    (h : assemble roots groups codecs records = .ok entries) {e : Entry} (he : e ∈ entries) :
    e.builder = if e.definition.root then some (.ofRecord e.definition) else none := by
  induction records generalizing codecs entries with
  | nil =>
      cases h
      cases he
  | cons r rest ih =>
      unfold assemble at h
      split at h
      · cases h
      · simp only at h
        split at h
        · cases h
        · rename_i hrest
          cases h
          obtain rfl | he := List.mem_cons.1 he
          · rfl
          · exact ih hrest he

namespace Forest

open Compile

variable {settings : Settings} {forest : Forest} {catalog : Catalog}

theorem builder_eq_of_compile (h : forest.compile settings = .ok catalog) {e : Entry}
    (he : e ∈ catalog.entries) :
    e.builder = if e.definition.root then some (.ofRecord e.definition) else none := by
  unfold Forest.compile at h
  split at h
  · cases h
  · split at h
    · cases h
    · unfold finish at h
      split at h
      · cases h
      · obtain ⟨entries, hentries, rfl⟩ := map_eq_ok_iff.1 h
        exact builder_of_assemble hentries he

/-- The artifacts of an entry are those of its record's families, named after the record. -/
theorem artifacts_of_compile (h : forest.compile settings = .ok catalog) {e : Entry}
    (he : e ∈ catalog.entries) :
    e.artifacts.map (fun x => (x.family, x.name)) = e.definition.families.map fun family =>
      (family, settings.naming.nameOf family e.name.name) := by
  have hconsistent := consistent_of_compile h he
  have hnames := names_of_compile h he
  have hrecord : e.definition.name = settings.naming.nameOf .record e.name.name := by
    rw [RecordDefinition.name, hnames, Naming.Style.nameOf, Naming.Style.suffixOf,
      String.append_empty]
    rfl
  have hdecoder : e.decoder.name = settings.naming.nameOf .decoder e.name.name := by
    rw [hconsistent.decoderName, hnames]
    rfl
  have hencoder : e.encoder.name = settings.naming.nameOf .encoder e.name.name := by
    rw [hconsistent.encoderName, hnames]
    rfl
  have hbuilder : (Builder.ofRecord e.definition).name =
      settings.naming.nameOf .builder e.name.name := by
    rw [Builder.ofRecord, hnames]
    rfl
  rw [Entry.artifacts, builder_eq_of_compile h he, RecordDefinition.families]
  split <;> simp [Artifact.family, Artifact.name, hrecord, hdecoder, hencoder, hbuilder]

end Forest

/-! ### Collisions -/

namespace Catalog

/-- Every artifact as its family and the simple name of its record. -/
def origins (catalog : Catalog) : List (Family × String) :=
  catalog.records.flatMap fun r => r.families.map (·, r.name.name)

/-- Artifacts of different families share a namespace, and their suffixes make one name of the
simple names of their records. -/
def Collides (style : Naming.Style) (catalog : Catalog) : Prop :=
  ∃ r ∈ catalog.records, ∃ r' ∈ catalog.records, ∃ a ∈ r.families, ∃ b ∈ r'.families, a ≠ b ∧
    style.leafOf a = style.leafOf b ∧
    r.name.name ++ style.suffixOf a = r'.name.name ++ style.suffixOf b

variable {catalog : Catalog}

theorem mem_origins {origin : Family × String} :
    origin ∈ catalog.origins ↔
      ∃ r ∈ catalog.records, origin.1 ∈ r.families ∧ origin.2 = r.name.name := by
  obtain ⟨family, simple⟩ := origin
  simp [origins, eq_comm]

theorem nodup_origins (h : (catalog.records.map (·.name.name)).Nodup) : catalog.origins.Nodup := by
  refine List.nodup_flatMap.2 ⟨fun r _ => ?_, ?_⟩
  · exact r.nodup_families.map fun a b heq => congrArg Prod.fst heq
  · refine (List.pairwise_map.1 h).imp fun hne => ?_
    simp [List.disjoint_left, Ne.symm hne]

theorem not_collides_of_separate {style : Naming.Style} (h : style.Separate) :
    ¬catalog.Collides style := by
  rintro ⟨r, _, r', _, a, _, b, _, hne, hcollides⟩
  exact h.nameOf_ne hne r.name.name r'.name.name (Naming.Style.nameOf_eq_iff.2 hcollides)

end Catalog

namespace Forest

variable {settings : Settings} {forest : Forest} {catalog : Catalog}

theorem artifacts_eq_origins (h : forest.compile settings = .ok catalog) :
    catalog.artifacts.map (fun x => (x.family, x.name)) = catalog.origins.map fun origin =>
      (origin.1, settings.naming.nameOf origin.1 origin.2) := by
  rw [Catalog.artifacts, Catalog.origins, Catalog.records, List.flatMap_map, List.map_flatMap,
    List.map_flatMap]
  refine List.flatMap_congr fun e he => ?_
  rw [artifacts_of_compile h he, List.map_map]
  rfl

theorem names_eq_origins (h : forest.compile settings = .ok catalog) :
    catalog.artifacts.map Artifact.name =
      catalog.origins.map fun origin => settings.naming.nameOf origin.1 origin.2 := by
  have hnames := congrArg (List.map Prod.snd) (artifacts_eq_origins h)
  simpa [List.map_map, Function.comp_def] using hnames

/-- Artifacts share a name exactly if there is a collision across families, and in a separate style
there is none, whatever the schema. -/
theorem compile_nodup_artifactNames_iff (settings : Settings) (forest : Forest) :
    ∀ catalog, forest.compile settings = .ok catalog →
      ((catalog.artifacts.map Artifact.name).Nodup ↔ ¬catalog.Collides settings.naming) ∧
      (settings.naming.Separate → (catalog.artifacts.map Artifact.name).Nodup) := by
  intro catalog h
  have hsimple : (catalog.records.map (·.name.name)).Nodup := by
    refine List.Nodup.of_map Text.lower ?_
    rw [Catalog.records, List.map_map, List.map_map]
    exact nodup_lower_of_compile h
  have hiff : (catalog.artifacts.map Artifact.name).Nodup ↔
      ¬catalog.Collides settings.naming := by
    rw [names_eq_origins h, List.nodup_map_iff_inj_on (Catalog.nodup_origins hsimple)]
    constructor
    · rintro hinj ⟨r, hr, r', hr', a, ha, b, hb, hne, hcollides⟩
      have hsame := hinj (a, r.name.name) (Catalog.mem_origins.2 ⟨r, hr, ha, rfl⟩)
        (b, r'.name.name) (Catalog.mem_origins.2 ⟨r', hr', hb, rfl⟩)
        (Naming.Style.nameOf_eq_iff.2 hcollides)
      exact hne (congrArg Prod.fst hsame)
    · rintro hno ⟨a, x⟩ hx ⟨b, y⟩ hy heq
      obtain ⟨r, hr, ha, rfl⟩ := Catalog.mem_origins.1 hx
      obtain ⟨r', hr', hb, rfl⟩ := Catalog.mem_origins.1 hy
      by_cases hfamily : a = b
      · subst hfamily
        exact congrArg (a, ·) (Naming.Style.nameOf_inj.1 heq)
      · have hcollides := Naming.Style.nameOf_eq_iff.1 heq
        exact absurd ⟨r, hr, r', hr', a, ha, b, hb, hfamily, hcollides⟩ hno
  exact ⟨hiff, fun hstyle => hiff.2 (Catalog.not_collides_of_separate hstyle)⟩

theorem orders_nodup_artifactNames : ∃ catalog, orders.compile {} = .ok catalog ∧
    (catalog.artifacts.map Artifact.name).Nodup ∧ ¬catalog.Collides {} := by
  obtain ⟨catalog, hc, _⟩ := orders_compiles
  obtain ⟨hiff, hseparate⟩ := compile_nodup_artifactNames_iff {} orders catalog hc
  have hnodup := hseparate (Naming.Style.separate_of_scopes (by decide))
  exact ⟨catalog, hc, hnodup, hiff.1 hnodup⟩

/-- Two roots, of which one is named as the encoder of the other would be. -/
def lookalikes : Forest where
  roots := [
    { name := "order", properties := [{ name := "id", type := some (.scalar .long) }] },
    { name := "orderEncoder", properties := [{ name := "id", type := some (.scalar .long) }] }]

theorem lookalikes_compiles : ∃ catalog,
    lookalikes.compile { naming := { encoderScope := "model" } } = .ok catalog ∧
    decide ((catalog.artifacts.filter (·.name = ⟨"generated.model", "OrderEncoder"⟩)).map
        Artifact.family = [.encoder, .record] ∧
      ¬(catalog.artifacts.map Artifact.name).Nodup) = true :=
  exists_catalog (by decide +kernel)

/-- Where encoders are named in the namespace of the records, the one root's record has the name of
the other's encoder. -/
theorem lookalikes_shareName : ∃ catalog,
    lookalikes.compile { naming := { encoderScope := "model" } } = .ok catalog ∧
    (catalog.artifacts.filter (·.name = ⟨"generated.model", "OrderEncoder"⟩)).map
      Artifact.family = [.encoder, .record] ∧
    ¬(catalog.artifacts.map Artifact.name).Nodup := by
  obtain ⟨catalog, hc, hnames⟩ := lookalikes_compiles
  exact ⟨catalog, hc, of_decide_eq_true hnames⟩

end Forest
end RecordCodec
