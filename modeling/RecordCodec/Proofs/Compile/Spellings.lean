import RecordCodec.Proofs.Compile.ArtifactNames
import RecordCodec.Proofs.Naming.SnakeCase

/-!
Spellings of records. On the course of a compilation the simple names of records are put together
from words and markers, so a simple name holds a dot only if the marker is one. Without such a
marker the simple name of one record is not the qualified name of another, however records are
nested and whatever their namespace, and a record is found under both of its names.
-/

namespace RecordCodec

/-! ### Names on a course -/

namespace Compile

variable {c : Setting}

/-- The names of a made record are those of its style: only markers separate parts of its simple
name, and its fields have the accessors of their owner's nested fields. -/
structure Making.Styled (c : Setting) (m : Making) : Prop where
  name : Naming.OnlyMarker c.settings.naming.marker m.record.name.name.toList
  accessors : m.record.fields.map (·.accessor) =
    c.settings.naming.accessors (m.owner.properties.map (·.name))

theorem onlyMarker_of_announce {identity : Option String} {enclosing field : String}
    {run run' : Run} {names : ArtifactNames}
    (henclosing : Naming.OnlyMarker c.settings.naming.marker enclosing.toList)
    (h : c.announce identity enclosing field run = (names, run')) :
    Naming.OnlyMarker c.settings.naming.marker names.record.name.toList := by
  cases h
  exact (henclosing.baseName identity field).claim run.typeNames

theorem Compiles.map_accessor {enclosing : String} {place : Place}
    {accessors constants : List String} {fs : List Field} {run run' : Run}
    {fields : List RecordField} {ms : List Making}
    (h : Compiles c enclosing place accessors constants fs run fields ms run')
    (hlength : accessors.length = fs.length) : fields.map (·.accessor) = accessors := by
  induction fs generalizing accessors constants run fields ms with
  | nil =>
      cases h
      exact (List.length_eq_zero_iff.1 hlength).symm
  | cons f rest ih =>
      cases accessors with
      | nil => cases hlength
      | cons accessor accessors =>
          have hrest := Nat.succ.inj hlength
          cases h with
          | plain _ _ _ hfields => exact congrArg (accessor :: ·) (ih hfields hrest)
          | struct _ _ _ _ hfields => exact congrArg (accessor :: ·) (ih hfields hrest)

mutual

theorem Resolves.styled {enclosing : String} {place : Place} {f : Field} {run run' : Run}
    {target : Target} {ms : List Making}
    (henclosing : Naming.OnlyMarker c.settings.naming.marker enclosing.toList) :
    Resolves c enclosing place f run target ms run' → ∀ m ∈ ms, m.Styled c
  | .document _ _ => nofun
  | .external _ _ _ _ => nofun
  | .shared _ _ => nofun
  | .held _ _ _ => nofun
  | .made _ hannounce _ hfields => by
      have hname := onlyMarker_of_announce henclosing hannounce
      refine List.forall_mem_append.2 ⟨hfields.styled hname, List.forall_mem_singleton.2 ?_⟩
      exact ⟨hname, hfields.map_accessor (by simp)⟩

theorem Compiles.styled {enclosing : String} {place : Place} {accessors constants : List String}
    {fs : List Field} {run run' : Run} {fields : List RecordField} {ms : List Making}
    (henclosing : Naming.OnlyMarker c.settings.naming.marker enclosing.toList) :
    Compiles c enclosing place accessors constants fs run fields ms run' → ∀ m ∈ ms, m.Styled c
  | .nil => nofun
  | .plain _ _ _ hrest => hrest.styled henclosing
  | .struct _ _ hresolves _ hrest =>
      List.forall_mem_append.2 ⟨hresolves.styled henclosing, hrest.styled henclosing⟩

end

theorem CompilesRoots.styled {roots : List Field} {run run' : Run} {targets : List ArtifactNames}
    {ms : List Making} (h : CompilesRoots c roots run targets ms run') :
    ∀ m ∈ ms, m.Styled c := by
  induction h with
  | nil => exact nofun
  | cons _ hresolves _ ih =>
      have hroot : Naming.OnlyMarker c.settings.naming.marker "".toList :=
        Naming.solid_nil.onlyMarker c.settings.naming.marker
      exact List.forall_mem_append.2 ⟨hresolves.styled hroot, ih⟩

end Compile

namespace Forest

open Compile

variable {settings : Settings} {forest : Forest} {catalog : Catalog}

/-- What holds of every record made in its style holds of the records of a compiled catalog, if
flags do not matter to it. -/
theorem styled_of_compile (h : forest.compile settings = .ok catalog) {e : Entry}
    (he : e ∈ catalog.entries) : ∃ m roots groups, Making.Styled ⟨settings, forest⟩ m ∧
      e.definition = flagged roots groups m.record := by
  obtain ⟨targets, ms, run, groups, _, hcourse, hrecords⟩ := course_of_compile h
  have hdefinition : e.definition ∈ catalog.records := List.mem_map_of_mem he
  rw [hrecords] at hdefinition
  obtain ⟨m, hm, hflagged⟩ := List.mem_map.1 hdefinition
  exact ⟨m, _, groups, hcourse.styled m hm, hflagged.symm⟩

theorem onlyMarker_of_compile (h : forest.compile settings = .ok catalog) {e : Entry}
    (he : e ∈ catalog.entries) :
    Naming.OnlyMarker settings.naming.marker e.name.name.toList := by
  obtain ⟨m, roots, groups, hstyled, hdefinition⟩ := styled_of_compile h he
  rw [Entry.name, hdefinition]
  exact hstyled.name

/-- The fields of a struct in code have different names, as far as no name is a reserved word. -/
theorem nodup_snakeCase_of_compile (h : forest.compile settings = .ok catalog) {e : Entry}
    (he : e ∈ catalog.entries) :
    (e.definition.fields.map fun f => StructCode.snakeCase f.accessor).Nodup := by
  obtain ⟨m, roots, groups, hstyled, hdefinition⟩ := styled_of_compile h he
  have haccessors : e.definition.fields.map (·.accessor) =
      settings.naming.accessors (m.owner.properties.map (·.name)) := by
    rw [hdefinition, ← hstyled.accessors]
    simp only [flagged, List.map_map]
    rfl
  have hmap : (e.definition.fields.map fun f => StructCode.snakeCase f.accessor) =
      (e.definition.fields.map (·.accessor)).map StructCode.snakeCase := by
    rw [List.map_map]
    rfl
  rw [hmap, haccessors]
  refine StructCode.nodup_snakeCase_claimAll _ _ (List.forall_mem_map.2 fun name _ => ?_)
  exact Naming.solid_accessor settings.naming name

end Forest

/-! ### Finding records by their names -/

theorem QualifiedName.dot_mem_text {name : QualifiedName} (h : name.scope ≠ "") :
    '.' ∈ name.text.toList := by
  rw [text, if_neg h]
  simp

namespace Catalog

/-- By this spelling the catalog finds the record of this entry, and nothing but its codecs and
its builder. -/
structure Finds (catalog : Catalog) (spelling : String) (e : Entry) : Prop where
  resolve : catalog.resolve spelling = .ok e.name
  record : catalog.record? spelling = some e.definition
  newRecord : catalog.newRecord spelling = .ok e.decoder.initial
  decode : ∀ ts, catalog.decode spelling ts = decodeRecord catalog.decoder? e.name ts
  builder : catalog.builder spelling =
    match e.builder with
    | some builder => .ok (builder, e.decoder.initial)
    | none => .error (.unknownRecord (spelling ++ " (no builder)"))

theorem finds_of_resolve? {catalog : Catalog} {spelling : String} {e : Entry}
    (hn : (catalog.entries.map Entry.name).Nodup) (he : e ∈ catalog.entries)
    (h : catalog.resolve? spelling = some e.name) : catalog.Finds spelling e := by
  have hentry := entry?_of_mem hn he
  have hresolve : catalog.resolve spelling = .ok e.name := by rw [Catalog.resolve, h]
  have hnew : catalog.newRecord spelling = .ok e.decoder.initial := by
    simp only [newRecord, hresolve, bind, Except.bind, decoder?, hentry, Option.map_some]
    rfl
  constructor
  case resolve => exact hresolve
  case record => rw [record?, h, Option.bind_some, hentry, Option.map_some]
  case newRecord => exact hnew
  case decode =>
    intro ts
    rw [decode, hresolve]
  case builder =>
    simp only [builder, hresolve, bind, Except.bind, builderOf?, hnew, hentry, Option.bind_some]
    rfl

end Catalog

namespace Forest

variable {settings : Settings} {forest : Forest} {catalog : Catalog}

theorem entry_eq_of_simple (h : forest.compile settings = .ok catalog) {e e' : Entry}
    (he : e ∈ catalog.entries) (he' : e' ∈ catalog.entries)
    (hname : e.name.name = e'.name.name) : e = e' :=
  List.inj_on_of_nodup_map (nodup_lower_of_compile h) he he' (congrArg Text.lower hname)

/-- A simple name is the qualified name of a record in the empty namespace, and of that record
alone. -/
theorem entry_eq_of_simple_text (h : forest.compile settings = .ok catalog)
    (hmarker : settings.naming.marker ≠ '.') {e e' : Entry} (he : e ∈ catalog.entries)
    (he' : e' ∈ catalog.entries) (hname : e.name.name = e'.name.text) : e = e' := by
  by_cases hscope : e'.name.scope = ""
  · rw [QualifiedName.text, if_pos hscope] at hname
    exact entry_eq_of_simple h he he' hname
  · have hdot := QualifiedName.dot_mem_text hscope
    rw [← hname] at hdot
    exact absurd (onlyMarker_of_compile h he '.' hdot rfl).symm hmarker

theorem entry_eq_of_spells (h : forest.compile settings = .ok catalog)
    (hmarker : settings.naming.marker ≠ '.') {e e' : Entry} (he : e ∈ catalog.entries)
    (he' : e' ∈ catalog.entries) {spelling : String} (hs : Catalog.Spells spelling e)
    (hs' : Catalog.Spells spelling e') : e = e' := by
  obtain hs | hs := hs
  · obtain hs' | hs' := hs'
    · exact entry_eq_of_simple h he he' (hs.trans hs'.symm)
    · exact entry_eq_of_simple_text h hmarker he he' (hs.trans hs'.symm)
  · obtain hs' | hs' := hs'
    · exact (entry_eq_of_simple_text h hmarker he' he (hs'.trans hs.symm)).symm
    · have hscope := (scope_of_compile h he).trans (scope_of_compile h he').symm
      have hname := QualifiedName.eq_of_text hscope (hs.trans hs'.symm)
      exact entry_eq_of_simple h he he' (congrArg QualifiedName.name hname)

/-- Unless names are told apart by dots, every record is found under its simple name and under its
qualified name. -/
theorem compile_finds (settings : Settings) (hmarker : settings.naming.marker ≠ '.')
    (forest : Forest) :
    ∀ catalog, forest.compile settings = .ok catalog → ∀ e ∈ catalog.entries,
      catalog.Finds e.name.name e ∧ catalog.Finds e.name.text e := by
  intro catalog h e he
  have hfinds : ∀ {spelling}, Catalog.Spells spelling e → catalog.Finds spelling e := by
    intro spelling hspells
    obtain ⟨e', he', hspells', hresolve⟩ := Catalog.resolve?_of_spells he hspells
    obtain rfl := entry_eq_of_spells h hmarker he he' hspells hspells'
    exact Catalog.finds_of_resolve? (nodup_names_of_compile h) he hresolve
  exact ⟨hfinds (.inl rfl), hfinds (.inr rfl)⟩

theorem orders_finds : ∃ catalog, orders.compile {} = .ok catalog ∧
    catalog.entries.map (·.name.name) = ["Customer", "OrderLines", "Order"] ∧
    ∀ e ∈ catalog.entries, catalog.Finds e.name.name e ∧ catalog.Finds e.name.text e := by
  obtain ⟨catalog, hc, hnames⟩ := orders_compiles
  exact ⟨catalog, hc, of_decide_eq_true hnames, compile_finds {} (by decide) orders catalog hc⟩

-- Told apart by dots, the last of three records that ask for one name is taken for another one.
example : ∃ catalog : Catalog, compile
      { naming := { rootScope := "", modelScope := "X", marker := '.' } }
      { roots := ["_", "x", "X", "x_"].map fun root =>
          { name := root, properties := [{ name := "id", type := some (.scalar .long) }] } } =
        .ok catalog ∧
    decide (⟨"X", "X.."⟩ ∈ catalog.entries.map Entry.name ∧
      catalog.resolve? "X.." = some ⟨"X", "."⟩) = true :=
  exists_catalog (by decide +kernel)

end Forest
end RecordCodec
