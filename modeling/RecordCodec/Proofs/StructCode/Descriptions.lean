import RecordCodec.Proofs.Compile.Documentation
import RecordCodec.StructCode

/-!
Descriptions in generated code. A description is put behind the three slashes of a line of
documentation. Deleting such lines deletes a description of one line; of a longer one the lines
after the first stay, unless they are documentation by themselves. What is left of the code of two
schemas that differ in their descriptions differs by those strays and by nothing else.
-/

namespace RecordCodec

/-! ### Lines -/

namespace Text

/-- The lines of a text; behind the last line break there is one more, which may be empty. -/
def linesOf (s : String) : List (List Char) := s.toList.splitOn '\n'

theorem linesOf_ne_nil (s : String) : linesOf s ≠ [] := List.splitOn_ne_nil _ _

/-- What stands before a text without a line break belongs to its first line. -/
theorem linesOf_append {s : String} (hs : '\n' ∉ s.toList) (t : String) :
    linesOf (s ++ t) = (linesOf t).modifyHead (s.toList ++ ·) := by
  unfold linesOf
  rw [String.toList_append]
  generalize s.toList = cs at hs ⊢
  induction cs with
  | nil => exact (congrFun List.modifyHead_id _).symm
  | cons c rest ih =>
      obtain ⟨hc, hrest⟩ := not_or.1 (List.mem_cons.not.1 hs)
      have hne : (c == '\n') = false := beq_eq_false_iff_ne.2 (Ne.symm hc)
      rw [List.cons_append, List.splitOn_cons_eq_if_modifyHead, hne, ih hrest,
        List.modifyHead_modifyHead]
      rfl

theorem linesOf_oneLine {s : String} (hs : '\n' ∉ s.toList) : linesOf s = [s.toList] := by
  have hlines := linesOf_append hs ""
  rw [String.append_empty] at hlines
  rw [hlines]
  exact congrArg ([·]) (List.append_nil _)

theorem linesOf_join (ls : List String) :
    linesOf (String.join (ls.map (· ++ "\n"))) = ls.flatMap linesOf ++ [[]] := by
  unfold linesOf
  rw [String.toList_join]
  induction ls with
  | nil => rfl
  | cons l rest ih =>
      rw [List.map_cons, List.flatMap_cons, String.toList_append, List.flatMap_cons,
        List.append_assoc, List.append_assoc, ← ih]
      exact List.splitOn_append_cons_self l.toList _

end Text

namespace StructCode

/-- A line of documentation: it begins, behind blanks, with three slashes. -/
def isDocLine (line : List Char) : Bool :=
  ['/', '/', '/'].isPrefixOf (line.dropWhile Text.isBlank)

/-- The lines of a text without those of documentation. -/
def codeOf (text : String) : List (List Char) :=
  (Text.linesOf text).filter fun line => !isDocLine line

/-- What documentation leaves among the code. -/
def strays (doc : String) : List (List Char) :=
  (Text.linesOf doc).tail.filter fun line => !isDocLine line

/-- Of documentation of one line nothing is left. -/
theorem strays_oneLine {doc : String} (hdoc : '\n' ∉ doc.toList) : strays doc = [] := by
  rw [strays, Text.linesOf_oneLine hdoc]
  rfl

theorem codeOf_join (ls : List String) :
    codeOf (String.join (ls.map (· ++ "\n"))) = ls.flatMap codeOf ++ [[]] := by
  rw [codeOf, Text.linesOf_join, List.filter_append, List.filter_flatMap]
  rfl

theorem codeOf_doc {mark : String} (hmark : '\n' ∉ mark.toList)
    (hdoc : ∀ line, isDocLine (mark.toList ++ line) = true) (doc : String) :
    codeOf (mark ++ doc) = strays doc := by
  rw [codeOf, strays, Text.linesOf_append hmark]
  cases hlines : Text.linesOf doc with
  | nil => exact absurd hlines (Text.linesOf_ne_nil doc)
  | cons first rest =>
      rw [List.modifyHead_cons, List.filter_cons_of_neg, List.tail_cons]
      simp [hdoc]

theorem codeOf_recordDoc (doc : String) : codeOf ("/// " ++ doc) = strays doc :=
  codeOf_doc (by decide) (fun _ => rfl) doc

theorem codeOf_fieldDoc (doc : String) : codeOf ("    /// " ++ doc) = strays doc :=
  codeOf_doc (by decide) (fun _ => rfl) doc

end StructCode

/-! ### Without descriptions -/

def RecordField.undescribed (f : RecordField) : RecordField := { f with description := none }

/-- What the description of a field leaves among the code. -/
def RecordField.strays (f : RecordField) : List (List Char) :=
  f.description.elim [] StructCode.strays

namespace RecordDefinition

def undescribed (r : RecordDefinition) : RecordDefinition :=
  { r with description := none, fields := r.fields.map RecordField.undescribed }

/-- The text in the documentation of the struct. -/
def doc (r : RecordDefinition) : String := r.description.getD r.name.name

/-- What the documentation of the struct and that of each field leave among the code. -/
def strayGroups (r : RecordDefinition) : List (List (List Char)) :=
  StructCode.strays r.doc :: r.fields.map RecordField.strays

def strays (r : RecordDefinition) : List (List Char) := r.strayGroups.flatten

end RecordDefinition

namespace StructCode

variable (m : TypeMappings)

theorem typeText_undescribed (f : RecordField) (type : FieldType) :
    typeText m f.undescribed type = typeText m f type := by
  induction type with
  | scalar kind => rfl
  | struct => rfl
  | list item ih => rw [typeText, typeText, ih]
  | map value ih => rw [typeText, typeText, ih]

theorem code_fieldLines (f : RecordField) : (fieldLines m f).flatMap codeOf =
    f.strays ++ (fieldLines m f.undescribed).flatMap codeOf := by
  have hlines : fieldLines m f =
      (f.description.map fun d => "    /// " ++ d).toList ++ fieldLines m f.undescribed := by
    have hname : fieldName f.undescribed = fieldName f := rfl
    have hwire : f.undescribed.wireKey = f.wireKey := rfl
    have htype : f.undescribed.type = f.type := rfl
    have hnone : f.undescribed.description = none := rfl
    rw [fieldLines, fieldLines, hname, hwire, htype, hnone, typeText_undescribed, Option.map_none,
      Option.toList_none, List.nil_append, List.append_assoc]
  rw [hlines, List.flatMap_append, RecordField.strays]
  cases f.description with
  | none => rfl
  | some d => simp [codeOf_fieldDoc]

/-! ### The lines of an entry -/

/-- The code of a record before its fields. -/
def openingLines (r : RecordDefinition) : List String :=
  ["#[derive(Debug, Clone, Default, PartialEq, Serialize, Deserialize)]",
    "pub struct " ++ r.name.name ++ " \x7b"]

/-- The code of a record behind its fields, with the constructor of a root. -/
def closingLines (r : RecordDefinition) : List String :=
  ["\x7d", "",
    "impl " ++ r.name.name ++ " \x7b",
    "    pub const " ++ Naming.fingerprintConstant ++ ": i64 = " ++ r.fingerprint.text ++ ";"] ++
  r.fields.map constantLine ++ ["\x7d", ""] ++
  if r.root then builderLines m (.ofRecord r) r else []

/-- The code of a record with its constructor, which does not wait for the builder. -/
def entryLines (r : RecordDefinition) : List String :=
  ("/// " ++ r.doc) :: openingLines r ++ r.fields.flatMap (fieldLines m) ++ closingLines m r

theorem ofRecord_undescribed (r : RecordDefinition) :
    Builder.ofRecord r.undescribed = Builder.ofRecord r := by
  simp only [Builder.ofRecord, Builder.positionalFields, RecordDefinition.undescribed,
    List.filterMap_map, List.filter_map, List.map_map]
  rfl

theorem builderLines_undescribed (b : Builder) (r : RecordDefinition) :
    builderLines m b r.undescribed = builderLines m b r := by
  have hfield : ∀ name, r.undescribed.field? name = (r.field? name).map RecordField.undescribed :=
    fun name => by
      rw [RecordDefinition.field?, RecordDefinition.undescribed, List.find?_map]
      rfl
  have hparams : b.positional.filterMap r.undescribed.field? =
      (b.positional.filterMap r.field?).map RecordField.undescribed := by
    rw [List.map_filterMap]
    exact List.filterMap_congr fun name _ => hfield name
  have htype : ∀ f : RecordField, typeText m f.undescribed f.undescribed.type =
      typeText m f f.type := fun f => typeText_undescribed m f f.type
  simp only [builderLines, hparams, List.map_map, Function.comp_def, htype]
  rfl

theorem closingLines_undescribed (r : RecordDefinition) :
    closingLines m r.undescribed = closingLines m r := by
  rw [closingLines, closingLines, ofRecord_undescribed, builderLines_undescribed]
  simp only [RecordDefinition.undescribed, List.map_map]
  rfl

/-! ### The code of a record -/

/-- What is left of the code of a record with its constructor. -/
def entryCode (r : RecordDefinition) : List (List Char) := (entryLines m r).flatMap codeOf

/-- What would be left if the record and its fields had no documentation. -/
def plainCode (r : RecordDefinition) : List (List Char) :=
  (openingLines r ++ r.fields.flatMap (fieldLines m) ++ closingLines m r).flatMap codeOf

theorem entryCode_eq (r : RecordDefinition) : entryCode m r =
    strays r.doc ++ ((openingLines r.undescribed).flatMap codeOf ++
      (r.fields.flatMap fun f => f.strays ++ (fieldLines m f.undescribed).flatMap codeOf) ++
      (closingLines m r.undescribed).flatMap codeOf) := by
  have hfields : (fun f => (fieldLines m f).flatMap codeOf) =
      fun f => f.strays ++ (fieldLines m f.undescribed).flatMap codeOf :=
    funext (code_fieldLines m)
  rw [closingLines_undescribed, entryCode, entryLines, List.cons_append, List.cons_append,
    List.flatMap_cons, codeOf_recordDoc, List.flatMap_append, List.flatMap_append,
    List.flatMap_assoc, hfields]
  rfl

theorem plainCode_undescribed (r : RecordDefinition) : plainCode m r.undescribed =
    (openingLines r.undescribed).flatMap codeOf ++
      (r.fields.flatMap fun f => (fieldLines m f.undescribed).flatMap codeOf) ++
      (closingLines m r.undescribed).flatMap codeOf := by
  simp only [plainCode, List.flatMap_append, List.flatMap_assoc, RecordDefinition.undescribed,
    List.flatMap_map]

/-- Lines put among others can be moved to the front. -/
theorem perm_front {xs ys zs moved kept : List (List Char)} (h : ys.Perm (moved ++ kept)) :
    (xs ++ ys ++ zs).Perm (moved ++ (xs ++ kept ++ zs)) := by
  refine List.perm_iff_count.2 fun line => ?_
  have hcount := List.perm_iff_count.1 h line
  simp only [List.count_append] at hcount ⊢
  omega

/-- The strays stand between lines that are the same without any description. -/
theorem entryCode_perm (r : RecordDefinition) :
    (entryCode m r).Perm (r.strays ++ plainCode m r.undescribed) := by
  have hstrays : r.strays = strays r.doc ++ r.fields.flatMap RecordField.strays := by
    rw [RecordDefinition.strays, RecordDefinition.strayGroups, List.flatten_cons, List.flatMap_def]
  have hfields := List.flatMap_append_perm r.fields RecordField.strays fun f =>
    (fieldLines m f.undescribed).flatMap codeOf
  rw [entryCode_eq, plainCode_undescribed, hstrays, List.append_assoc (strays r.doc)]
  apply List.Perm.append_left
  exact perm_front hfields.symm

/-- Records that are the same without descriptions, and whose descriptions leave the same. -/
theorem entryCode_congr {r r' : RecordDefinition} (hplain : r'.undescribed = r.undescribed)
    (hgroups : r'.strayGroups = r.strayGroups) : entryCode m r' = entryCode m r := by
  have hfields : r'.fields.map RecordField.undescribed = r.fields.map RecordField.undescribed :=
    congrArg RecordDefinition.fields hplain
  obtain ⟨hdoc, hstrays⟩ := List.cons.inj hgroups
  rw [entryCode_eq, entryCode_eq, hplain, hdoc]
  -- the code of the fields is made from pairs of strays and fields without descriptions
  have hpairs := congrArg₂ List.zip hstrays hfields
  rw [List.zip_map', List.zip_map'] at hpairs
  have hcode := congrArg (List.flatMap fun p => p.1 ++ (fieldLines m p.2).flatMap codeOf) hpairs
  rw [List.flatMap_map, List.flatMap_map] at hcode
  rw [hcode]

theorem entryCode_of_strays_nil {r : RecordDefinition} (h : r.strays = []) :
    entryCode m r = plainCode m r.undescribed := by
  have hgroups := List.flatten_eq_nil_iff.1 h
  rw [RecordDefinition.strayGroups, List.forall_mem_cons, List.forall_mem_map] at hgroups
  have hfields : (r.fields.flatMap fun f =>
      f.strays ++ (fieldLines m f.undescribed).flatMap codeOf) =
      r.fields.flatMap fun f => (fieldLines m f.undescribed).flatMap codeOf :=
    List.flatMap_congr fun f hf => by rw [hgroups.2 f hf, List.nil_append]
  rw [entryCode_eq, plainCode_undescribed, hgroups.1, hfields, List.nil_append]

theorem entryLines_eq (r : RecordDefinition) :
    entryLines m r = recordLines m r ++ if r.root then builderLines m (.ofRecord r) r else [] := by
  rw [entryLines, openingLines, closingLines, recordLines, RecordDefinition.doc]
  simp only [List.append_assoc]

variable {m}

/-- The artifacts of an entry add its code; its builder finds the record that was added last. -/
theorem foldl_add_entry {e : Entry} (he : e.builder =
    if e.definition.root then some (.ofRecord e.definition) else none) (d : Draft) :
    e.artifacts.foldl (Draft.add m) d =
      ⟨d.lines ++ entryLines m e.definition, e.definition :: d.seen⟩ := by
  rw [Entry.artifacts, he, entryLines_eq]
  split <;> simp [Draft.add, Builder.ofRecord]

theorem lines_foldl_add {entries : List Entry} (h : ∀ e ∈ entries, e.builder =
    if e.definition.root then some (.ofRecord e.definition) else none) (d : Draft) :
    ((entries.flatMap Entry.artifacts).foldl (Draft.add m) d).lines =
      d.lines ++ entries.flatMap fun e => entryLines m e.definition := by
  induction entries generalizing d with
  | nil => simp
  | cons e rest ih =>
      obtain ⟨he, hrest⟩ := List.forall_mem_cons.1 h
      rw [List.flatMap_cons, List.foldl_append, foldl_add_entry he, ih hrest, List.flatMap_cons,
        List.append_assoc]

end StructCode

/-! ### The code of a catalog -/

namespace Catalog

open StructCode

/-- What is left of the generated code without its lines of documentation. -/
def code (m : TypeMappings) (catalog : Catalog) : List (List Char) :=
  codeOf (ofArtifacts m catalog.artifacts).text

/-- What all descriptions leave among the code. -/
def strays (catalog : Catalog) : List (List Char) :=
  catalog.records.flatMap RecordDefinition.strays

/-- What is left of the code of the records without their descriptions. -/
def plainCode (m : TypeMappings) (catalog : Catalog) : List (List Char) :=
  headerLines.flatMap codeOf ++
    (catalog.records.map RecordDefinition.undescribed).flatMap (StructCode.plainCode m) ++ [[]]

end Catalog

namespace Forest

open StructCode Compile

variable {settings : Settings} {forest forest' : Forest} {catalog catalog' : Catalog}

theorem code_of_compile (m : TypeMappings) (h : forest.compile settings = .ok catalog) :
    catalog.code m = headerLines.flatMap codeOf ++
      catalog.records.flatMap (entryCode m) ++ [[]] := by
  have hlines : (ofArtifacts m catalog.artifacts).lines =
      headerLines ++ catalog.entries.flatMap fun e => entryLines m e.definition :=
    lines_foldl_add (fun e he => builder_eq_of_compile h he) {}
  rw [Catalog.code, Draft.text, hlines, codeOf_join, List.flatMap_append, List.flatMap_assoc,
    Catalog.records, List.flatMap_map]
  rfl

theorem code_perm (m : TypeMappings) (h : forest.compile settings = .ok catalog) :
    (catalog.code m).Perm (catalog.strays ++ catalog.plainCode m) := by
  have hrecords := (List.Perm.flatMap_left catalog.records fun r _ =>
    entryCode_perm m r).trans (List.flatMap_append_perm _ _ _).symm
  rw [code_of_compile m h, Catalog.strays, Catalog.plainCode, List.flatMap_map]
  exact perm_front hrecords

theorem code_of_strays_nil (m : TypeMappings) (h : forest.compile settings = .ok catalog)
    (hnone : catalog.strays = []) : catalog.code m = catalog.plainCode m := by
  have hstrays := List.flatMap_eq_nil_iff.1 hnone
  have hrecords : catalog.records.flatMap (entryCode m) =
      catalog.records.flatMap fun r => StructCode.plainCode m r.undescribed :=
    List.flatMap_congr fun r hr => entryCode_of_strays_nil m (hstrays r hr)
  rw [code_of_compile m h, Catalog.plainCode, List.flatMap_map, hrecords]

end Forest

/-! ### Other descriptions -/

/-- The second field differs from the first in descriptions, at every depth, and the descriptions
of corresponding fields are related. -/
inductive Field.Redescribed (σ : Option String → Option String → Prop) : Field → Field → Prop
  | mk {f : Field} {description : Option String} {properties : List Field} :
      σ f.description description → List.Forall₂ (Redescribed σ) f.properties properties →
      Redescribed σ f { f with description := description, properties := properties }

theorem Field.likeness_redescribed (σ : Option String → Option String → Prop) :
    Likeness (Redescribed σ) where
  name := by rintro _ _ ⟨⟩; rfl
  type := by rintro _ _ ⟨⟩; rfl
  identity := by rintro _ _ ⟨⟩; rfl
  capabilities := by rintro _ _ ⟨⟩; rfl
  properties := by rintro _ _ ⟨_, h⟩; exact h

namespace Compile

variable {σ : Option String → Option String → Prop} {f g : RecordField}
  {fs gs : List RecordField} {m m' : Making} {ms ms' : List Making}

theorem TwinFields.undescribed_eq (h : TwinFields (Field.Redescribed σ) f g) :
    g.undescribed = f.undescribed := by
  obtain ⟨⟨_, _⟩, hdefault, hdefault'⟩ := h
  cases hdefault.symm.trans hdefault'
  rfl

theorem twinFields_undescribed_eq (h : List.Forall₂ (TwinFields (Field.Redescribed σ)) fs gs) :
    gs.map RecordField.undescribed = fs.map RecordField.undescribed :=
  map_eq_of_forall₂ (fun _ _ hfg => hfg.undescribed_eq) h

theorem TwinMakings.undescribed_eq (h : TwinMakings (Field.Redescribed σ) m m') :
    m'.record.undescribed = m.record.undescribed := by
  have hfields : m'.record.fields.map RecordField.undescribed =
      m.record.fields.map RecordField.undescribed := by
    obtain ⟨_, hfields⟩ := h
    exact twinFields_undescribed_eq hfields
  have hbare : ∀ r : RecordDefinition, r.undescribed =
      { r.bare with fields := r.fields.map RecordField.undescribed } := fun _ => rfl
  rw [hbare, hbare, h.bare_eq (Field.likeness_redescribed σ), hfields]

/-- The descriptions are both there or both absent, and leave the same among the code. -/
abbrev SameStrays : Option String → Option String → Prop :=
  Option.Rel fun d d' => StructCode.strays d' = StructCode.strays d

theorem SameStrays.of_oneLine {d d' : String} (h : '\n' ∉ d.toList) (h' : '\n' ∉ d'.toList) :
    SameStrays (some d) (some d') := by
  apply Option.Rel.some
  rw [StructCode.strays_oneLine h, StructCode.strays_oneLine h']

theorem SameStrays.elim_eq {d d' : Option String} (h : SameStrays d d') :
    d'.elim [] StructCode.strays = d.elim [] StructCode.strays := by
  cases h with
  | none => rfl
  | some hsame => exact hsame

theorem SameStrays.getD_eq {d d' : Option String} (h : SameStrays d d') (name : String) :
    StructCode.strays (d'.getD name) = StructCode.strays (d.getD name) := by
  cases h with
  | none => rfl
  | some hsame => exact hsame

theorem TwinFields.strays_eq (h : TwinFields (Field.Redescribed SameStrays) f g) :
    g.strays = f.strays := by
  obtain ⟨⟨hsame, _⟩, _, _⟩ := h
  exact hsame.elim_eq

theorem TwinMakings.strayGroups_eq (h : TwinMakings (Field.Redescribed SameStrays) m m') :
    m'.record.strayGroups = m.record.strayGroups := by
  obtain ⟨⟨hsame, _⟩, hfields⟩ := h
  exact congrArg₂ List.cons (hsame.getD_eq _)
    (map_eq_of_forall₂ (fun _ _ hfg => hfg.strays_eq) hfields)

theorem undescribed_flagged (roots : List QualifiedName) (groups : List CycleGroup)
    (r : RecordDefinition) :
    (flagged roots groups r).undescribed = flagged roots groups r.undescribed := by
  simp [flagged, RecordDefinition.undescribed, RecordField.undescribed, RecordDefinition.name]

theorem strayGroups_flagged (roots : List QualifiedName) (groups : List CycleGroup)
    (r : RecordDefinition) : (flagged roots groups r).strayGroups = r.strayGroups := by
  simp [flagged, RecordDefinition.strayGroups, RecordField.strays, RecordDefinition.doc,
    RecordDefinition.name]

end Compile

namespace Forest

open StructCode Compile

variable {settings : Settings} {forest forest' : Forest} {catalog catalog' : Catalog}

/-- Descriptions matter to nothing else in the definitions of records. -/
theorem undescribed_records_eq {σ : Option String → Option String → Prop}
    (hroots : List.Forall₂ (Field.Redescribed σ) forest.roots forest'.roots)
    (h : forest.compile settings = .ok catalog) (h' : forest'.compile settings = .ok catalog') :
    catalog'.records.map RecordDefinition.undescribed =
      catalog.records.map RecordDefinition.undescribed := by
  obtain ⟨roots, groups, ms, ms', hms, hrecords, hrecords'⟩ :=
    twins_of_compile (Field.likeness_redescribed σ) hroots h h'
  rw [hrecords, hrecords', List.map_map, List.map_map]
  refine map_eq_of_forall₂ (fun m m' hm => ?_) hms
  rw [Function.comp_apply, Function.comp_apply, undescribed_flagged, undescribed_flagged,
    hm.undescribed_eq]

theorem plainCode_eq (m : TypeMappings) {σ : Option String → Option String → Prop}
    (hroots : List.Forall₂ (Field.Redescribed σ) forest.roots forest'.roots)
    (h : forest.compile settings = .ok catalog) (h' : forest'.compile settings = .ok catalog') :
    catalog'.plainCode m = catalog.plainCode m := by
  rw [Catalog.plainCode, Catalog.plainCode, undescribed_records_eq hroots h h']

theorem code_eq_of_sameStrays (m : TypeMappings)
    (hroots : List.Forall₂ (Field.Redescribed SameStrays) forest.roots forest'.roots)
    (h : forest.compile settings = .ok catalog) (h' : forest'.compile settings = .ok catalog') :
    catalog'.code m = catalog.code m := by
  obtain ⟨roots, groups, ms, ms', hms, hrecords, hrecords'⟩ :=
    twins_of_compile (Field.likeness_redescribed SameStrays) hroots h h'
  have hcode : (ms'.flatMap fun made => entryCode m (flagged roots groups made.record)) =
      ms.flatMap fun made => entryCode m (flagged roots groups made.record) := by
    rw [List.flatMap_def, List.flatMap_def]
    refine congrArg List.flatten (map_eq_of_forall₂ (fun made made' hmade => ?_) hms)
    apply entryCode_congr
    · rw [undescribed_flagged, undescribed_flagged, hmade.undescribed_eq]
    · rw [strayGroups_flagged, strayGroups_flagged, hmade.strayGroups_eq]
  rw [code_of_compile m h, code_of_compile m h', hrecords, hrecords', List.flatMap_map,
    List.flatMap_map, hcode]

theorem strays_perm_of_code_eq (m : TypeMappings) {σ : Option String → Option String → Prop}
    (hroots : List.Forall₂ (Field.Redescribed σ) forest.roots forest'.roots)
    (h : forest.compile settings = .ok catalog) (h' : forest'.compile settings = .ok catalog')
    (heq : catalog'.code m = catalog.code m) : catalog'.strays.Perm catalog.strays := by
  have hboth := (code_perm m h').symm.trans (heq ▸ code_perm m h)
  rw [plainCode_eq m hroots h h'] at hboth
  exact (List.perm_append_right_iff _).1 hboth

/-- Where two schemas differ in descriptions only, what is left of their code without the lines of
documentation is the same if corresponding descriptions leave the same, and can be the same only if
all descriptions together do. -/
theorem compile_code_eq (settings : Settings) (m : TypeMappings) {forest forest' : Forest}
    (hroots : List.Forall₂ (Field.Redescribed fun _ _ => True) forest.roots forest'.roots) :
    ∀ catalog catalog', forest.compile settings = .ok catalog →
      forest'.compile settings = .ok catalog' →
      (List.Forall₂ (Field.Redescribed SameStrays) forest.roots forest'.roots →
        catalog'.code m = catalog.code m) ∧
      (catalog'.code m = catalog.code m → catalog'.strays.Perm catalog.strays) ∧
      (catalog.strays = [] → (catalog'.code m = catalog.code m ↔ catalog'.strays = [])) := by
  intro catalog catalog' h h'
  have hperm := strays_perm_of_code_eq m hroots h h'
  refine ⟨fun hsame => code_eq_of_sameStrays m hsame h h', hperm, fun hnone => ⟨fun heq => ?_,
    fun hnone' => ?_⟩⟩
  · have hnil := hperm heq
    rw [hnone] at hnil
    exact hnil.eq_nil
  · rw [code_of_strays_nil m h hnone, code_of_strays_nil m h' hnone', plainCode_eq m hroots h h']

/-- An invoice with a description and with one of its total. -/
def invoice (invoice total : String) : Forest where
  roots := [
    { name := "invoice", description := some invoice, properties := [
        { name := "total", type := some (.scalar .long), description := some total
          position := some 1 },
        { name := "buyer", properties := [{ name := "name" }] }] }]

theorem invoice_redescribed {a b a' b' : String} {σ : Option String → Option String → Prop}
    (hnone : σ none none) (ha : σ (some a) (some a')) (hb : σ (some b) (some b')) :
    List.Forall₂ (Field.Redescribed σ) (invoice a b).roots (invoice a' b').roots := by
  refine .cons (.mk ha (.cons ?total (.cons ?buyer .nil))) .nil
  case total => exact .mk hb .nil
  case buyer => exact .mk hnone (.cons (.mk hnone .nil) .nil)

theorem invoice_compiles : ∃ catalog,
    (invoice "An invoice." "In cents.").compile {} = .ok catalog ∧
    decide (catalog.strays = []) = true :=
  exists_catalog (by decide +kernel)

theorem billedInvoice_compiles : ∃ catalog,
    (invoice "A bill." "With tax.").compile {} = .ok catalog ∧
    decide (catalog.records.map (·.description) = [none, some "A bill."]) = true :=
  exists_catalog (by decide +kernel)

theorem documentedInvoice_compiles : ∃ catalog,
    (invoice "An invoice,\n/// to be paid." "With tax.").compile {} = .ok catalog ∧
    decide (catalog.strays = []) = true :=
  exists_catalog (by decide +kernel)

/-- Other lines, and a line more that is documentation by itself. -/
theorem invoice_code_eq : ∃ catalog catalog' catalog'',
    (invoice "An invoice." "In cents.").compile {} = .ok catalog ∧
    (invoice "A bill." "With tax.").compile {} = .ok catalog' ∧
    (invoice "An invoice,\n/// to be paid." "With tax.").compile {} = .ok catalog'' ∧
    catalog'.code {} = catalog.code {} ∧ catalog''.code {} = catalog.code {} := by
  obtain ⟨catalog, hc, hnone⟩ := invoice_compiles
  obtain ⟨catalog', hc', _⟩ := billedInvoice_compiles
  obtain ⟨catalog'', hc'', hnone'⟩ := documentedInvoice_compiles
  have hbilled := compile_code_eq {} {} (invoice_redescribed trivial trivial trivial)
    catalog catalog' hc hc'
  have hdocumented := compile_code_eq {} {} (invoice_redescribed trivial trivial trivial)
    catalog catalog'' hc hc''
  refine ⟨catalog, catalog', catalog'', hc, hc', hc'', hbilled.1 ?_, ?_⟩
  · exact invoice_redescribed .none (.of_oneLine (by decide) (by decide))
      (.of_oneLine (by decide) (by decide))
  · exact (hdocumented.2.2 (of_decide_eq_true hnone)).2 (of_decide_eq_true hnone')

theorem brokenInvoice_compiles : ∃ catalog,
    (invoice "An invoice.\nfn main() \x7b\x7d" "In cents.").compile {} = .ok catalog ∧
    decide (catalog.strays = ["fn main() \x7b\x7d".toList]) = true :=
  exists_catalog (by decide +kernel)

/-- The second line of a description is a line of code. -/
theorem invoice_code_ne : ∃ catalog catalog',
    List.Forall₂ (Field.Redescribed fun _ _ => True) (invoice "An invoice." "In cents.").roots
      (invoice "An invoice.\nfn main() \x7b\x7d" "In cents.").roots ∧
    (invoice "An invoice." "In cents.").compile {} = .ok catalog ∧
    (invoice "An invoice.\nfn main() \x7b\x7d" "In cents.").compile {} = .ok catalog' ∧
    catalog'.code {} ≠ catalog.code {} := by
  obtain ⟨catalog, hc, hnone⟩ := invoice_compiles
  obtain ⟨catalog', hc', hstray⟩ := brokenInvoice_compiles
  have hroots : List.Forall₂ (Field.Redescribed fun _ _ => True)
      (invoice "An invoice." "In cents.").roots
      (invoice "An invoice.\nfn main() \x7b\x7d" "In cents.").roots :=
    invoice_redescribed trivial trivial trivial
  refine ⟨catalog, catalog', hroots, hc, hc', fun heq => ?_⟩
  have hperm := strays_perm_of_code_eq {} hroots hc hc' heq
  rw [of_decide_eq_true hnone, of_decide_eq_true hstray] at hperm
  exact List.cons_ne_nil _ _ hperm.eq_nil

end Forest

end RecordCodec
