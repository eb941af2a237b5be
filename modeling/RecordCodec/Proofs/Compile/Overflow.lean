import RecordCodec.Compile
import RecordCodec.Proofs.Codec.Overflow
import RecordCodec.Proofs.Schema.Defaults

/-!
The one way in which compiling ends a run: a default with an overflowing literal in the place of a
decimal. Defusing a schema puts a boolean in the place of every such default, which is reported as
no value of its type. Compiling goes the same way in a schema and in the defused schema until such
a default is met; so the run ends exactly when the two results differ.
-/

namespace RecordCodec

/-! ### Results of a schema and of the defused schema -/

section

variable {α β : Type} {r r' : Except Error α}

/-- An error that does not end the run. -/
def Reported (r : Except Error α) : Prop := ∀ e, r = .error e → e.endsRun = false

theorem reported_ok (a : α) : Reported (.ok a) := nofun

theorem reported_error {e : Error} (h : e.endsRun = false) :
    Reported (.error e : Except Error α) := by
  rintro _ ⟨⟩
  exact h

/-- Both results are the same and do not end the run, or the first ends it and the second is an
error that is reported. -/
inductive Defuses (r r' : Except Error α) : Prop
  | same : Reported r → r' = r → Defuses r r'
  | ended {e e' : Error} :
      r = .error e → e.endsRun = true → r' = .error e' → e'.endsRun = false → Defuses r r'

theorem Defuses.of_reported (h : Reported r) : Defuses r r := .same h rfl

theorem Defuses.endsRun_iff (h : Defuses r r') :
    (∃ e, r = .error e ∧ e.endsRun = true) ↔ r ≠ r' := by
  cases h with
  | same hr heq =>
      constructor
      · rintro ⟨e, he, hends⟩
        rw [hr e he] at hends
        cases hends
      · exact fun hne => absurd heq.symm hne
  | @ended e e' he hends he' hreported =>
      refine ⟨fun _ heq => ?_, fun _ => ⟨e, he, hends⟩⟩
      rw [he, he'] at heq
      cases heq
      rw [hends] at hreported
      cases hreported

/-- The three ways in which results agree, for what goes on from them. -/
@[elab_as_elim]
theorem Defuses.elim {motive : Except Error α → Except Error α → Prop} (h : Defuses r r')
    (ok : ∀ a, motive (.ok a) (.ok a))
    (reported : ∀ e, e.endsRun = false → motive (.error e) (.error e))
    (ended : ∀ e e', e.endsRun = true → e'.endsRun = false → motive (.error e) (.error e')) :
    motive r r' := by
  cases h with
  | same hr heq =>
      rw [heq]
      cases r with
      | error e => exact reported e (hr e (Eq.refl _))
      | ok a => exact ok a
  | ended he hends he' hreported =>
      rw [he, he']
      exact ended _ _ hends hreported

theorem defuses_errors {e e' : Error} (h : e.endsRun = true) (h' : e'.endsRun = false) :
    Defuses (.error e : Except Error α) (.error e') := .ended rfl h rfl h'

theorem defuses_error {e : Error} (h : e.endsRun = false) :
    Defuses (.error e : Except Error α) (.error e) := .of_reported (reported_error h)

theorem Defuses.map (h : Defuses r r') (f : α → β) : Defuses (r.map f) (r'.map f) := by
  cases h with
  | same hr heq =>
      rw [heq]
      exact .of_reported fun e he => hr e (map_eq_error_iff.1 he)
  | ended he hends he' hreported =>
      subst he he'
      exact .ended (Eq.refl _) hends (Eq.refl _) hreported

end

/-! ### Defaults -/

namespace Compile

/-- Reading the default ends the run. -/
def defaultOverflows (type : FieldType) (json : Json) : Bool :=
  match compileDefault type json [] with
  | .error e => e.endsRun
  | .ok _ => false

/-- The default holds an overflowing literal in the place of a decimal. -/
def DefaultOverflows (type : FieldType) (json : Json) : Prop :=
  type.isStructLeaf = false ∧ ∃ taken t rest path, json.tokens = taken ++ t :: rest ∧
    t.Overflows ∧ Awaits (fun _ => none) (.ofType none type) (.root "") taken .decimal path

theorem decodeDetached_endsRun_iff {plan : Plan CodecRef} {json : Json} {root : String} :
    (∃ e, decodeDetached plan json root = .error e ∧ e.endsRun = true) ↔
      ∃ stop, decodeValue (fun _ => none) plan (.root root) json.tokens = .error stop ∧
        stop.error.endsRun = true := by
  unfold decodeDetached
  constructor
  · rintro ⟨e, he, hends⟩
    split at he
    · rename_i stop hstop
      cases he
      exact ⟨stop, hstop, hends⟩
    · cases he
    · cases he
      cases hends
  · rintro ⟨stop, hstop, hends⟩
    rw [hstop]
    exact ⟨stop.error, rfl, hends⟩

theorem compileDefault_endsRun_iff {type : FieldType} {json : Json} {place : Place} :
    (∃ e, compileDefault type json place = .error e ∧ e.endsRun = true) ↔
      DefaultOverflows type json := by
  have hreads : ReadsScalars _ (decodeValue (fun _ => none) (.ofType none type) (.root place.text))
      (Awaits (fun _ => none) (.ofType none type) (.root place.text)) :=
    readsScalars_decodeValue _ _
  have hdetached := decodeDetached_endsRun_iff.trans
    (@ReadsScalars.endsRun_iff_awaits _ _ _ _ hreads json.tokens)
  unfold compileDefault
  constructor
  · rintro ⟨e, he, hends⟩
    split at he
    · cases he
      cases hends
    · rename_i hleaf
      split at he
      · cases he
      · rename_i e' hdec
        have hends' : e'.endsRun = true := by
          cases he
          split at hends
          · assumption
          · cases hends
        obtain ⟨taken, t, rest, path, hts, ht, hawaits⟩ := hdetached.1 ⟨e', hdec, hends'⟩
        obtain ⟨path', hawaits⟩ := hawaits.elsewhere (.root "")
        exact ⟨Bool.eq_false_iff.2 hleaf, taken, t, rest, path', hts, ht, hawaits⟩
  · rintro ⟨hleaf, taken, t, rest, path, hts, ht, hawaits⟩
    obtain ⟨path', hawaits⟩ := hawaits.elsewhere (.root place.text)
    obtain ⟨e, he, hends⟩ := hdetached.2 ⟨taken, t, rest, path', hts, ht, hawaits⟩
    rw [hleaf, he]
    exact ⟨e, by simp [hends], hends⟩

theorem defaultOverflows_iff {type : FieldType} {json : Json} :
    defaultOverflows type json = true ↔ DefaultOverflows type json := by
  rw [← @compileDefault_endsRun_iff type json []]
  unfold defaultOverflows
  constructor
  · intro h
    split at h
    · rename_i e he
      exact ⟨e, he, h⟩
    · cases h
  · rintro ⟨e, he, hends⟩
    rw [he]
    exact hends

/-- Where a decimal is read somewhere, a boolean is no value. -/
theorem decodeValue_bool {type : FieldType} (hleaf : type.isStructLeaf = false) {path path' : Path}
    {taken : List Token}
    (h : Awaits (fun _ => none) (.ofType none type) path taken .decimal path') (path : Path) :
    ∃ stop, decodeValue (fun _ => none) (.ofType none type) path
      (Json.bool true).tokens = .error stop := by
  unfold decodeValue
  simp only [map_eq_error_iff]
  cases type with
  | scalar kind =>
      cases h with
      | scalar =>
          have hne : Token.boolean true ≠ .null := nofun
          exact ⟨_, Awaits.scalar.fails rfl hne rfl []⟩
  | struct => cases hleaf
  | list item =>
      refine ⟨Token.malformed path (.unexpected (.token .startArray) (.boolean true)) [], ?_⟩
      rw [Json.tokens, decodeAt.eq_def]
      rfl
  | map value =>
      refine ⟨Token.malformed path (.unexpected (.token .startObject) (.boolean true)) [], ?_⟩
      rw [Json.tokens, decodeAt.eq_def]
      rfl

/-- A boolean never ends the run; in the place of a default that does it is reported. -/
theorem compileDefault_bool {type : FieldType} {json : Json} (h : DefaultOverflows type json)
    (place : Place) :
    ∃ e, compileDefault type (.bool true) place = .error e ∧ e.endsRun = false := by
  have hreported : Reported (compileDefault type (.bool true) place) := by
    intro e he
    rw [Bool.eq_false_iff]
    intro hends
    obtain ⟨_, taken, t, rest, _, hts, ⟨literal, ht, _⟩, _⟩ :=
      compileDefault_endsRun_iff.1 ⟨e, he, hends⟩
    have hmem : t ∈ (Json.bool true).tokens := by
      rw [hts]
      exact List.mem_append_right _ List.mem_cons_self
    obtain rfl := List.mem_singleton.1 hmem
    rcases ht with ht | ht
    · cases ht
    · cases ht
  obtain ⟨hleaf, taken, t, rest, path, _, _, hawaits⟩ := h
  obtain ⟨stop, hstop⟩ := decodeValue_bool hleaf hawaits (.root place.text)
  have hbool : ∃ e, compileDefault type (.bool true) place = .error e := by
    unfold compileDefault decodeDetached
    rw [hleaf, hstop]
    exact ⟨_, rfl⟩
  obtain ⟨e, he⟩ := hbool
  exact ⟨e, he, hreported e he⟩

end Compile

/-! ### Defused schemas -/

/-- The field's default, or a boolean when reading the default would end the run. -/
def Field.defusedDefault (policy : UntypedPolicy) (f : Field) : Option Json :=
  match f.type? policy, f.default with
  | some type, some json =>
      if Compile.defaultOverflows type json then some (.bool true) else some json
  | _, default => default

/-- The schema with a boolean in the place of every default that would end the run. -/
def Forest.defused (policy : UntypedPolicy) (forest : Forest) : Forest :=
  forest.withDefaults (Field.defusedDefault policy)

namespace Compile

variable (c : Setting)

abbrev Setting.defused : Setting := { c with forest := c.forest.defused c.settings.untyped }

abbrev defuse : Field → Field := Field.withDefaults (Field.defusedDefault c.settings.untyped)

abbrev defuseAll : List Field → List Field :=
  Field.withDefaultsAll (Field.defusedDefault c.settings.untyped)

variable {c}

theorem settings_defused : c.defused.settings = c.settings := rfl

theorem allocate_defused : c.defused.allocate = c.allocate := rfl

theorem compileDefault?_defuses {f : Field} {type : FieldType}
    (ht : f.type? c.settings.untyped = some type) (place : Place) :
    Defuses (compileDefault? type place f.default)
      (compileDefault? type place (f.defusedDefault c.settings.untyped)) := by
  unfold Field.defusedDefault
  rw [ht]
  cases f.default with
  | none => exact .of_reported (reported_ok _)
  | some json =>
      simp only
      split
      · rename_i hover
        have hover := defaultOverflows_iff.1 hover
        obtain ⟨e, he, hends⟩ := compileDefault_endsRun_iff.2 hover
        obtain ⟨e', he', hreported⟩ := compileDefault_bool hover place
        exact .ended (map_eq_error_iff.2 he) hends (map_eq_error_iff.2 he') hreported
      · rename_i hover
        refine .of_reported fun e he => Bool.eq_false_iff.2 fun hends => hover ?_
        exact defaultOverflows_iff.2 (compileDefault_endsRun_iff.1
          ⟨e, map_eq_error_iff.1 he, hends⟩)

theorem buildRecord_defuses {owner : Field} {names : ArtifactNames} {identity : Option String}
    {compileFields compileFields' : Run → Except Error (List RecordField × Run)}
    (h : ∀ run, Defuses (compileFields run) (compileFields' run)) (run : Run) :
    Defuses (buildRecord owner names identity compileFields run)
      (buildRecord (defuse c owner) names identity compileFields' run) := by
  obtain ⟨n, t, w, d, v, s, ps, i, cs, p⟩ := owner
  unfold buildRecord
  split
  · exact .of_reported (reported_ok _)
  · refine Defuses.elim (h _) (fun _ => .of_reported (reported_ok _)) (fun _ => defuses_error)
      fun _ _ => defuses_errors

/-- Opening an owner agrees with opening the defused owner. -/
def OpensDefused (c : Setting) (openOwner openOwner' : OpenOwner) : Prop :=
  ∀ identity names place owner run, Defuses (openOwner identity names place owner run)
    (openOwner' identity names place (defuse c owner) run)

mutual

theorem resolveStruct_defuses {openOwner openOwner' : OpenOwner}
    (ho : OpensDefused c openOwner openOwner') (enclosing : String) (place : Place) (run : Run) :
    (f : Field) → Defuses (resolveStruct c openOwner enclosing place run f)
      (resolveStruct c.defused openOwner' enclosing place run (defuse c f))
  | ⟨n, t, w, d, v, s, ps, i, cs, p⟩ => by
      rw [defuse, Field.withDefaults, resolveStruct, resolveStruct]
      -- a field without an identity owns its properties, one with an identity refers to their owner
      cases i with
      | none =>
          simp only [Field.isEmpty_withDefaultsAll, Field.names_withDefaultsAll, allocate_defused]
          split
          · exact .of_reported (reported_ok _)
          · have hbuild := @buildRecord_defuses c ⟨n, t, w, d, v, s, ps, none, cs, p⟩
              (c.allocate none enclosing n run).1 none _ _
              (compileFields_defuses ho (c.allocate none enclosing n run).1.record.name place
                (c.settings.naming.accessors (ps.map (·.name)))
                (c.settings.naming.constants (ps.map (·.name))) ps)
              (c.allocate none enclosing n run).2
            rw [defuse, Field.withDefaults] at hbuild
            exact Defuses.elim hbuild (fun _ => .of_reported (reported_ok _))
              (fun _ => defuses_error) fun _ _ => defuses_errors
      | some identity =>
          have howner := Forest.owner?_withDefaults (Field.defusedDefault c.settings.untyped)
            c.forest identity
          simp only [Setting.defused, Forest.defused, howner]
          split
          · exact .of_reported (reported_ok _)
          · cases c.forest.owner? identity with
            | none =>
                simp only [Option.map_none]
                split
                · rename_i hext
                  exact .same (reported_ok _) (if_pos hext)
                · rename_i hext
                  exact .same (reported_error rfl) (if_neg hext)
            | some owner =>
                simp only [Option.map_some]
                refine Defuses.elim (ho identity _ place owner _)
                  (fun _ => .of_reported (reported_ok _)) (fun _ => defuses_error)
                  fun _ _ => defuses_errors

theorem compileFields_defuses {openOwner openOwner' : OpenOwner}
    (ho : OpensDefused c openOwner openOwner') (enclosing : String) (place : Place)
    (accessors constants : List String) :
    (fs : List Field) → ∀ run : Run,
      Defuses (compileFields c openOwner enclosing place accessors constants fs run)
        (compileFields c.defused openOwner' enclosing place accessors constants
          (defuseAll c fs) run)
  | [], run => .of_reported (reported_ok _)
  | f :: rest, run => by
      have htype := Field.type?_withDefaults (Field.defusedDefault c.settings.untyped) f
        c.settings.untyped
      rw [defuseAll, Field.withDefaultsAll, compileFields, compileFields, htype,
        Field.name_withDefaults]
      split
      · exact .of_reported (reported_error rfl)
      · rename_i type ht
        simp only
        have htarget : ∀ run, Defuses
            (if type.isStructLeaf then
              (resolveStruct c openOwner enclosing (place ++ [f.name]) run f).map
                fun p => (some p.1, p.2)
            else .ok (none, run))
            (if type.isStructLeaf then
              (resolveStruct c.defused openOwner' enclosing (place ++ [f.name]) run
                (defuse c f)).map fun p => (some p.1, p.2)
            else .ok (none, run)) := by
          intro run
          split
          · exact (resolveStruct_defuses ho enclosing _ run f).map _
          · exact .of_reported (reported_ok _)
        refine Defuses.elim (htarget run) (fun p => ?_) (fun _ => defuses_error)
          fun _ _ => defuses_errors
        simp only [Field.default_withDefaults]
        refine Defuses.elim (compileDefault?_defuses ht _) (fun default => ?_)
          (fun _ => defuses_error) fun _ _ => defuses_errors
        simp only
        refine Defuses.elim (compileFields_defuses ho enclosing place accessors.tail
          constants.tail rest p.2) (fun _ => ?_) (fun _ => defuses_error) fun _ _ => defuses_errors
        refine .same (reported_ok _) ?_
        obtain ⟨n, t, w, d, v, s, ps, i, cs, p⟩ := f
        rfl

end

theorem openOwnerWithin_defuses (jumps : Nat) :
    OpensDefused c (openOwnerWithin c jumps) (openOwnerWithin c.defused jumps) := by
  induction jumps with
  | zero => exact fun _ _ _ _ _ => defuses_error rfl
  | succ jumps ih =>
      intro identity names place owner run
      simp only [openOwnerWithin, Field.properties_withDefaults, Field.names_withDefaultsAll]
      exact buildRecord_defuses (fun run => compileFields_defuses ih _ _ _ _ owner.properties run) _

theorem openOwner_defuses : OpensDefused c (openOwner c) (openOwner c.defused) := by
  have hcount := Forest.fieldCount_withDefaults (Field.defusedDefault c.settings.untyped) c.forest
  unfold openOwner
  rw [Setting.defused, Forest.defused, hcount]
  exact openOwnerWithin_defuses _

/-! ### Roots and catalogs -/

theorem compileRoot_defuses (run : Run) (root : Field) :
    Defuses (compileRoot c run root) (compileRoot c.defused run (defuse c root)) := by
  unfold compileRoot
  rw [settings_defused, Field.type?_withDefaults, Field.name_withDefaults]
  split
  · exact .of_reported (reported_error rfl)
  · refine Defuses.elim (resolveStruct_defuses openOwner_defuses "" [root.name] run root)
      (fun p => ?_) (fun _ => defuses_error) fun _ _ => defuses_errors
    obtain ⟨target, run⟩ := p
    cases target with
    | generated names => exact .of_reported (reported_ok _)
    | document => exact .of_reported (reported_error rfl)
  · exact .of_reported (reported_error rfl)

theorem compileRoots_defuses (roots : List Field) (run : Run) :
    Defuses (compileRoots c run roots) (compileRoots c.defused run (defuseAll c roots)) := by
  induction roots generalizing run with
  | nil => exact .of_reported (reported_ok _)
  | cons root rest ih =>
      rw [defuseAll, Field.withDefaultsAll, compileRoots, compileRoots]
      refine Defuses.elim (compileRoot_defuses run root) (fun p => ?_) (fun _ => defuses_error)
        fun _ _ => defuses_errors
      obtain ⟨name, run⟩ := p
      dsimp only
      refine Defuses.elim (ih run) (fun _ => .of_reported (reported_ok _)) (fun _ => defuses_error)
        fun _ _ => defuses_errors

theorem reported_assemble {roots : List QualifiedName} {groups : List CycleGroup}
    {codecs : Reservations} (records : List RecordDefinition) :
    Reported (assemble roots groups codecs records) := by
  induction records generalizing codecs with
  | nil => exact reported_ok _
  | cons r rest ih =>
      unfold assemble
      split
      · exact reported_error rfl
      · simp only
        split
        · rename_i herror
          exact reported_error (ih _ herror)
        · exact reported_ok _

theorem reported_finish (roots : List QualifiedName) (run : Run) : Reported (finish roots run) := by
  unfold finish
  split
  · exact reported_error rfl
  · intro e he
    exact reported_assemble _ e (map_eq_error_iff.1 he)

/-! ### Checking -/

theorem reported_check {policy : UntypedPolicy} {place : Place} (f : Field) :
    Reported (f.check policy place) := by
  unfold Field.check
  split
  · exact reported_error rfl
  · split
    · exact reported_error rfl
    · exact reported_ok _

mutual

theorem reported_validate {policy : UntypedPolicy} {place : Place} :
    (f : Field) → Reported (f.validate policy place)
  | ⟨n, t, w, d, v, s, ps, i, c, p⟩ => by
      rw [Field.validate]
      split
      · rename_i hcheck
        exact reported_error (reported_check _ _ hcheck)
      · exact reported_validateNested ps

theorem reported_validateNested {policy : UntypedPolicy} {place : Place} {seen : List String} :
    (fs : List Field) → Reported (Field.validateNested policy place seen fs)
  | [] => reported_ok _
  | f :: rest => by
      rw [Field.validateNested]
      split
      · exact reported_error rfl
      · split
        · rename_i hf
          exact reported_error (reported_validate f _ hf)
        · exact reported_validateNested rest

end

theorem reported_validateRoots {policy : UntypedPolicy} {seen : List String}
    (roots : List Field) : Reported (Forest.validateRoots policy seen roots) := by
  induction roots generalizing seen with
  | nil => exact reported_ok _
  | cons root rest ih =>
      rw [Forest.validateRoots]
      split
      · exact reported_error rfl
      · split
        · rename_i hroot
          exact reported_error (reported_validate root _ hroot)
        · exact ih

end Compile

/-- Compiling a schema and compiling the defused schema come to the same, or the first ends the
run. -/
theorem Forest.compile_defuses (settings : Settings) (forest : Forest) :
    Defuses (forest.compile settings) ((forest.defused settings.untyped).compile settings) := by
  have hvalid : (forest.defused settings.untyped).validate settings.untyped =
      forest.validate settings.untyped := forest.validate_withDefaults _ _
  unfold compile
  rw [hvalid]
  split
  · rename_i herror
    exact defuses_error (Compile.reported_validateRoots _ _ herror)
  · refine Defuses.elim
      (@Compile.compileRoots_defuses ⟨settings, forest⟩ forest.roots Compile.start) (fun p => ?_)
      (fun _ => defuses_error) fun _ _ => defuses_errors
    exact .of_reported (Compile.reported_finish p.1 p.2)

end RecordCodec
