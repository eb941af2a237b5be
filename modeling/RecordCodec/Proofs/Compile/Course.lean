import RecordCodec.Compile

/-!
The course of a compilation. `Resolves` and `Compiles` say how a run gets from one state to another
when a field is given its target and when the fields of a record are compiled, with the records
that are made on the way in the order in which they are finished. The functions of the compiler
bound the jumps from a reference to the owner of its identity, the courses do not speak of a bound.
Facts about compiled schemas are proved by induction on courses.
-/

namespace RecordCodec

namespace Compile

/-- A record that was made, and the field whose nested fields it has. -/
structure Making where
  owner : Field
  record : RecordDefinition

/-- Claims the names of a new record and registers them under its identity, if it has one. -/
def Setting.announce (c : Setting) (identity : Option String) (enclosing field : String)
    (run : Run) : ArtifactNames × Run :=
  let (names, run) := c.allocate identity enclosing field run
  (names, { run with identities := (identity.map (·, names)).toList ++ run.identities })

/-- A field for which a record is to be made, and the field from whose nested fields it will be
made: the field itself, or the owner of an identity that is met for the first time. -/
inductive Defines (c : Setting) (run : Run) (f : Field) : Field → Prop
  | itself : f.identity = none → f.properties ≠ [] → Defines c run f f
  | owner {identity : String} {owner : Field} :
      f.identity = some identity → run.identities.lookup identity = none →
      c.forest.owner? identity = some owner → Defines c run f owner

mutual

/-- A field with a struct leaf, met at a place inside a record, is given a target. -/
inductive Resolves (c : Setting) :
    String → Place → Field → Run → Target → List Making → Run → Prop
  | document {enclosing : String} {place : Place} {f : Field} {run : Run} :
      f.identity = none → f.properties = [] → Resolves c enclosing place f run .document [] run
  | external {enclosing : String} {place : Place} {f : Field} {run : Run} {identity : String} :
      f.identity = some identity → run.identities.lookup identity = none →
      c.forest.owner? identity = none → c.isExternal identity = true →
      Resolves c enclosing place f run .document [] run
  | shared {enclosing : String} {place : Place} {f : Field} {run : Run} {identity : String}
      {names : ArtifactNames} :
      f.identity = some identity → run.identities.lookup identity = some names →
      Resolves c enclosing place f run (.generated names) [] run
  | held {enclosing : String} {place : Place} {f owner : Field} {run run₁ : Run}
      {names : ArtifactNames} :
      Defines c run f owner → c.announce f.identity enclosing f.name run = (names, run₁) →
      run₁.codecs.reserve? names.record = none →
      Resolves c enclosing place f run (.generated names) [] run₁
  | made {enclosing : String} {place : Place} {f owner : Field} {run run₁ run₂ : Run}
      {names : ArtifactNames} {codecs : Reservations} {fields : List RecordField}
      {ms : List Making} :
      Defines c run f owner → c.announce f.identity enclosing f.name run = (names, run₁) →
      run₁.codecs.reserve? names.record = some codecs →
      Compiles c names.record.name place
        (c.settings.naming.accessors (owner.properties.map (·.name)))
        (c.settings.naming.constants (owner.properties.map (·.name)))
        owner.properties { run₁ with codecs } fields ms run₂ →
      Resolves c enclosing place f run (.generated names)
        (ms ++ [⟨owner, recordDefinition owner names f.identity fields⟩])
        (addRecord owner names f.identity fields run₂)

/-- The fields nested at a place are compiled in order, with these accessors and constants. -/
inductive Compiles (c : Setting) :
    String → Place → List String → List String → List Field → Run → List RecordField →
      List Making → Run → Prop
  | nil {enclosing : String} {place : Place} {accessors constants : List String} {run : Run} :
      Compiles c enclosing place accessors constants [] run [] [] run
  | plain {enclosing : String} {place : Place} {accessors constants : List String} {f : Field}
      {rest : List Field} {run run' : Run} {type : FieldType} {default : Option Value}
      {fields : List RecordField} {ms : List Making} :
      f.type? c.settings.untyped = some type → type.isStructLeaf = false →
      compileDefault? type (place ++ [f.name]) f.default = .ok default →
      Compiles c enclosing place accessors.tail constants.tail rest run fields ms run' →
      Compiles c enclosing place accessors constants (f :: rest) run
        (recordField f (accessors.headD "") (constants.headD "") type none default :: fields)
        ms run'
  | struct {enclosing : String} {place : Place} {accessors constants : List String} {f : Field}
      {rest : List Field} {run run₁ run' : Run} {type : FieldType} {target : Target}
      {default : Option Value} {fields : List RecordField} {ms ms' : List Making} :
      f.type? c.settings.untyped = some type → type.isStructLeaf = true →
      Resolves c enclosing (place ++ [f.name]) f run target ms run₁ →
      compileDefault? type (place ++ [f.name]) f.default = .ok default →
      Compiles c enclosing place accessors.tail constants.tail rest run₁ fields ms' run' →
      Compiles c enclosing place accessors constants (f :: rest) run
        (recordField f (accessors.headD "") (constants.headD "") type (some target) default ::
          fields)
        (ms ++ ms') run'

end

/-- A record is made from its owner, unless its name is reserved already. -/
inductive Builds (c : Setting) (place : Place) (owner : Field) (names : ArtifactNames)
    (identity : Option String) (run : Run) : List Making → Run → Prop
  | held : run.codecs.reserve? names.record = none →
      Builds c place owner names identity run [] run
  | made {run' : Run} {codecs : Reservations} {fields : List RecordField} {ms : List Making} :
      run.codecs.reserve? names.record = some codecs →
      Compiles c names.record.name place
        (c.settings.naming.accessors (owner.properties.map (·.name)))
        (c.settings.naming.constants (owner.properties.map (·.name)))
        owner.properties { run with codecs } fields ms run' →
      Builds c place owner names identity run
        (ms ++ [⟨owner, recordDefinition owner names identity fields⟩])
        (addRecord owner names identity fields run')

/-- The roots are compiled in order, with these names for their records. -/
inductive CompilesRoots (c : Setting) :
    List Field → Run → List ArtifactNames → List Making → Run → Prop
  | nil {run : Run} : CompilesRoots c [] run [] [] run
  | cons {root : Field} {rest : List Field} {run run₁ run' : Run} {names : ArtifactNames}
      {others : List ArtifactNames} {ms ms' : List Making} :
      root.type? c.settings.untyped = some .struct →
      Resolves c "" [root.name] root run (.generated names) ms run₁ →
      CompilesRoots c rest run₁ others ms' run' →
      CompilesRoots c (root :: rest) run (names :: others) (ms ++ ms') run'

/-! ### The compiler follows courses -/

variable {c : Setting}

theorem Builds.resolves {enclosing : String} {place : Place} {f owner : Field}
    {run run₁ run' : Run} {names : ArtifactNames} {ms : List Making}
    (h : Builds c place owner names f.identity run₁ ms run') (hf : Defines c run f owner)
    (hannounce : c.announce f.identity enclosing f.name run = (names, run₁)) :
    Resolves c enclosing place f run (.generated names) ms run' := by
  cases h with
  | held hr => exact .held hf hannounce hr
  | made hr hfields => exact .made hf hannounce hr hfields

theorem buildRecord_builds {owner : Field} {names : ArtifactNames} {identity : Option String}
    {place : Place} {compileFields : Run → Except Error (List RecordField × Run)} {run run' : Run}
    (hf : ∀ {run fields run'}, compileFields run = .ok (fields, run') →
      ∃ ms, Compiles c names.record.name place
        (c.settings.naming.accessors (owner.properties.map (·.name)))
        (c.settings.naming.constants (owner.properties.map (·.name)))
        owner.properties run fields ms run')
    (h : buildRecord owner names identity compileFields run = .ok run') :
    ∃ ms, Builds c place owner names identity run ms run' := by
  unfold buildRecord at h
  split at h
  · rename_i hr
    cases h
    exact ⟨[], .held hr⟩
  · rename_i codecs hr
    split at h
    · cases h
    · rename_i fields run₁ hc
      cases h
      obtain ⟨ms, hfields⟩ := hf hc
      exact ⟨_, .made hr hfields⟩

/-- Opening an owner, in whatever way, follows a course. -/
def OpensByCourse (c : Setting) (openOwner : OpenOwner) : Prop :=
  ∀ {identity names place owner run run'}, openOwner identity names place owner run = .ok run' →
    ∃ ms, Builds c place owner names (some identity) run ms run'

mutual

theorem resolveStruct_resolves {openOwner : OpenOwner} (ho : OpensByCourse c openOwner)
    {enclosing : String} {place : Place} {run run' : Run} {target : Target} :
    (f : Field) → resolveStruct c openOwner enclosing place run f = .ok (target, run') →
      ∃ ms, Resolves c enclosing place f run target ms run'
  | ⟨n, t, w, d, v, s, ps, i, cs, p⟩, h => by
      simp only [resolveStruct] at h
      -- without an identity the record is built in place, with one it is opened once
      cases i with
      | none =>
          simp only at h
          split at h
          · rename_i hempty
            cases h
            exact ⟨[], .document rfl (List.isEmpty_iff.1 hempty)⟩
          · rename_i hne
            split at h
            · cases h
            · rename_i run₁ hb
              cases h
              obtain ⟨ms, hbuilds⟩ :=
                buildRecord_builds (fun hf => compileFields_compiles ho ps hf) hb
              exact ⟨ms, hbuilds.resolves (.itself rfl fun heq => hne (List.isEmpty_iff.2 heq)) rfl⟩
      | some identity =>
          simp only at h
          split at h
          · rename_i names hnames
            cases h
            exact ⟨[], .shared rfl hnames⟩
          · rename_i hnew
            split at h
            · rename_i owner howner
              split at h
              · cases h
              · rename_i run₁ hopen
                cases h
                obtain ⟨ms, hbuilds⟩ := ho hopen
                exact ⟨ms, hbuilds.resolves (.owner rfl hnew howner) rfl⟩
            · rename_i hnone
              split at h
              · rename_i hexternal
                cases h
                exact ⟨[], .external rfl hnew hnone hexternal⟩
              · cases h

theorem compileFields_compiles {openOwner : OpenOwner} (ho : OpensByCourse c openOwner)
    {enclosing : String} {place : Place} {accessors constants : List String} {run run' : Run}
    {fields : List RecordField} :
    (fs : List Field) →
      compileFields c openOwner enclosing place accessors constants fs run = .ok (fields, run') →
      ∃ ms, Compiles c enclosing place accessors constants fs run fields ms run'
  | [], h => by
      simp only [compileFields] at h
      cases h
      exact ⟨[], .nil⟩
  | f :: rest, h => by
      simp only [compileFields] at h
      split at h
      · cases h
      · rename_i type htype
        split at h
        · cases h
        · rename_i target run₁ htarget
          split at h
          · cases h
          · rename_i default hdefault
            split at h
            · cases h
            · rename_i fields' run₂ hrest
              cases h
              obtain ⟨ms', hfields⟩ := compileFields_compiles ho rest hrest
              split at htarget
              · rename_i hleaf
                obtain ⟨p, hp, heq⟩ := map_eq_ok_iff.1 htarget
                cases heq
                obtain ⟨ms, hresolves⟩ := resolveStruct_resolves ho f hp
                exact ⟨_, .struct htype hleaf hresolves hdefault hfields⟩
              · rename_i hleaf
                cases htarget
                exact ⟨_, .plain htype (Bool.eq_false_iff.2 hleaf) hdefault hfields⟩

end

theorem openOwnerWithin_builds (jumps : Nat) : OpensByCourse c (openOwnerWithin c jumps) := by
  induction jumps with
  | zero =>
      intro identity names place owner run run' h
      cases h
  | succ jumps ih =>
      intro identity names place owner run run' h
      exact buildRecord_builds (fun hf => compileFields_compiles ih owner.properties hf) h

theorem compileRoot_resolves {run run' : Run} {root : Field} {name : QualifiedName}
    (h : compileRoot c run root = .ok (name, run')) :
    ∃ names ms, name = names.record ∧ root.type? c.settings.untyped = some .struct ∧
      Resolves c "" [root.name] root run (.generated names) ms run' := by
  unfold compileRoot at h
  split at h
  · cases h
  · rename_i htype
    split at h
    · cases h
    · rename_i names run₁ hr
      cases h
      obtain ⟨ms, hresolves⟩ := resolveStruct_resolves (openOwnerWithin_builds _) root hr
      exact ⟨names, ms, rfl, htype, hresolves⟩
    · cases h
  · cases h

theorem compileRoots_courses {run run' : Run} {roots : List Field} {names : List QualifiedName}
    (h : compileRoots c run roots = .ok (names, run')) :
    ∃ targets ms, names = targets.map (·.record) ∧ CompilesRoots c roots run targets ms run' := by
  induction roots generalizing run names with
  | nil =>
      cases h
      exact ⟨[], [], rfl, .nil⟩
  | cons root rest ih =>
      unfold compileRoots at h
      split at h
      · cases h
      · rename_i name run₁ hroot
        split at h
        · cases h
        · rename_i names' run₂ hrest
          cases h
          obtain ⟨first, ms, rfl, htype, hresolves⟩ := compileRoot_resolves hroot
          obtain ⟨others, ms', rfl, hothers⟩ := ih hrest
          exact ⟨first :: others, ms ++ ms', rfl, .cons htype hresolves hothers⟩

end Compile
end RecordCodec
