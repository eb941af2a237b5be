import Mathlib.Data.List.Forall2
import Mathlib.Logic.Relation
import RecordCodec.Proofs.Compile.Course
import RecordCodec.Proofs.Schema.Within

/-!
What a compilation does to its run, step by step. A run is changed in four ways only: a name is
claimed, an identity is registered, a record's name is reserved, and a finished record is added.
`Step` says what is known at each change, above all from which field of the schema a finished
record was made; `compileRoots_steps` says that a compilation is a sequence of such steps. Facts
about compiled schemas are proved of one step and carried along the sequence.
-/

namespace RecordCodec

namespace Compile

/-! ### Compiled fields and records -/

/-- A compiled field agrees with the field of the schema from which it was made. -/
structure CompiledField (c : Setting) (f : Field) (compiled : RecordField) : Prop where
  name : compiled.name = f.name
  wireKey : compiled.wireKey = f.wireKey
  type : f.type? c.settings.untyped = some compiled.type
  target : compiled.target.isSome = compiled.type.isStructLeaf
  default : ∃ place, compileDefault? compiled.type place f.default = .ok compiled.default

/-- The fields of a record were made from the nested fields of its owner, one from each. -/
def CompiledFrom (c : Setting) (owner : Field) (fields : List RecordField) : Prop :=
  List.Forall₂ (CompiledField c) owner.properties fields

theorem CompiledFrom.exists_field {c : Setting} {owner : Field} {fields : List RecordField}
    (h : CompiledFrom c owner fields) {compiled : RecordField} (hmem : compiled ∈ fields) :
    ∃ f ∈ owner.properties, CompiledField c f compiled := by
  obtain ⟨i, hi, rfl⟩ := List.mem_iff_getElem.1 hmem
  have hj : i < owner.properties.length := h.length_eq ▸ hi
  exact ⟨owner.properties[i], List.getElem_mem hj, h.get hj hi⟩

theorem Compiles.compiledFields {c : Setting} {enclosing : String} {place : Place}
    {accessors constants : List String} {fs : List Field} {run run' : Run}
    {fields : List RecordField} {ms : List Making} :
    Compiles c enclosing place accessors constants fs run fields ms run' →
      List.Forall₂ (CompiledField c) fs fields
  | .nil => .nil
  | .plain htype hleaf hdefault hrest =>
      .cons ⟨rfl, rfl, htype, by simp [recordField, hleaf], _, hdefault⟩ hrest.compiledFields
  | .struct htype hleaf _ hdefault hrest =>
      .cons ⟨rfl, rfl, htype, by simp [recordField, hleaf], _, hdefault⟩ hrest.compiledFields

/-! ### Steps -/

/-- One change of a run. -/
inductive Step (c : Setting) (run : Run) : Run → Prop
  | claim (identity : Option String) (enclosing field : String) :
      Step c run (c.allocate identity enclosing field run).2
  | register {identity : String} (names : ArtifactNames) :
      run.identities.lookup identity = none →
      Step c run { run with identities := (identity, names) :: run.identities }
  | reserve {name : QualifiedName} {codecs : Reservations} :
      run.codecs.reserve? name = some codecs → Step c run { run with codecs }
  | add {owner : Field} {fields : List RecordField} (names : ArtifactNames)
      (identity : Option String) :
      owner.Within c.forest.roots → CompiledFrom c owner fields →
      Step c run (addRecord owner names identity fields run)

/-- Any number of changes. -/
abbrev Steps (c : Setting) : Run → Run → Prop := Relation.ReflTransGen (Step c)

variable {c : Setting}

theorem Steps.of_announce {f owner : Field} {enclosing : String} {run run₁ : Run}
    {names : ArtifactNames} (hf : Defines c run f owner)
    (h : c.announce f.identity enclosing f.name run = (names, run₁)) : Steps c run run₁ := by
  have hclaim : Step c run (c.allocate f.identity enclosing f.name run).2 := .claim ..
  cases hf with
  | itself hidentity hne =>
      rw [hidentity] at h hclaim
      cases h
      exact .single hclaim
  | owner hidentity hnew howner =>
      rw [hidentity] at h hclaim
      cases h
      exact .tail (.single hclaim) (.register _ hnew)

theorem Defines.within {f owner : Field} {run : Run} (h : Defines c run f owner)
    (hf : f.Within c.forest.roots) : owner.Within c.forest.roots := by
  cases h with
  | itself _ _ => exact hf
  | owner _ _ howner => exact Field.within_of_ownerIn? _ howner

mutual

theorem Resolves.steps {enclosing : String} {place : Place} {f : Field} {run run' : Run}
    {target : Target} {ms : List Making} :
    Resolves c enclosing place f run target ms run' → f.Within c.forest.roots → Steps c run run'
  | .document _ _, _ => .refl
  | .external _ _ _ _, _ => .refl
  | .shared _ _, _ => .refl
  | .held hdefines hannounce _, _ => .of_announce hdefines hannounce
  | .made hdefines hannounce hr hfields, hf => by
      have howner := hdefines.within hf
      have hsteps := hfields.steps fun g hg => howner.property hg
      exact (Steps.of_announce hdefines hannounce).trans
        (.head (.reserve hr) (hsteps.tail (.add _ _ howner hfields.compiledFields)))

theorem Compiles.steps {enclosing : String} {place : Place} {accessors constants : List String}
    {fs : List Field} {run run' : Run} {fields : List RecordField} {ms : List Making} :
    Compiles c enclosing place accessors constants fs run fields ms run' →
      (∀ f ∈ fs, f.Within c.forest.roots) → Steps c run run'
  | .nil, _ => .refl
  | .plain _ _ _ hrest, hw => hrest.steps (List.forall_mem_cons.1 hw).2
  | .struct _ _ hresolves _ hrest, hw => by
      obtain ⟨hf, hw⟩ := List.forall_mem_cons.1 hw
      exact (hresolves.steps hf).trans (hrest.steps hw)

end

theorem CompilesRoots.steps {roots : List Field} {run run' : Run} {targets : List ArtifactNames}
    {ms : List Making} (h : CompilesRoots c roots run targets ms run')
    (hw : ∀ root ∈ roots, root.Within c.forest.roots) : Steps c run run' := by
  induction h with
  | nil => exact .refl
  | cons _ hresolves _ ih =>
      obtain ⟨hroot, hrest⟩ := List.forall_mem_cons.1 hw
      exact (hresolves.steps hroot).trans (ih hrest)

theorem compileRoots_steps {run run' : Run} {roots : List Field} {names : List QualifiedName}
    (hw : ∀ root ∈ roots, root.Within c.forest.roots)
    (h : compileRoots c run roots = .ok (names, run')) : Steps c run run' := by
  obtain ⟨targets, ms, _, hcourse⟩ := compileRoots_courses h
  exact hcourse.steps hw

end Compile
end RecordCodec
