import Mathlib.Data.List.Duplicate
import RecordCodec.Proofs.Schema.Within

/-!
What validation finds. A schema is valid if the roots have different names and every field, however
deep it stands, has a type, nested fields of different names, and nested fields at all only in a
struct. `Fault` says of an error that a field at the place it gives breaks the rule it gives. Errors
of validation are faults, and a schema with a fault is not valid; so validation passes exactly the
valid schemas.
-/

namespace RecordCodec

/-! ### Places -/

/-- The field stands at the place: the names from the trees below `base` down to it. -/
inductive Field.At (f : Field) : Place → List Field → Place → Prop
  | here {base : Place} {fs : List Field} : f ∈ fs → At f base fs (base ++ [f.name])
  | nested {g : Field} {base place : Place} {fs : List Field} :
      g ∈ fs → At f (base ++ [g.name]) g.properties place → At f base fs place

namespace Field

theorem At.within {f : Field} {base place : Place} {fs : List Field} (h : f.At base fs place) :
    f.Within fs := by
  induction h with
  | here hf => exact .here hf
  | nested hg _ ih => exact .nested hg ih

theorem At.of_subset {f : Field} {base place : Place} {fs gs : List Field}
    (h : f.At base fs place) (hs : ∀ g ∈ fs, g ∈ gs) : f.At base gs place := by
  cases h with
  | here hf => exact .here (hs f hf)
  | nested hg hf => exact .nested (hs _ hg) hf

end Field

/-! ### Names that occur again

Siblings are read in order, with the names that were seen before them. -/

/-- The name is in the list, where it occurs again: it was seen before, or is in the list twice. -/
def Repeated (name : String) (seen names : List String) : Prop :=
  name ∈ names ∧ (name ∈ seen ∨ List.Duplicate name names)

theorem repeated_of_mem {name : String} {seen rest : List String} (h : name ∈ seen) :
    Repeated name seen (name :: rest) :=
  ⟨List.mem_cons_self, .inl h⟩

theorem Repeated.cons {name first : String} {seen rest : List String}
    (h : Repeated name (first :: seen) rest) : Repeated name seen (first :: rest) := by
  obtain ⟨hname, hseen | hrest⟩ := h
  · obtain rfl | hseen := List.mem_cons.1 hseen
    · exact ⟨List.mem_cons_self, .inr hname.duplicate_cons_self⟩
    · exact ⟨List.mem_cons_of_mem first hname, .inl hseen⟩
  · exact ⟨List.mem_cons_of_mem first hname, .inr (hrest.duplicate_cons first)⟩

theorem Repeated.duplicate {name : String} {names : List String} (h : Repeated name [] names) :
    List.Duplicate name names :=
  h.2.resolve_left List.not_mem_nil

/-! ### Faults -/

/-- The error tells of a field in the trees below `base` that breaks a rule. -/
inductive Fault (policy : UntypedPolicy) (base : Place) (fs : List Field) : Error → Prop
  | duplicate {f : Field} {place : Place} {name : String} :
      f.At base fs place → List.Duplicate name (f.properties.map (·.name)) →
      Fault policy base fs (.duplicateField place name)
  | untyped {f : Field} {place : Place} :
      f.At base fs place → f.type? policy = none → Fault policy base fs (.untypedField place)
  | nonStruct {f : Field} {place : Place} {type : FieldType} :
      f.At base fs place → f.type? policy = some type → f.properties ≠ [] → type.leaf ≠ .struct →
      Fault policy base fs (.propertiesOnNonStruct place type)

namespace Fault

variable {policy : UntypedPolicy} {base : Place} {fs : List Field} {e : Error}

theorem of_subset {gs : List Field} (h : Fault policy base fs e) (hs : ∀ g ∈ fs, g ∈ gs) :
    Fault policy base gs e := by
  cases h with
  | duplicate hf hname => exact .duplicate (hf.of_subset hs) hname
  | untyped hf htype => exact .untyped (hf.of_subset hs) htype
  | nonStruct hf htype hne hleaf => exact .nonStruct (hf.of_subset hs) htype hne hleaf

/-- A fault below a field is one below the field's siblings, too. -/
theorem nested {g : Field} (hg : g ∈ fs) (h : Fault policy (base ++ [g.name]) g.properties e) :
    Fault policy base fs e := by
  cases h with
  | duplicate hf hname => exact .duplicate (.nested hg hf) hname
  | untyped hf htype => exact .untyped (.nested hg hf) htype
  | nonStruct hf htype hne hleaf => exact .nonStruct (.nested hg hf) htype hne hleaf

end Fault

namespace Field

variable {policy : UntypedPolicy} {base : Place} {e : Error}

theorem check_eq_ok_iff {place : Place} {f : Field} : f.check policy place = .ok () ↔
    ∃ type, f.type? policy = some type ∧ (f.properties ≠ [] → type.leaf = .struct) := by
  unfold check
  cases htype : f.type? policy with
  | none => simp
  | some type =>
      by_cases hempty : f.properties = []
      · simp [hempty]
      · by_cases hleaf : type.leaf = .struct
        · simp [hempty, hleaf, FieldType.isStructLeaf]
        · simp [hempty, hleaf, FieldType.isStructLeaf]

theorem fault_of_check {place : Place} {f : Field} {fs : List Field} (hf : f.At base fs place)
    (h : f.check policy place = .error e) : Fault policy base fs e := by
  unfold check at h
  split at h
  · rename_i htype
    cases h
    exact .untyped hf htype
  · rename_i type htype
    split at h
    · rename_i hfault
      cases h
      simp only [Bool.and_eq_true, Bool.not_eq_true', List.isEmpty_eq_false_iff,
        FieldType.isStructLeaf, decide_eq_false_iff_not] at hfault
      exact .nonStruct hf htype hfault.1 hfault.2
    · cases h

mutual

theorem fault_of_validate {base : Place} :
    (f : Field) → f.validate policy (base ++ [f.name]) = .error e → Fault policy base [f] e
  | ⟨n, t, w, d, v, s, ps, i, c, p⟩, h => by
      simp only [validate] at h
      split at h
      · rename_i hcheck
        cases h
        exact fault_of_check (.here (List.mem_singleton_self _)) hcheck
      · obtain hfault | ⟨name, rfl, hname⟩ := fault_of_validateNested ps h
        · exact .nested (List.mem_singleton_self _) hfault
        · exact .duplicate (.here (List.mem_singleton_self _)) hname.duplicate

/-- Siblings are refused for a fault below one of them, or for a name that occurs again. -/
theorem fault_of_validateNested {base : Place} {seen : List String} :
    (fs : List Field) → validateNested policy base seen fs = .error e →
      Fault policy base fs e ∨
        ∃ name, e = .duplicateField base name ∧ Repeated name seen (fs.map (·.name))
  | [], h => by simp [validateNested] at h
  | f :: rest, h => by
      simp only [validateNested] at h
      split at h
      · rename_i hseen
        cases h
        exact .inr ⟨f.name, rfl, repeated_of_mem (List.contains_iff_mem.1 hseen)⟩
      · split at h
        · rename_i hfault
          cases h
          exact .inl ((fault_of_validate f hfault).of_subset (by simp))
        · obtain hfault | ⟨name, rfl, hname⟩ := fault_of_validateNested rest h
          · exact .inl (hfault.of_subset fun g hg => List.mem_cons_of_mem f hg)
          · exact .inr ⟨name, rfl, hname.cons⟩

end

end Field

/-! ### Schemas -/

namespace Forest

structure Valid (policy : UntypedPolicy) (forest : Forest) : Prop where
  roots : (forest.roots.map (·.name)).Nodup
  siblings : ∀ f : Field, f.Within forest.roots → (f.properties.map (·.name)).Nodup
  types : ∀ f : Field, f.Within forest.roots → ∃ type, f.type? policy = some type
  structs : ∀ f : Field, f.Within forest.roots → f.properties ≠ [] →
    ∀ type, f.type? policy = some type → type.leaf = .struct

/-- The error tells of two roots with one name, or of a fault in the trees. -/
inductive Faulty (policy : UntypedPolicy) (forest : Forest) : Error → Prop
  | roots {name : String} : List.Duplicate name (forest.roots.map (·.name)) →
      Faulty policy forest (.duplicateRoot name)
  | field {e : Error} : Fault policy [] forest.roots e → Faulty policy forest e

variable {policy : UntypedPolicy} {forest : Forest} {e : Error}

theorem Faulty.not_valid (h : forest.Faulty policy e) : ¬forest.Valid policy := by
  intro hvalid
  cases h with
  | roots hname => exact hname.not_nodup hvalid.roots
  | field hfault =>
      cases hfault with
      | duplicate hf hname => exact hname.not_nodup (hvalid.siblings _ hf.within)
      | untyped hf htype =>
          obtain ⟨type, hsome⟩ := hvalid.types _ hf.within
          rw [htype] at hsome
          cases hsome
      | nonStruct hf htype hne hleaf => exact hleaf (hvalid.structs _ hf.within hne _ htype)

theorem fault_of_validateRoots {seen : List String} {fs : List Field}
    (h : validateRoots policy seen fs = .error e) :
    Fault policy [] fs e ∨
      ∃ name, e = .duplicateRoot name ∧ Repeated name seen (fs.map (·.name)) := by
  induction fs generalizing seen with
  | nil => simp [validateRoots] at h
  | cons f rest ih =>
      simp only [validateRoots] at h
      split at h
      · rename_i hseen
        cases h
        exact .inr ⟨f.name, rfl, repeated_of_mem (List.contains_iff_mem.1 hseen)⟩
      · split at h
        · rename_i hfault
          cases h
          exact .inl ((Field.fault_of_validate f hfault).of_subset (by simp))
        · obtain hfault | ⟨name, rfl, hname⟩ := ih h
          · exact .inl (hfault.of_subset fun g hg => List.mem_cons_of_mem f hg)
          · exact .inr ⟨name, rfl, hname.cons⟩

theorem faulty_of_validate (h : forest.validate policy = .error e) : forest.Faulty policy e := by
  obtain hfault | ⟨name, rfl, hname⟩ := fault_of_validateRoots h
  · exact .field hfault
  · exact .roots hname.duplicate

theorem nodup_names_of_validateRoots {seen : List String} {fs : List Field}
    (h : validateRoots policy seen fs = .ok ()) :
    (fs.map (·.name)).Nodup ∧ ∀ name ∈ fs.map (·.name), name ∉ seen := by
  induction fs generalizing seen with
  | nil => exact ⟨List.nodup_nil, nofun⟩
  | cons f rest ih =>
      simp only [validateRoots] at h
      split at h
      · cases h
      · rename_i hseen
        split at h
        · cases h
        · obtain ⟨hnames, hnew⟩ := ih h
          rw [List.map_cons, List.nodup_cons, List.forall_mem_cons]
          refine ⟨⟨fun hf => hnew f.name hf List.mem_cons_self, hnames⟩, ?_, fun name hname hs => ?_⟩
          · rwa [List.contains_iff_mem] at hseen
          · exact hnew name hname (List.mem_cons_of_mem f.name hs)

theorem valid_of_validate (h : forest.validate policy = .ok ()) : forest.Valid policy := by
  have hchecked : ∀ f : Field, f.Within forest.roots →
      ∃ type, f.type? policy = some type ∧ (f.properties ≠ [] → type.leaf = .struct) := by
    intro f hf
    obtain ⟨place, hcheck⟩ := (checked h hf).alone
    exact Field.check_eq_ok_iff.1 hcheck
  constructor
  case roots => exact (nodup_names_of_validateRoots h).1
  case siblings => exact fun f hf => siblingsDistinct h hf
  case types =>
    intro f hf
    obtain ⟨type, htype, _⟩ := hchecked f hf
    exact ⟨type, htype⟩
  case structs =>
    intro f hf hne type htype
    obtain ⟨type', htype', hleaf⟩ := hchecked f hf
    obtain rfl := Option.some.inj (htype.symm.trans htype')
    exact hleaf hne

/-- Exactly the valid schemas pass, and an error tells of a field that breaks the rule. -/
theorem validate_exact (policy : UntypedPolicy) (forest : Forest) :
    (forest.validate policy = .ok () ↔ forest.Valid policy) ∧
    ∀ e, forest.validate policy = .error e → forest.Faulty policy e := by
  refine ⟨⟨valid_of_validate, fun hvalid => ?_⟩, fun _ => faulty_of_validate⟩
  cases hresult : forest.validate policy with
  | ok => rfl
  | error e => exact absurd hvalid (faulty_of_validate hresult).not_valid

/-- A nested field declares the identity of the root again. Its own nested fields count for nothing
but validation, and one of them is without a type. -/
def redeclaredTwice : Forest where
  roots := [{ name := "node", identity := some "node", properties := [
    { name := "next", identity := some "node", properties := [
      { name := "lost" }, { name := "lost" }] }] }]

theorem redeclaredTwice_exact :
    redeclaredTwice.validate .reject = .error (.untypedField ["node", "next", "lost"]) ∧
    redeclaredTwice.Faulty .reject (.untypedField ["node", "next", "lost"]) ∧
    redeclaredTwice.validate .asString = .error (.duplicateField ["node", "next"] "lost") ∧
    redeclaredTwice.Faulty .asString (.duplicateField ["node", "next"] "lost") := by
  have huntyped : redeclaredTwice.validate .reject =
      .error (.untypedField ["node", "next", "lost"]) := by decide
  have hduplicate : redeclaredTwice.validate .asString =
      .error (.duplicateField ["node", "next"] "lost") := by decide
  exact ⟨huntyped, (validate_exact .reject redeclaredTwice).2 _ huntyped,
    hduplicate, (validate_exact .asString redeclaredTwice).2 _ hduplicate⟩

end Forest
end RecordCodec
