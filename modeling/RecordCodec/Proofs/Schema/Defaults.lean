import RecordCodec.Schema.Forest

/-!
Schemas with other defaults. Defaults play no part in checking a schema, in finding the owners of
identities and in telling types, so a schema whose defaults are replaced is the same in all of
these respects.
-/

namespace RecordCodec

namespace Field

variable (g : Field → Option Json)

mutual

/-- The field with every default in its tree replaced by what `g` gives for it. -/
def withDefaults : Field → Field
  | f@{ properties := ps, .. } => { f with default := g f, properties := withDefaultsAll ps }

def withDefaultsAll : List Field → List Field
  | [] => []
  | f :: rest => withDefaults f :: withDefaultsAll rest

end

theorem withDefaultsAll_eq_map (fs : List Field) :
    withDefaultsAll g fs = fs.map (withDefaults g) := by
  induction fs with
  | nil => rfl
  | cons f rest ih => rw [withDefaultsAll, ih, List.map_cons]

@[simp] theorem isEmpty_withDefaultsAll (fs : List Field) :
    (withDefaultsAll g fs).isEmpty = fs.isEmpty := by
  cases fs <;> rfl

variable (f : Field)

@[simp] theorem name_withDefaults : (f.withDefaults g).name = f.name := by
  obtain ⟨⟩ := f
  rfl

@[simp] theorem identity_withDefaults : (f.withDefaults g).identity = f.identity := by
  obtain ⟨⟩ := f
  rfl

@[simp] theorem default_withDefaults : (f.withDefaults g).default = g f := by
  obtain ⟨⟩ := f
  rfl

@[simp] theorem properties_withDefaults :
    (f.withDefaults g).properties = withDefaultsAll g f.properties := by
  obtain ⟨⟩ := f
  rfl

@[simp] theorem type?_withDefaults (policy : UntypedPolicy) :
    (f.withDefaults g).type? policy = f.type? policy := by
  obtain ⟨n, t, w, d, v, s, ps, i, c, p⟩ := f
  simp only [withDefaults, type?, isEmpty_withDefaultsAll]

@[simp] theorem names_withDefaultsAll (fs : List Field) :
    (withDefaultsAll g fs).map (·.name) = fs.map (·.name) := by
  rw [withDefaultsAll_eq_map, List.map_map]
  exact List.map_congr_left fun f _ => name_withDefaults g f

theorem owns_withDefaults (identity : String) :
    (f.withDefaults g).owns identity = f.owns identity := by
  unfold owns
  rw [identity_withDefaults, properties_withDefaults, isEmpty_withDefaultsAll]

/-! ### Checking -/

mutual

theorem validate_withDefaults (policy : UntypedPolicy) (place : Place) :
    (f : Field) → (f.withDefaults g).validate policy place = f.validate policy place
  | ⟨n, t, w, d, v, s, ps, i, c, p⟩ => by
      have hps := validateNested_withDefaultsAll policy place [] ps
      have htype := type?_withDefaults g ⟨n, t, w, d, v, s, ps, i, c, p⟩ policy
      rw [withDefaults] at htype ⊢
      rw [validate, validate, check, check, htype, hps]
      simp only [isEmpty_withDefaultsAll]

theorem validateNested_withDefaultsAll (policy : UntypedPolicy) (place : Place)
    (seen : List String) : (fs : List Field) →
      validateNested policy place seen (withDefaultsAll g fs) = validateNested policy place seen fs
  | [] => rfl
  | f :: rest => by
      rw [withDefaultsAll, validateNested, validateNested, name_withDefaults,
        validate_withDefaults policy _ f, validateNested_withDefaultsAll policy place _ rest]

end

/-! ### Owners -/

mutual

theorem owner?_withDefaults (identity : String) :
    (f : Field) → owner? identity (f.withDefaults g) = (owner? identity f).map (withDefaults g)
  | ⟨n, t, w, d, v, s, ps, i, c, p⟩ => by
      have howns := owns_withDefaults g ⟨n, t, w, d, v, s, ps, i, c, p⟩ identity
      rw [withDefaults] at howns ⊢
      rw [owner?, owner?, howns, ownerIn?_withDefaultsAll identity ps]
      by_cases h : owns identity ⟨n, t, w, d, v, s, ps, i, c, p⟩ = true
      · rw [if_pos h, if_pos h, Option.map_some, withDefaults]
      · rw [if_neg h, if_neg h]

theorem ownerIn?_withDefaultsAll (identity : String) :
    (fs : List Field) →
      ownerIn? identity (withDefaultsAll g fs) = (ownerIn? identity fs).map (withDefaults g)
  | [] => rfl
  | f :: rest => by
      rw [withDefaultsAll, ownerIn?, ownerIn?, owner?_withDefaults identity f,
        ownerIn?_withDefaultsAll identity rest]
      cases owner? identity f <;> rfl

end

/-! ### Size -/

mutual

theorem count_withDefaults : (f : Field) → count (f.withDefaults g) = count f
  | ⟨n, t, w, d, v, s, ps, i, c, p⟩ => by
      rw [withDefaults, count, count, countAll_withDefaultsAll ps]

theorem countAll_withDefaultsAll : (fs : List Field) →
    countAll (withDefaultsAll g fs) = countAll fs
  | [] => rfl
  | f :: rest => by
      rw [withDefaultsAll, countAll, countAll, count_withDefaults f, countAll_withDefaultsAll rest]

end

end Field

namespace Forest

variable (g : Field → Option Json) (forest : Forest)

/-- The schema with every default replaced by what `g` gives for its field. -/
def withDefaults : Forest :=
  { forest with roots := Field.withDefaultsAll g forest.roots }

theorem validate_withDefaults (policy : UntypedPolicy) :
    (forest.withDefaults g).validate policy = forest.validate policy := by
  suffices h : ∀ seen : List String,
      validateRoots policy seen (Field.withDefaultsAll g forest.roots) =
        validateRoots policy seen forest.roots from h []
  induction forest.roots with
  | nil => exact fun _ => rfl
  | cons f rest ih =>
      intro seen
      rw [Field.withDefaultsAll, validateRoots, validateRoots, Field.name_withDefaults,
        Field.validate_withDefaults, ih]

theorem owner?_withDefaults (identity : String) :
    (forest.withDefaults g).owner? identity =
      (forest.owner? identity).map (Field.withDefaults g) :=
  Field.ownerIn?_withDefaultsAll g identity forest.roots

theorem fieldCount_withDefaults : (forest.withDefaults g).fieldCount = forest.fieldCount :=
  Field.countAll_withDefaultsAll g forest.roots

end Forest

end RecordCodec
