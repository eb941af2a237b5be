import RecordCodec.Compile

/-!
Compiling does not look for records in vain before it comes to its end. The errors of validating a
schema and of compiling its roots are about the schema; that a record is not known can only be
found when the records are taken together.
-/

namespace RecordCodec

/-- The error is about a record that is not known. -/
def Error.MissesRecord (e : Error) : Prop := ∃ name, e = .unknownRecord name

/-! ### Validation -/

theorem Field.not_missesRecord_of_check {policy : UntypedPolicy} {place : Place} {f : Field}
    {e : Error} (h : f.check policy place = .error e) : ¬e.MissesRecord := by
  rintro ⟨name, rfl⟩
  unfold check at h
  split at h
  · cases h
  · split at h <;> cases h

mutual

theorem Field.not_missesRecord_of_validate {policy : UntypedPolicy} {place : Place} {e : Error} :
    (f : Field) → f.validate policy place = .error e → ¬e.MissesRecord
  | ⟨n, t, w, d, v, s, ps, i, c, p⟩, h => by
      simp only [validate] at h
      split at h
      · rename_i hcheck
        cases h
        exact not_missesRecord_of_check hcheck
      · exact not_missesRecord_of_validateNested ps h

theorem Field.not_missesRecord_of_validateNested {policy : UntypedPolicy} {place : Place}
    {seen : List String} {e : Error} :
    (fs : List Field) → validateNested policy place seen fs = .error e → ¬e.MissesRecord
  | [], h => by
      simp only [validateNested] at h
      cases h
  | f :: rest, h => by
      simp only [validateNested] at h
      split at h
      · cases h
        exact nofun
      · split at h
        · rename_i hf
          cases h
          exact not_missesRecord_of_validate f hf
        · exact not_missesRecord_of_validateNested rest h

end

theorem Forest.not_missesRecord_of_validate {policy : UntypedPolicy} {forest : Forest} {e : Error}
    (h : forest.validate policy = .error e) : ¬e.MissesRecord := by
  suffices hroots : ∀ (roots : List Field) (seen : List String),
      validateRoots policy seen roots = .error e → ¬e.MissesRecord from hroots _ _ h
  intro roots
  induction roots with
  | nil =>
      intro seen h
      cases h
  | cons root rest ih =>
      intro seen h
      unfold validateRoots at h
      split at h
      · cases h
        exact nofun
      · split at h
        · rename_i hroot
          cases h
          exact Field.not_missesRecord_of_validate root hroot
        · exact ih _ h

/-! ### Compilation -/

namespace Compile

variable {c : Setting}

theorem not_missesRecord_of_compileDefault? {type : FieldType} {place : Place}
    {default : Option Json} {e : Error} (h : compileDefault? type place default = .error e) :
    ¬e.MissesRecord := by
  rintro ⟨name, rfl⟩
  cases default with
  | none => cases h
  | some json =>
      have hdefault := map_eq_error_iff.1 h
      unfold compileDefault at hdefault
      split at hdefault
      · cases hdefault
      · split at hdefault
        · cases hdefault
        · -- an error is passed on unchanged only when it ends the run
          split at hdefault
          · rename_i hends
            cases hdefault
            cases hends
          · cases hdefault

theorem not_missesRecord_of_buildRecord {owner : Field} {names : ArtifactNames}
    {identity : Option String} {compileFields : Run → Except Error (List RecordField × Run)}
    {run : Run} {e : Error}
    (hf : ∀ {run}, compileFields run = .error e → ¬e.MissesRecord)
    (h : buildRecord owner names identity compileFields run = .error e) : ¬e.MissesRecord := by
  unfold buildRecord at h
  split at h
  · cases h
  · split at h
    · rename_i hfields
      cases h
      exact hf hfields
    · cases h

/-- Opening an owner, in whatever way, does not look for records in vain. -/
def OpensKnown (openOwner : OpenOwner) : Prop :=
  ∀ {identity names place owner run e}, openOwner identity names place owner run = .error e →
    ¬e.MissesRecord

mutual

theorem not_missesRecord_of_resolveStruct {openOwner : OpenOwner} (ho : OpensKnown openOwner)
    {enclosing : String} {place : Place} {run : Run} {e : Error} :
    (f : Field) → resolveStruct c openOwner enclosing place run f = .error e → ¬e.MissesRecord
  | ⟨n, t, w, d, v, s, ps, i, cs, p⟩, h => by
      simp only [resolveStruct] at h
      cases i with
      | none =>
          simp only at h
          split at h
          · cases h
          · split at h
            · rename_i hbuild
              cases h
              exact not_missesRecord_of_buildRecord
                (fun hf => not_missesRecord_of_compileFields ho ps hf) hbuild
            · cases h
      | some identity =>
          simp only at h
          split at h
          · cases h
          · split at h
            · split at h
              · rename_i hopen
                cases h
                exact ho hopen
              · cases h
            · split at h
              · cases h
              · cases h
                exact nofun

theorem not_missesRecord_of_compileFields {openOwner : OpenOwner} (ho : OpensKnown openOwner)
    {enclosing : String} {place : Place} {accessors constants : List String} {run : Run}
    {e : Error} :
    (fs : List Field) →
      compileFields c openOwner enclosing place accessors constants fs run = .error e →
      ¬e.MissesRecord
  | [], h => by
      simp only [compileFields] at h
      cases h
  | f :: rest, h => by
      simp only [compileFields] at h
      split at h
      · cases h
        exact nofun
      · split at h
        · rename_i htarget
          cases h
          split at htarget
          · exact not_missesRecord_of_resolveStruct ho f (map_eq_error_iff.1 htarget)
          · cases htarget
        · split at h
          · rename_i hdefault
            cases h
            exact not_missesRecord_of_compileDefault? hdefault
          · split at h
            · rename_i hrest
              cases h
              exact not_missesRecord_of_compileFields ho rest hrest
            · cases h

end

theorem opensKnown_openOwnerWithin (jumps : Nat) : OpensKnown (openOwnerWithin c jumps) := by
  induction jumps with
  | zero =>
      intro identity names place owner run e h
      cases h
      exact nofun
  | succ jumps ih =>
      intro identity names place owner run e h
      simp only [openOwnerWithin] at h
      exact not_missesRecord_of_buildRecord
        (fun hf => not_missesRecord_of_compileFields ih owner.properties hf) h

theorem not_missesRecord_of_compileRoots {roots : List Field} {run : Run} {e : Error}
    (h : compileRoots c run roots = .error e) : ¬e.MissesRecord := by
  induction roots generalizing run with
  | nil => cases h
  | cons root rest ih =>
      unfold compileRoots at h
      split at h
      · rename_i hroot
        cases h
        unfold compileRoot at hroot
        split at hroot
        · cases hroot
          exact nofun
        · split at hroot
          · rename_i hresolve
            cases hroot
            exact not_missesRecord_of_resolveStruct (opensKnown_openOwnerWithin _) root hresolve
          · cases hroot
          · cases hroot
            exact nofun
        · cases hroot
          exact nofun
      · split at h
        · rename_i hrest
          cases h
          exact ih hrest
        · cases h

end Compile
end RecordCodec
