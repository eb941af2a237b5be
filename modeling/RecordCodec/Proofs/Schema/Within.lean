import RecordCodec.Schema.Forest

/-!
Where a field stands in a schema. `Field.Within` says that a field occurs in some trees at any
depth. The owner of an identity is such a field. In a schema that was found valid each such field
has a type, and its nested fields have different names.
-/

namespace RecordCodec

/-- The field stands somewhere in the trees, at any depth. -/
inductive Field.Within (f : Field) : List Field → Prop
  | here {fs : List Field} : f ∈ fs → Within f fs
  | nested {g : Field} {fs : List Field} : g ∈ fs → Within f g.properties → Within f fs

namespace Field

/-! ### Moving between trees -/

theorem Within.of_subset {f : Field} {fs gs : List Field} (h : f.Within fs)
    (hs : ∀ g ∈ fs, g ∈ gs) : f.Within gs := by
  cases h with
  | here hf => exact .here (hs _ hf)
  | nested hg hf => exact .nested (hs _ hg) hf

theorem Within.property {f g : Field} {fs : List Field} (h : f.Within fs)
    (hg : g ∈ f.properties) : g.Within fs := by
  induction h with
  | here hf => exact .nested hf (.here hg)
  | nested hk _ ih => exact .nested hk ih

theorem within_cons_iff {f g : Field} {fs : List Field} :
    f.Within (g :: fs) ↔ f = g ∨ f.Within g.properties ∨ f.Within fs := by
  constructor
  · intro h
    cases h with
    | here hf =>
        rcases List.mem_cons.1 hf with rfl | hf
        · exact .inl rfl
        · exact .inr (.inr (.here hf))
    | nested hk hf =>
        rcases List.mem_cons.1 hk with rfl | hk
        · exact .inr (.inl hf)
        · exact .inr (.inr (.nested hk hf))
  · rintro (rfl | hf | hf)
    · exact .here List.mem_cons_self
    · exact .nested List.mem_cons_self hf
    · exact hf.of_subset fun k hk => List.mem_cons_of_mem _ hk

theorem forall_within_cons_iff {P : Field → Prop} {f : Field} {fs : List Field} :
    (∀ g : Field, g.Within (f :: fs) → P g) ↔
      (P f ∧ ∀ g : Field, g.Within f.properties → P g) ∧ ∀ g : Field, g.Within fs → P g := by
  simp only [within_cons_iff, or_imp, forall_and, forall_eq, and_assoc]

theorem not_within_nil (f : Field) : ¬f.Within [] := by
  rintro (hf | ⟨hg, _⟩)
  · exact List.not_mem_nil hf
  · exact List.not_mem_nil hg

/-! ### Owners -/

mutual

theorem within_of_owner? {identity : String} {owner : Field} :
    (f : Field) → owner? identity f = some owner → owner.Within [f]
  | ⟨n, t, w, d, v, s, ps, i, c, p⟩, h => by
      simp only [owner?] at h
      split at h
      · cases h
        exact .here List.mem_cons_self
      · exact .nested List.mem_cons_self (within_of_ownerIn? ps h)

/-- The owner of an identity is one of the fields that are searched. -/
theorem within_of_ownerIn? {identity : String} {owner : Field} :
    (fs : List Field) → ownerIn? identity fs = some owner → owner.Within fs
  | [], h => by simp [ownerIn?] at h
  | f :: rest, h => by
      simp only [ownerIn?] at h
      split at h
      · rename_i hf
        cases h
        exact (within_of_owner? f hf).of_subset (by simp)
      · exact (within_of_ownerIn? rest h).of_subset fun g hg => List.mem_cons_of_mem _ hg

end

/-! ### Valid fields

Validation carries the names of the siblings seen so far; a list of siblings that passes has
different names, none of them seen before. -/

def SiblingsDistinct (f : Field) : Prop := (f.properties.map (·.name)).Nodup

/-- What validation asks of a field: that it passes by itself, and that its nested fields have
different names. -/
structure Checked (policy : UntypedPolicy) (f : Field) : Prop where
  alone : ∃ place, f.check policy place = .ok ()
  siblings : f.SiblingsDistinct

theorem Checked.exists_type {policy : UntypedPolicy} {f : Field} (h : f.Checked policy) :
    ∃ type, f.type? policy = some type := by
  obtain ⟨place, hcheck⟩ := h.alone
  unfold check at hcheck
  split at hcheck
  · cases hcheck
  · exact ⟨_, by assumption⟩

mutual

theorem checked_of_validate {policy : UntypedPolicy} {place : Place} :
    (f : Field) → f.validate policy place = .ok () → ∀ g : Field, g.Within [f] →
      g.Checked policy
  | ⟨n, t, w, d, v, s, ps, i, c, p⟩, h, g, hg => by
      simp only [validate] at h
      split at h
      · cases h
      · rename_i hcheck
        obtain ⟨hnames, _, hps⟩ := checked_of_validateNested ps h
        rcases within_cons_iff.1 hg with rfl | hg | hg
        · exact ⟨⟨place, hcheck⟩, hnames⟩
        · exact hps g hg
        · exact absurd hg (not_within_nil g)

theorem checked_of_validateNested {policy : UntypedPolicy} {place : Place}
    {seen : List String} :
    (fs : List Field) → validateNested policy place seen fs = .ok () →
      (fs.map (·.name)).Nodup ∧ (∀ f ∈ fs, f.name ∉ seen) ∧
        ∀ g : Field, g.Within fs → g.Checked policy
  | [], _ => ⟨List.nodup_nil, by simp, fun g hg => absurd hg (not_within_nil g)⟩
  | f :: rest, h => by
      simp only [validateNested] at h
      split at h
      · cases h
      · rename_i hf
        split at h
        · cases h
        · rename_i hvalid
          obtain ⟨hnames, hseen, hrest⟩ := checked_of_validateNested rest h
          refine ⟨?_, ?_, fun g hg => ?_⟩
          · refine List.nodup_cons.2 ⟨fun hm => ?_, hnames⟩
            obtain ⟨g, hg, hgf⟩ := List.mem_map.1 hm
            exact hseen g hg (by simp [hgf])
          · intro g hg
            rcases List.mem_cons.1 hg with rfl | hg
            · simpa using hf
            · exact fun hm => hseen g hg (List.mem_cons_of_mem _ hm)
          · rcases within_cons_iff.1 hg with rfl | hg | hg
            · exact checked_of_validate g hvalid g (.here (by simp))
            · exact checked_of_validate f hvalid g (.nested (by simp) hg)
            · exact hrest g hg

end

end Field

namespace Forest

theorem checked_of_validateRoots {policy : UntypedPolicy} {seen : List String}
    {fs : List Field} (h : validateRoots policy seen fs = .ok ()) {g : Field}
    (hg : g.Within fs) : g.Checked policy := by
  induction fs generalizing seen with
  | nil => exact absurd hg (Field.not_within_nil g)
  | cons f rest ih =>
      simp only [validateRoots] at h
      split at h
      · cases h
      · split at h
        · cases h
        · rename_i hvalid
          rcases Field.within_cons_iff.1 hg with rfl | hg | hg
          · exact Field.checked_of_validate g hvalid g (.here (by simp))
          · exact Field.checked_of_validate f hvalid g (.nested (by simp) hg)
          · exact ih h hg

/-- In a valid schema every field passed validation. -/
theorem checked {policy : UntypedPolicy} {forest : Forest}
    (h : forest.validate policy = .ok ()) {g : Field} (hg : g.Within forest.roots) :
    g.Checked policy :=
  checked_of_validateRoots h hg

/-- In a valid schema the nested fields of every field have different names. -/
theorem siblingsDistinct {policy : UntypedPolicy} {forest : Forest}
    (h : forest.validate policy = .ok ()) {g : Field} (hg : g.Within forest.roots) :
    g.SiblingsDistinct :=
  (checked h hg).siblings

end Forest
end RecordCodec
