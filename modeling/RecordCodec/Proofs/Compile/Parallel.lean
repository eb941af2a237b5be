import RecordCodec.Proofs.Compile.Success

/-!
Two compilations side by side. A likeness relates fields that agree in name, type, identity and
capabilities, and whose nested fields are related one by one. Where like fields are compiled in
runs that have handed out the same names, the course over the one decides the course over the
other: both come to the same targets, claim the same names and make their records from like owners
in the same order. Only defaults may come out differently.

The second schema may own identities that the first does not, as long as the first does not come
to a field that declares one of them. With equality as the likeness the two schemas then make the
same records.
-/

namespace RecordCodec

/-! ### Likenesses -/

/-- What related elements have in common, related lists have element by element. -/
theorem map_eq_of_forall₂ {α β : Type} {R : α → α → Prop} {k : α → β}
    (hk : ∀ a b, R a b → k b = k a) {as bs : List α} (h : List.Forall₂ R as bs) :
    bs.map k = as.map k := by
  induction h with
  | nil => rfl
  | cons hfirst _ ih => rw [List.map_cons, List.map_cons, hk _ _ hfirst, ih]

/-- Fields in the relation agree in what names and types depend on, at every depth. -/
structure Field.Likeness (ρ : Field → Field → Prop) : Prop where
  name {f g : Field} : ρ f g → g.name = f.name
  type {f g : Field} : ρ f g → g.type = f.type
  identity {f g : Field} : ρ f g → g.identity = f.identity
  capabilities {f g : Field} : ρ f g → g.capabilities = f.capabilities
  properties {f g : Field} : ρ f g → List.Forall₂ ρ f.properties g.properties

namespace Field

theorem likeness_eq : Likeness (· = ·) := by
  constructor
  case properties =>
    rintro f _ rfl
    rw [List.forall₂_eq_eq_eq]
  all_goals
    rintro f _ rfl
    rfl

namespace Likeness

variable {ρ : Field → Field → Prop} {f g : Field} {fs gs : List Field}

theorem names_eq (hρ : Likeness ρ) (h : List.Forall₂ ρ fs gs) :
    gs.map (·.name) = fs.map (·.name) :=
  map_eq_of_forall₂ (k := Field.name) (fun _ _ => hρ.name) h

theorem isEmpty_properties (hρ : Likeness ρ) (h : ρ f g) :
    g.properties.isEmpty = f.properties.isEmpty := by
  have hlength := (hρ.properties h).length_eq
  rw [Bool.eq_iff_iff, List.isEmpty_iff_length_eq_zero, List.isEmpty_iff_length_eq_zero, hlength]

theorem type?_eq (hρ : Likeness ρ) (h : ρ f g) (policy : UntypedPolicy) :
    g.type? policy = f.type? policy := by
  simp only [type?, hρ.type h, hρ.identity h, hρ.isEmpty_properties h]

theorem owns_eq (hρ : Likeness ρ) (h : ρ f g) (identity : String) :
    g.owns identity = f.owns identity := by
  simp only [owns, hρ.identity h, hρ.isEmpty_properties h]

mutual

/-- Like fields have like owners, or both have none. -/
theorem owner?_rel (hρ : Likeness ρ) (identity : String) :
    (f g : Field) → ρ f g → Option.Rel ρ (owner? identity f) (owner? identity g)
  | ⟨n, t, w, d, v, s, ps, i, c, p⟩, ⟨n', t', w', d', v', s', ps', i', c', p'⟩, h => by
      have hbelow := ownerIn?_rel hρ identity ps ps' (hρ.properties h)
      rw [owner?, owner?, hρ.owns_eq h identity]
      split
      · exact .some h
      · exact hbelow

theorem ownerIn?_rel (hρ : Likeness ρ) (identity : String) :
    (fs gs : List Field) → List.Forall₂ ρ fs gs →
      Option.Rel ρ (ownerIn? identity fs) (ownerIn? identity gs)
  | [], [], _ => .none
  | f :: fs, g :: gs, .cons h hrest => by
      have hfirst := owner?_rel hρ identity f g h
      have hlater := ownerIn?_rel hρ identity fs gs hrest
      rw [ownerIn?, ownerIn?]
      generalize owner? identity f = o, owner? identity g = o' at hfirst
      cases hfirst with
      | some howner => exact .some howner
      | none => exact hlater

end

end Likeness

end Field

namespace Compile

/-! ### Runs and schemas -/

/-- The runs have handed out and registered the same names. -/
structure SameNames (run run' : Run) : Prop where
  typeNames : run'.typeNames = run.typeNames
  identities : run'.identities = run.identities

/-- The identity has no owner, and a field that the compilation comes to declares it. -/
def TreatsAsExternal (c : Setting) (identity : String) : Prop :=
  c.forest.owner? identity = none ∧ ∃ f type, Visited c f ∧
    f.type? c.settings.untyped = some type ∧ type.isStructLeaf = true ∧
    f.identity = some identity

/-- The second compilation finds an owner like the one that the first finds, and none where the
first comes to an identity without one. -/
structure Alongside (ρ : Field → Field → Prop) (c c' : Setting) : Prop where
  settings : c'.settings = c.settings
  owned {identity : String} {owner : Field} : c.forest.owner? identity = some owner →
    ∃ owner', c'.forest.owner? identity = some owner' ∧ ρ owner owner'
  external {identity : String} : TreatsAsExternal c identity →
    c'.forest.owner? identity = none

/-- If the field declares an identity without an owner, the second schema has none for it. -/
def StaysUnowned (c c' : Setting) (f : Field) : Prop :=
  ∀ identity, f.identity = some identity → c.forest.owner? identity = none →
    c'.forest.owner? identity = none

variable {ρ : Field → Field → Prop} {c c' : Setting}

/-- Schemas with like roots have like owners. -/
theorem alongside_of_roots (hρ : Field.Likeness ρ) (hsettings : c'.settings = c.settings)
    (hroots : List.Forall₂ ρ c.forest.roots c'.forest.roots) : Alongside ρ c c' := by
  have howners : ∀ identity,
      Option.Rel ρ (c.forest.owner? identity) (c'.forest.owner? identity) :=
    fun identity => hρ.ownerIn?_rel identity _ _ hroots
  refine ⟨hsettings, fun {identity owner} howner => ?_, fun {identity} hexternal => ?_⟩
  · have hlike := howners identity
    rw [howner] at hlike
    cases hfound : c'.forest.owner? identity with
    | none => simp [hfound] at hlike
    | some owner' => exact ⟨owner', rfl, by simpa [hfound] using hlike⟩
  · have hlike := howners identity
    rw [hexternal.1] at hlike
    cases hfound : c'.forest.owner? identity with
    | none => rfl
    | some owner' =>
        rw [hfound] at hlike
        cases hlike

theorem SameNames.announce {run run₁ run' run₁' : Run} {names names' : ArtifactNames}
    {identity : Option String} {enclosing field : String} (hsame : SameNames run run')
    (hsettings : c'.settings = c.settings)
    (h : c.announce identity enclosing field run = (names, run₁))
    (h' : c'.announce identity enclosing field run' = (names', run₁')) :
    names = names' ∧ SameNames run₁ run₁' := by
  obtain ⟨htypeNames, hidentities⟩ := hsame
  unfold Setting.announce Setting.allocate at h h'
  rw [hsettings, htypeNames, hidentities] at h'
  cases h
  cases h'
  exact ⟨rfl, rfl, rfl⟩

/-- An identity of a field with a record is owned. -/
theorem HasRecord.owned {f : Field} {identity : String} (h : HasRecord c f)
    (hidentity : f.identity = some identity) : c.forest.owner? identity ≠ none := by
  obtain ⟨own, owner, hown, howner⟩ | ⟨hnone, _⟩ := h
  · obtain rfl := Option.some.inj (hown.symm.trans hidentity)
    simp [howner]
  · simp [hnone] at hidentity

/-! ### The ways in which a course can go -/

section

variable {enclosing : String} {place : Place} {f owner : Field} {run run' : Run}
  {target : Target} {ms : List Making}

theorem Defines.unique {owner' : Field} (h : Defines c run f owner)
    (h' : Defines c run f owner') : owner' = owner := by
  cases h with
  | itself hnone _ =>
      cases h' with
      | itself _ _ => rfl
      | owner hidentity _ _ => simp [hnone] at hidentity
  | owner hidentity _ howner =>
      have hsame := h'.owner?_eq hidentity
      rw [howner] at hsame
      exact (Option.some.inj hsame).symm

/-- The field from which a record is made is the definition of the field it is made for. -/
theorem Defines.definition?_eq (h : Defines c run f owner) :
    c.forest.definition? f = some owner := by
  unfold Forest.definition?
  cases h with
  | itself hnone _ => simp [hnone]
  | owner hidentity _ howner => simp [hidentity, howner]

/-- If the first field stands for a record to be made, so does the second, from a like owner. -/
theorem Defines.alongside (hρ : Field.Likeness ρ) (hc : Alongside ρ c c') {g : Field}
    {run₁ : Run} (h : Defines c run f owner) (hfg : ρ f g) (hsame : SameNames run run₁) :
    ∃ owner', Defines c' run₁ g owner' ∧ ρ owner owner' := by
  cases h with
  | itself hnone hne =>
      refine ⟨g, .itself ((hρ.identity hfg).trans hnone) fun hempty => hne ?_, hfg⟩
      have hsame := hρ.isEmpty_properties hfg
      simpa [hempty] using hsame
  | owner hidentity hnew howner =>
      obtain ⟨owner', howner', hlike⟩ := hc.owned howner
      refine ⟨owner', .owner ((hρ.identity hfg).trans hidentity) ?_ howner', hlike⟩
      rw [hsame.identities]
      exact hnew

/-- If the second field stands for a record to be made, so does the first. -/
theorem Defines.back (hρ : Field.Likeness ρ) {g : Field} {run₁ : Run}
    (h : Defines c' run₁ g owner) (hfg : ρ f g) (hsame : SameNames run run₁)
    (hopen : StaysUnowned c c' f) : ∃ owner, Defines c run f owner := by
  cases h with
  | itself hnone hne =>
      refine ⟨f, .itself ((hρ.identity hfg).symm.trans hnone) fun hempty => hne ?_⟩
      have hsize := hρ.isEmpty_properties hfg
      simpa [hempty] using hsize
  | owner hidentity hnew howner =>
      have hown := (hρ.identity hfg).symm.trans hidentity
      rw [hsame.identities] at hnew
      cases howned : c.forest.owner? _ with
      | some first => exact ⟨first, .owner hown hnew howned⟩
      | none => simp [hopen _ hown howned] at howner

theorem not_defines_of_empty (hnone : f.identity = none) (hempty : f.properties = []) :
    ¬Defines c run f owner := by
  intro hdefines
  cases hdefines with
  | itself _ hne => exact hne hempty
  | owner hidentity _ _ => simp [hnone] at hidentity

theorem not_defines_of_registered {identity : String} {names : ArtifactNames}
    (hidentity : f.identity = some identity)
    (hlookup : run.identities.lookup identity = some names) : ¬Defines c run f owner := by
  intro hdefines
  cases hdefines with
  | itself hnone _ => simp [hnone] at hidentity
  | owner hown hnew _ =>
      obtain rfl := Option.some.inj (hown.symm.trans hidentity)
      simp [hlookup] at hnew

theorem not_defines_of_unowned {identity : String} (hidentity : f.identity = some identity)
    (hunowned : c.forest.owner? identity = none) : ¬Defines c run f owner := by
  intro hdefines
  have howner := hdefines.owner?_eq hidentity
  simp [hunowned] at howner

/-- The target of a field for which no record is made: the record of its identity, or a document if
there is none. -/
def reference (run : Run) (f : Field) : Target :=
  match f.identity.bind fun identity => run.identities.lookup identity with
  | some names => .generated names
  | none => .document

theorem Resolves.of_not_defines (h : Resolves c enclosing place f run target ms run')
    (hno : ∀ owner, ¬Defines c run f owner) :
    target = reference run f ∧ ms = [] ∧ run' = run := by
  cases h with
  | document hnone _ => exact ⟨by simp [reference, hnone], rfl, rfl⟩
  | external hidentity hnew _ _ => exact ⟨by simp [reference, hidentity, hnew], rfl, rfl⟩
  | shared hidentity hlookup => exact ⟨by simp [reference, hidentity, hlookup], rfl, rfl⟩
  | held hdefines _ _ => exact absurd hdefines (hno _)
  | made hdefines _ _ _ => exact absurd hdefines (hno _)

/-- Where a record is made, its names are claimed before it is made. -/
theorem Resolves.of_defines (h : Resolves c enclosing place f run target ms run')
    (hdefines : Defines c run f owner) :
    ∃ names run₁, c.announce f.identity enclosing f.name run = (names, run₁) ∧
      target = .generated names ∧ Builds c place owner names f.identity run₁ ms run' := by
  cases h with
  | document hnone hempty => exact absurd hdefines (not_defines_of_empty hnone hempty)
  | external hidentity _ hunowned _ =>
      exact absurd hdefines (not_defines_of_unowned hidentity hunowned)
  | shared hidentity hlookup =>
      exact absurd hdefines (not_defines_of_registered hidentity hlookup)
  | held hdefines' hannounce hr =>
      obtain rfl := hdefines.unique hdefines'
      exact ⟨_, _, hannounce, rfl, .held hr⟩
  | made hdefines' hannounce hr hfields =>
      obtain rfl := hdefines.unique hdefines'
      exact ⟨_, _, hannounce, rfl, .made hr hfields⟩

end

/-! ### Courses side by side -/

/-- Compiled fields that were made at one place from like fields. -/
inductive TwinFields (ρ : Field → Field → Prop) : RecordField → RecordField → Prop
  | mk {f g : Field} {place : Place} {accessor constant : String} {type : FieldType}
      {target : Option Target} {default default' : Option Value} :
      ρ f g → compileDefault? type place f.default = .ok default →
      compileDefault? type place g.default = .ok default' →
      TwinFields ρ (recordField f accessor constant type target default)
        (recordField g accessor constant type target default')

/-- Records that were made under one name from like owners. -/
inductive TwinMakings (ρ : Field → Field → Prop) : Making → Making → Prop
  | mk {owner owner' : Field} {names : ArtifactNames} {identity : Option String}
      {fields fields' : List RecordField} :
      ρ owner owner' → List.Forall₂ (TwinFields ρ) fields fields' →
      TwinMakings ρ ⟨owner, recordDefinition owner names identity fields⟩
        ⟨owner', recordDefinition owner' names identity fields'⟩

/-- Where the first course makes no record, neither does the second. -/
theorem Resolves.alongside_of_not_defines (hρ : Field.Likeness ρ) {enclosing : String}
    {place : Place} {f g : Field} {run run₁ run' run₁' : Run} {target target' : Target}
    {ms ms' : List Making} (h : Resolves c enclosing place f run target ms run₁)
    (h' : Resolves c' enclosing place g run' target' ms' run₁') (hfg : ρ f g)
    (hsame : SameNames run run') (hopen : StaysUnowned c c' f)
    (hno : ∀ owner, ¬Defines c run f owner) :
    target = target' ∧ List.Forall₂ (TwinMakings ρ) ms ms' ∧ SameNames run₁ run₁' := by
  have hno' : ∀ owner, ¬Defines c' run' g owner := by
    intro owner hdefines
    obtain ⟨_, hback⟩ := hdefines.back hρ hfg hsame hopen
    exact hno _ hback
  obtain ⟨rfl, rfl, rfl⟩ := h.of_not_defines hno
  obtain ⟨rfl, rfl, rfl⟩ := h'.of_not_defines hno'
  have htarget : reference run₁ f = reference run₁' g := by
    rw [reference, reference, hρ.identity hfg, hsame.identities]
  exact ⟨htarget, .nil, hsame⟩

section

variable (hρ : Field.Likeness ρ) (hc : Alongside ρ c c')

include hρ hc

-- The induction is on the course over the first field; that over the second is taken apart in each
-- case, and can only have gone the same way.
mutual

theorem Resolves.alongside {enclosing : String} {place : Place} {f g : Field}
    {run run₁ run' run₁' : Run} {target target' : Target} {ms ms' : List Making} :
    Resolves c enclosing place f run target ms run₁ →
      Resolves c' enclosing place g run' target' ms' run₁' → ρ f g → Tidy c run → Tidy c' run' →
      SameNames run run' → StaysUnowned c c' f →
      (∀ {d}, c.forest.definition? f = some d → ∀ k ∈ d.properties, Visited c k) →
      target = target' ∧ List.Forall₂ (TwinMakings ρ) ms ms' ∧ SameNames run₁ run₁'
  | .document hnone hempty, h', hfg, _, _, hsame, hopen, _ =>
      Resolves.alongside_of_not_defines hρ (.document hnone hempty) h' hfg hsame hopen
        fun _ => not_defines_of_empty hnone hempty
  | .external hidentity hnew hunowned hexternal, h', hfg, _, _, hsame, hopen, _ =>
      Resolves.alongside_of_not_defines hρ (.external hidentity hnew hunowned hexternal) h' hfg
        hsame hopen fun _ => not_defines_of_unowned hidentity hunowned
  | .shared hidentity hlookup, h', hfg, _, _, hsame, hopen, _ =>
      Resolves.alongside_of_not_defines hρ (.shared hidentity hlookup) h' hfg hsame hopen
        fun _ => not_defines_of_registered hidentity hlookup
  | .held _ hannounce hr, _, _, ht, _, _, _, _ => absurd hr (ht.reserve?_ne_none hannounce)
  | .made hdefines hannounce hr hfields, h', hfg, ht, ht', hsame, _, hvisited => by
      -- the second course begins a record of the same name for a like owner
      obtain ⟨owner', hdefines', howner⟩ := hdefines.alongside hρ hc hfg hsame
      obtain ⟨names', run₂', hannounce', rfl, hbuilds⟩ := h'.of_defines hdefines'
      rw [hρ.identity hfg, hρ.name hfg] at hannounce'
      obtain ⟨rfl, hclaimed⟩ := hsame.announce hc.settings hannounce hannounce'
      cases hbuilds with
      | held hr' =>
          rw [← hρ.identity hfg, ← hρ.name hfg] at hannounce'
          exact absurd hr' (ht'.reserve?_ne_none hannounce')
      | made hr' hfields' =>
          have hbegun := begun_of_reserve hdefines hannounce hr
          have hbegun' := begun_of_reserve hdefines'
            (by rw [hρ.identity hfg, hρ.name hfg]; exact hannounce') hr'
          have hbelow := hρ.properties howner
          rw [hc.settings, hρ.names_eq hbelow] at hfields'
          obtain ⟨htwins, hms, hfinished⟩ := hfields.alongside hfields' hbelow (hbegun.tidy ht)
            (hbegun'.tidy ht') ⟨hclaimed.typeNames, hclaimed.identities⟩
            (hvisited hdefines.definition?_eq)
          rw [hρ.identity hfg]
          exact ⟨rfl, List.rel_append hms (.cons (.mk howner htwins) .nil),
            ⟨hfinished.typeNames, hfinished.identities⟩⟩
termination_by structural h => h

theorem Compiles.alongside {enclosing : String} {place : Place} {accessors constants : List String}
    {fs gs : List Field} {run run₁ run' run₁' : Run} {fields fields' : List RecordField}
    {ms ms' : List Making} :
    Compiles c enclosing place accessors constants fs run fields ms run₁ →
      Compiles c' enclosing place accessors constants gs run' fields' ms' run₁' →
      List.Forall₂ ρ fs gs → Tidy c run → Tidy c' run' → SameNames run run' →
      (∀ f ∈ fs, Visited c f) →
      List.Forall₂ (TwinFields ρ) fields fields' ∧ List.Forall₂ (TwinMakings ρ) ms ms' ∧
        SameNames run₁ run₁'
  | .nil, h', .nil, _, _, hsame, _ => by
      cases h'
      exact ⟨.nil, .nil, hsame⟩
  | .plain htype hleaf hdefault hrest, h', .cons hfg hlike, ht, ht', hsame, hvisited => by
      have htype' := (hρ.type?_eq hfg c.settings.untyped).trans htype
      cases h' with
      | plain hother _ hdefault' hrest' =>
          rw [hc.settings, htype'] at hother
          cases hother
          rw [hρ.name hfg] at hdefault'
          obtain ⟨hfields, hms, hfinished⟩ := hrest.alongside hrest' hlike ht ht' hsame
            (List.forall_mem_cons.1 hvisited).2
          exact ⟨.cons (.mk hfg hdefault hdefault') hfields, hms, hfinished⟩
      | struct hother hleaf' _ _ _ =>
          rw [hc.settings, htype'] at hother
          cases hother
          simp [hleaf] at hleaf'
  | .struct htype hleaf hresolves hdefault hrest, h', .cons hfg hlike, ht, ht', hsame,
      hvisited => by
      have htype' := (hρ.type?_eq hfg c.settings.untyped).trans htype
      cases h' with
      | plain hother hleaf' _ _ =>
          rw [hc.settings, htype'] at hother
          cases hother
          simp [hleaf] at hleaf'
      | struct hother _ hresolves' hdefault' hrest' =>
          rw [hc.settings, htype'] at hother
          cases hother
          rw [hρ.name hfg] at hdefault' hresolves'
          obtain ⟨hf, hvisited⟩ := List.forall_mem_cons.1 hvisited
          obtain ⟨rfl, hms, hmiddle⟩ := hresolves.alongside hresolves' hfg ht ht' hsame
            (fun _ hidentity hunowned => hc.external ⟨hunowned, _, _, hf, htype, hleaf, hidentity⟩)
            (fun hd k hk => .ofField hf htype hleaf hd hk)
          obtain ⟨hfields, hms', hfinished⟩ := hrest.alongside hrest' hlike
            (hresolves.advances ht).1.tidy (hresolves'.advances ht').1.tidy hmiddle hvisited
          exact ⟨.cons (.mk hfg hdefault hdefault') hfields, List.rel_append hms hms', hfinished⟩
termination_by structural h => h

end

/-- Like roots, which stand for records, are compiled alike. -/
theorem CompilesRoots.alongside {roots roots' : List Field} {run run' run₁ run₁' : Run}
    {targets targets' : List ArtifactNames} {ms ms' : List Making}
    (h : CompilesRoots c roots run targets ms run₁)
    (h' : CompilesRoots c' roots' run' targets' ms' run₁') (hroots : List.Forall₂ ρ roots roots')
    (ht : Tidy c run) (ht' : Tidy c' run') (hsame : SameNames run run')
    (hrecords : ∀ root ∈ roots, root ∈ c.forest.roots ∧ HasRecord c root) :
    targets = targets' ∧ List.Forall₂ (TwinMakings ρ) ms ms' ∧ SameNames run₁ run₁' := by
  induction hroots generalizing run run' targets targets' ms ms' with
  | nil =>
      cases h
      cases h'
      exact ⟨rfl, .nil, hsame⟩
  | cons hfg hlike ih =>
      cases h with
      | cons _ hresolves hrest =>
          cases h' with
          | cons _ hresolves' hrest' =>
              obtain ⟨⟨hroot, hrecord⟩, hrecords⟩ := List.forall_mem_cons.1 hrecords
              rw [hρ.name hfg] at hresolves'
              obtain ⟨htarget, hms, hmiddle⟩ := hresolves.alongside hρ hc hresolves' hfg ht ht'
                hsame (fun _ hidentity hunowned => absurd hunowned (hrecord.owned hidentity))
                (fun hd k hk => .ofRoot hroot hd hk)
              cases htarget
              obtain ⟨rfl, hms', hfinished⟩ := ih hrest hrest' (hresolves.advances ht).1.tidy
                (hresolves'.advances ht').1.tidy hmiddle hrecords
              exact ⟨rfl, List.rel_append hms hms', hfinished⟩

end

end Compile
end RecordCodec
