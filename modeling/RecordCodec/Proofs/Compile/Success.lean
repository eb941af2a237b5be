import RecordCodec.Proofs.Codec.Reading
import RecordCodec.Proofs.Compile.Sharing

/-!
When compiling succeeds. The fields that a compilation comes to are the nested fields of the
definitions of the roots, and those of the definitions of struct fields among them, and so on:
`Visited` says this without the compiler. A schema can be compiled exactly when it is valid, its
roots stand for records, and every visited field can be settled: its identity, if it points at a
struct, is owned or external, and its default, if it has one, is a value of its type.
-/

namespace RecordCodec

/-- The field whose nested fields are those of the record that a field stands for: the owner of its
identity, or the field itself if it declares none. -/
def Forest.definition? (forest : Forest) (f : Field) : Option Field :=
  match f.identity with
  | none => some f
  | some identity => forest.owner? identity

theorem Forest.within_of_definition? {forest : Forest} {f d : Field}
    (h : forest.definition? f = some d) (hf : f.Within forest.roots) : d.Within forest.roots := by
  unfold definition? at h
  split at h
  · cases h
    exact hf
  · exact Field.within_of_ownerIn? _ h

namespace Compile

/-! ### What is asked of a schema -/

/-- The field is a nested field of a root's definition, or of the definition of a visited field
with a struct leaf. -/
inductive Visited (c : Setting) : Field → Prop
  | ofRoot {root d f : Field} :
      root ∈ c.forest.roots → c.forest.definition? root = some d → f ∈ d.properties → Visited c f
  | ofField {g d f : Field} {type : FieldType} :
      Visited c g → g.type? c.settings.untyped = some type → type.isStructLeaf = true →
      c.forest.definition? g = some d → f ∈ d.properties → Visited c f

/-- The default is a value of the type, which is made of scalars. -/
def AcceptsDefault (type : FieldType) (json : Json) : Prop :=
  type.isStructLeaf = false ∧ ∀ root, ∃ v, decodeDetached (.ofType none type) json root = .ok v

/-- The identity of the field, if it declares one, is owned or external. -/
def Resolvable (c : Setting) (f : Field) : Prop :=
  ∀ identity, f.identity = some identity →
    (∃ owner, c.forest.owner? identity = some owner) ∨ c.isExternal identity = true

/-- The field can be compiled, its nested fields left aside. -/
structure Settled (c : Setting) (f : Field) : Prop where
  reference : ∀ type, f.type? c.settings.untyped = some type → type.isStructLeaf = true →
    Resolvable c f
  default : ∀ json, f.default = some json →
    ∃ type, f.type? c.settings.untyped = some type ∧ AcceptsDefault type json

/-- There is a record that the field stands for: that of an owned identity, or one of its own. -/
def HasRecord (c : Setting) (f : Field) : Prop :=
  (∃ identity owner, f.identity = some identity ∧ c.forest.owner? identity = some owner) ∨
    f.identity = none ∧ f.properties ≠ []

structure Compilable (c : Setting) : Prop where
  valid : c.forest.validate c.settings.untyped = .ok ()
  roots : ∀ root ∈ c.forest.roots,
    root.type? c.settings.untyped = some .struct ∧ HasRecord c root
  visited : ∀ f, Visited c f → Settled c f

variable {c : Setting}

theorem Visited.within {f : Field} (h : Visited c f) : f.Within c.forest.roots := by
  induction h with
  | ofRoot hroot hd hf => exact (Forest.within_of_definition? hd (.here hroot)).property hf
  | ofField _ _ _ hd hf ih => exact (Forest.within_of_definition? hd ih).property hf

/-! ### Defaults -/

theorem decodeDetached_eq_ok_iff {plan : Plan CodecRef} {json : Json} {root : String} {v : Value} :
    decodeDetached plan json root = .ok v ↔ Decodes (fun _ => none) plan json.tokens v := by
  have hvalue : decodeDetached plan json root = .ok v ↔
      Gives (decodeAt (fun _ => none) plan (.root root) json.tokens) v [] := by
    unfold decodeDetached Gives decodeValue
    split
    · rename_i hstop
      simp [hstop]
    · rename_i hv
      simp [hv]
    · rename_i hleft
      simp [hleft]
  rw [hvalue]
  constructor
  · intro h
    obtain ⟨taken, htaken, hdecodes⟩ := decodes_of_decodeAt h
    rw [List.append_nil] at htaken
    exact htaken ▸ hdecodes
  · intro h
    have hgives := h.gives (.root root) []
    rwa [List.append_nil] at hgives

/-- A default is compiled, wherever it stands, exactly when it is accepted. -/
theorem compileDefault_isOk_iff {type : FieldType} {json : Json} {place : Place} :
    (∃ v, compileDefault type json place = .ok v) ↔ AcceptsDefault type json := by
  unfold compileDefault AcceptsDefault
  cases type.isStructLeaf with
  | true => simp
  | false =>
      rw [if_neg Bool.false_ne_true]
      constructor
      · rintro ⟨v, hv⟩
        refine ⟨rfl, fun root => ⟨v, ?_⟩⟩
        split at hv
        · rename_i w hw
          cases hv
          exact decodeDetached_eq_ok_iff.2 (decodeDetached_eq_ok_iff.1 hw)
        · cases hv
      · rintro ⟨_, haccepts⟩
        obtain ⟨v, hv⟩ := haccepts place.text
        exact ⟨v, by rw [hv]⟩

/-- A field that was compiled is settled, if its reference could be resolved. -/
theorem settled_of_compileDefault? {f : Field} {type : FieldType} {place : Place}
    {default : Option Value} (htype : f.type? c.settings.untyped = some type)
    (hdefault : compileDefault? type place f.default = .ok default)
    (hreference : type.isStructLeaf = true → Resolvable c f) : Settled c f where
  reference := by
    intro other hother hleaf
    rw [htype] at hother
    cases hother
    exact hreference hleaf
  default := by
    intro json hjson
    rw [hjson] at hdefault
    obtain ⟨v, hv, _⟩ := map_eq_ok_iff.1 hdefault
    exact ⟨type, htype, compileDefault_isOk_iff.1 ⟨v, hv⟩⟩

theorem Settled.compileDefault?_isOk {f : Field} (h : Settled c f) {type : FieldType}
    (htype : f.type? c.settings.untyped = some type) (place : Place) :
    ∃ default, compileDefault? type place f.default = .ok default := by
  cases hjson : f.default with
  | none => exact ⟨none, rfl⟩
  | some json =>
      obtain ⟨other, hother, haccepts⟩ := h.default json hjson
      rw [htype] at hother
      cases hother
      obtain ⟨v, hv⟩ := compileDefault_isOk_iff.2 haccepts
      exact ⟨some v, map_eq_ok_iff.2 ⟨v, hv, rfl⟩⟩

/-! ### Compilable schemas are compiled -/

theorem buildRecord_isOk {owner : Field} {names : ArtifactNames} {identity : Option String}
    {compileFields : Run → Except Error (List RecordField × Run)}
    (h : ∀ run, ∃ result, compileFields run = .ok result) (run : Run) :
    ∃ run', buildRecord owner names identity compileFields run = .ok run' := by
  unfold buildRecord
  split
  · exact ⟨run, rfl⟩
  · rename_i codecs _
    obtain ⟨result, hresult⟩ := h { run with codecs }
    exact ⟨_, by rw [hresult]⟩

/-- Owners are opened successfully if their nested fields are visited. -/
def OpensVisited (c : Setting) (openOwner : OpenOwner) : Prop :=
  ∀ {owner : Field}, (∀ f ∈ owner.properties, Visited c f) →
    ∀ identity names place run, ∃ run', openOwner identity names place owner run = .ok run'

section

variable {openOwner : OpenOwner}

mutual

theorem resolveStruct_isOk (hc : Compilable c) (ho : OpensVisited c openOwner)
    (enclosing : String) (place : Place) (run : Run) :
    (f : Field) → Resolvable c f →
      (∀ d, c.forest.definition? f = some d → ∀ g ∈ d.properties, Visited c g) →
      ∃ result, resolveStruct c openOwner enclosing place run f = .ok result
  | ⟨n, t, w, d, v, s, ps, i, cs, p⟩, hf, hvisited => by
      simp only [resolveStruct]
      cases i with
      | none =>
          simp only
          split
          · exact ⟨_, rfl⟩
          · obtain ⟨run', hrun'⟩ := buildRecord_isOk
              (fun run => compileFields_isOk hc ho _ place _ _ run ps (hvisited _ rfl)) _
            exact ⟨_, by rw [hrun']⟩
      | some identity =>
          simp only
          split
          · exact ⟨_, rfl⟩
          · split
            · rename_i owner howner
              obtain ⟨run', hrun'⟩ := ho (hvisited owner howner) identity _ place _
              exact ⟨_, by rw [hrun']⟩
            · rename_i hunowned
              obtain ⟨owner, howner⟩ | hexternal := hf identity rfl
              · rw [howner] at hunowned
                cases hunowned
              · exact ⟨_, by rw [if_pos hexternal]⟩

theorem compileFields_isOk (hc : Compilable c) (ho : OpensVisited c openOwner)
    (enclosing : String) (place : Place) (accessors constants : List String) (run : Run) :
    (fs : List Field) → (∀ f ∈ fs, Visited c f) →
      ∃ result, compileFields c openOwner enclosing place accessors constants fs run = .ok result
  | [], _ => ⟨_, rfl⟩
  | f :: rest, hvisited => by
      obtain ⟨hf, hvisited⟩ := List.forall_mem_cons.1 hvisited
      obtain ⟨type, htype⟩ := (Forest.checked hc.valid hf.within).exists_type
      have hsettled := hc.visited f hf
      have htarget : ∃ result, (if type.isStructLeaf then
          (resolveStruct c openOwner enclosing (place ++ [f.name]) run f).map
            fun p => (some p.1, p.2)
          else .ok (none, run)) = Except.ok result := by
        split
        · rename_i hleaf
          obtain ⟨result, hresult⟩ := resolveStruct_isOk hc ho enclosing (place ++ [f.name]) run f
            (hsettled.reference type htype hleaf) fun d hd g hg => .ofField hf htype hleaf hd hg
          exact ⟨_, map_eq_ok_iff.2 ⟨result, hresult, rfl⟩⟩
        · exact ⟨_, rfl⟩
      obtain ⟨⟨target, run₁⟩, htarget⟩ := htarget
      obtain ⟨default, hdefault⟩ := hsettled.compileDefault?_isOk htype (place ++ [f.name])
      obtain ⟨⟨fields, run₂⟩, hrest⟩ :=
        compileFields_isOk hc ho enclosing place accessors.tail constants.tail run₁ rest hvisited
      simp only [compileFields, htype, htarget, hdefault, hrest]
      exact ⟨_, rfl⟩

end

end

/-- Stopping when no more jumps are allowed is no failure either, so the jumps need no bound. -/
theorem openOwnerOr_opensVisited (hc : Compilable c) (jumps : Nat) :
    OpensVisited c (openOwnerOr c (fun _ _ _ _ run => .ok run) jumps) := by
  induction jumps with
  | zero =>
      intro owner _ identity names place run
      exact ⟨run, rfl⟩
  | succ jumps ih =>
      intro owner hvisited identity names place run
      exact buildRecord_isOk
        (fun run => compileFields_isOk hc ih _ place _ _ run owner.properties hvisited) run

theorem HasRecord.resolvable {f : Field} (h : HasRecord c f) : Resolvable c f := by
  intro identity hidentity
  obtain ⟨own, owner, hown, howner⟩ | ⟨hnone, _⟩ := h
  · rw [hidentity] at hown
    cases hown
    exact .inl ⟨owner, howner⟩
  · rw [hnone] at hidentity
    cases hidentity

theorem HasRecord.target_ne_document {f : Field} (h : HasRecord c f) {enclosing : String}
    {place : Place} {run run' : Run} {target : Target} {ms : List Making}
    (hresolves : Resolves c enclosing place f run target ms run') : target ≠ .document := by
  rintro rfl
  obtain ⟨identity, owner, hidentity, howner⟩ | ⟨hnone, hne⟩ := h
  · cases hresolves with
    | document hnone _ =>
        rw [hnone] at hidentity
        cases hidentity
    | external hown _ hunowned _ =>
        rw [hidentity] at hown
        cases hown
        rw [howner] at hunowned
        cases hunowned
  · cases hresolves with
    | document _ hempty => exact hne hempty
    | external hidentity _ _ _ =>
        rw [hnone] at hidentity
        cases hidentity

theorem compileRoot_isOk (hc : Compilable c) {root : Field} (hroot : root ∈ c.forest.roots)
    (run : Run) : ∃ result, compileRoot c run root = .ok result := by
  obtain ⟨htype, hrecord⟩ := hc.roots root hroot
  obtain ⟨⟨target, run'⟩, hresult⟩ := resolveStruct_isOk hc
    (openOwnerOr_opensVisited hc c.forest.fieldCount) "" [root.name] run root hrecord.resolvable
    fun d hd g hg => .ofRoot hroot hd hg
  -- the jumps allowed are enough, so stopping is not what happened
  rw [resolveStruct_jumps _ (Nat.le_refl _) _ _ _ (.here hroot)] at hresult
  obtain ⟨ms, hresolves⟩ := resolveStruct_resolves (openOwnerWithin_builds _) root hresult
  unfold compileRoot
  rw [htype]
  simp only [hresult]
  cases target with
  | generated names => exact ⟨_, rfl⟩
  | document => exact absurd rfl (hrecord.target_ne_document hresolves)

theorem compileRoots_isOk (hc : Compilable c) {roots : List Field}
    (hroots : ∀ root ∈ roots, root ∈ c.forest.roots) (run : Run) :
    ∃ result, compileRoots c run roots = .ok result := by
  induction roots generalizing run with
  | nil => exact ⟨_, rfl⟩
  | cons root rest ih =>
      obtain ⟨hroot, hrest⟩ := List.forall_mem_cons.1 hroots
      obtain ⟨⟨name, run₁⟩, hfirst⟩ := compileRoot_isOk hc hroot run
      obtain ⟨⟨names, run₂⟩, hothers⟩ := ih hrest run₁
      simp only [compileRoots, hfirst, hothers]
      exact ⟨_, rfl⟩

/-! ### What was compiled is settled -/

/-- Every registered identity has an owner; so a field that points at a record already begun is no
reference that leads nowhere. -/
def RegistersOwned (c : Setting) (run : Run) : Prop :=
  ∀ {identity names}, run.identities.lookup identity = some names →
    ∃ owner, c.forest.owner? identity = some owner

theorem registersOwned_start : RegistersOwned c start := nofun

theorem RegistersOwned.advance {run run' : Run} {ms : List Making} (h : RegistersOwned c run)
    (ha : Advances c run ms run') : RegistersOwned c run' := by
  intro identity names hlookup
  obtain hlookup | ⟨m, _, _, _, howner⟩ := ha.opened hlookup
  · exact h hlookup
  · exact ⟨m.owner, howner⟩

theorem RegistersOwned.begun {f owner : Field} {run run' : Run} {names : ArtifactNames}
    (h : RegistersOwned c run) (hb : Begun c f owner run names run') : RegistersOwned c run' := by
  intro identity other hlookup
  obtain ⟨hidentity, _⟩ | hlookup := hb.lookup_iff.1 hlookup
  · exact ⟨owner, hb.defines.owner?_eq hidentity⟩
  · exact h hlookup

theorem Defines.hasRecord {f owner : Field} {run : Run} (h : Defines c run f owner) :
    HasRecord c f := by
  cases h with
  | itself hnone hne => exact .inr ⟨hnone, hne⟩
  | owner hidentity _ howner => exact .inl ⟨_, owner, hidentity, howner⟩

/-- The fields of the records that were made are settled. -/
def SettlesMade (c : Setting) (ms : List Making) : Prop :=
  ∀ m ∈ ms, ∀ f ∈ m.owner.properties, Settled c f

theorem settlesMade_append {ms ms' : List Making} (h : SettlesMade c ms)
    (h' : SettlesMade c ms') : SettlesMade c (ms ++ ms') :=
  List.forall_mem_append.2 ⟨h, h'⟩

mutual

theorem Resolves.settles {enclosing : String} {place : Place} {f : Field} {run run' : Run}
    {target : Target} {ms : List Making} :
    Resolves c enclosing place f run target ms run' → Tidy c run → RegistersOwned c run →
      Resolvable c f ∧ SettlesMade c ms
  | .document hnone _, _, _ => by
      refine ⟨fun identity hidentity => ?_, nofun⟩
      rw [hnone] at hidentity
      cases hidentity
  | .external hown _ _ hexternal, _, _ => by
      refine ⟨fun identity hidentity => ?_, nofun⟩
      rw [hown] at hidentity
      cases hidentity
      exact .inr hexternal
  | .shared hown hlookup, _, ho => by
      refine ⟨fun identity hidentity => ?_, nofun⟩
      rw [hown] at hidentity
      cases hidentity
      exact .inl (ho hlookup)
  | .held _ hannounce hr, ht, _ => absurd hr (ht.reserve?_ne_none hannounce)
  | .made hdefines hannounce hr hfields, ht, ho => by
      have hbegun := begun_of_reserve hdefines hannounce hr
      obtain ⟨hsettled, hbelow⟩ := hfields.settles (hbegun.tidy ht) (ho.begun hbegun)
      refine ⟨hdefines.hasRecord.resolvable, settlesMade_append hbelow ?_⟩
      exact List.forall_mem_singleton.2 hsettled

theorem Compiles.settles {enclosing : String} {place : Place} {accessors constants : List String}
    {fs : List Field} {run run' : Run} {fields : List RecordField} {ms : List Making} :
    Compiles c enclosing place accessors constants fs run fields ms run' → Tidy c run →
      RegistersOwned c run → (∀ f ∈ fs, Settled c f) ∧ SettlesMade c ms
  | .nil, _, _ => ⟨nofun, nofun⟩
  | .plain htype hleaf hdefault hrest, ht, ho => by
      obtain ⟨hsettled, hmade⟩ := hrest.settles ht ho
      have hf := settled_of_compileDefault? htype hdefault fun hstruct =>
        absurd (hleaf.symm.trans hstruct) Bool.false_ne_true
      exact ⟨List.forall_mem_cons.2 ⟨hf, hsettled⟩, hmade⟩
  | .struct htype _ hresolves hdefault hrest, ht, ho => by
      obtain ⟨ha, _⟩ := hresolves.advances ht
      obtain ⟨hresolvable, hfirst⟩ := hresolves.settles ht ho
      obtain ⟨hsettled, hlater⟩ := hrest.settles ha.tidy (ho.advance ha)
      have hf := settled_of_compileDefault? htype hdefault fun _ => hresolvable
      exact ⟨List.forall_mem_cons.2 ⟨hf, hsettled⟩, settlesMade_append hfirst hlater⟩

end

theorem Resolves.hasRecord {enclosing : String} {place : Place} {f : Field} {run run' : Run}
    {names : ArtifactNames} {ms : List Making}
    (h : Resolves c enclosing place f run (.generated names) ms run')
    (ho : RegistersOwned c run) : HasRecord c f := by
  cases h with
  | shared hidentity hlookup =>
      obtain ⟨owner, howner⟩ := ho hlookup
      exact .inl ⟨_, owner, hidentity, howner⟩
  | held hf _ _ => exact hf.hasRecord
  | made hf _ _ _ => exact hf.hasRecord

theorem CompilesRoots.settles {roots : List Field} {run run' : Run}
    {targets : List ArtifactNames} {ms : List Making}
    (h : CompilesRoots c roots run targets ms run') (ht : Tidy c run)
    (ho : RegistersOwned c run) :
    (∀ root ∈ roots, root.type? c.settings.untyped = some .struct ∧ HasRecord c root) ∧
      SettlesMade c ms := by
  induction h with
  | nil => exact ⟨nofun, nofun⟩
  | cons htype hresolves _ ih =>
      obtain ⟨ha, _⟩ := hresolves.advances ht
      obtain ⟨_, hfirst⟩ := hresolves.settles ht ho
      obtain ⟨hroots, hlater⟩ := ih ha.tidy (ho.advance ha)
      exact ⟨List.forall_mem_cons.2 ⟨⟨htype, hresolves.hasRecord ho⟩, hroots⟩,
        settlesMade_append hfirst hlater⟩

/-! ### Visited fields are compiled -/

theorem CompilesRoots.length_eq {roots : List Field} {run run' : Run}
    {targets : List ArtifactNames} {ms : List Making}
    (h : CompilesRoots c roots run targets ms run') : roots.length = targets.length := by
  induction h with
  | nil => rfl
  | cons _ _ _ ih => rw [List.length_cons, ih, List.length_cons]

theorem exists_mem_zip {α β : Type} {xs : List α} {ys : List β} (h : xs.length = ys.length)
    {x : α} (hx : x ∈ xs) : ∃ y, (x, y) ∈ xs.zip ys := by
  rw [← List.map_fst_zip h.le] at hx
  obtain ⟨⟨_, y⟩, hmem, rfl⟩ := List.mem_map.1 hx
  exact ⟨y, hmem⟩

section

variable {ms : List Making} {run : Run} {f d : Field}

/-- The struct fields of an owner whose record was made are reached. -/
theorem Made.exists_reached {m : Making} (h : Made c run m) {type : FieldType}
    (hf : f ∈ m.owner.properties) (htype : f.type? c.settings.untyped = some type)
    (hleaf : type.isStructLeaf = true) : ∃ names?, (f, names?) ∈ m.reached := by
  obtain ⟨compiled, hmem⟩ := exists_mem_zip h.fields.length_eq hf
  have hcompiled : CompiledField c f compiled := List.forall₂_zip h.fields hmem
  have hsame : compiled.type = type := Option.some.inj (hcompiled.type.symm.trans htype)
  refine ⟨compiled.names?, List.mem_map.2 ⟨(f, compiled), List.mem_filter.2 ⟨hmem, ?_⟩, rfl⟩⟩
  rw [hsame]
  exact hleaf

/-- For a field that was reached a record was made from its definition, if that has nested
fields. -/
theorem Placed.exists_owner {names? : Option ArtifactNames} (h : Placed c ms run f names?)
    (ha : Advances c start ms run) (hd : c.forest.definition? f = some d)
    (hne : d.properties ≠ []) : ∃ m ∈ ms, m.owner = d := by
  unfold Forest.definition? at hd
  cases names? with
  | none =>
      cases h with
      | nowhere hempty hunowned =>
          split at hd
          · rename_i hnone
            cases hd
            exact absurd (hempty hnone) hne
          · rename_i hidentity
            rw [hunowned hidentity] at hd
            cases hd
  | some names =>
      obtain ⟨m, hm, _, _, hown, howned⟩ := h.exists_making ha
      refine ⟨m, hm, ?_⟩
      split at hd
      · rename_i hnone
        cases hd
        exact hown hnone
      · rename_i hidentity
        exact Option.some.inj ((howned hidentity).symm.trans hd)

/-- From the definition of every visited field's parent a record was made. -/
theorem Visited.exists_making (hv : Visited c f) {targets : List ArtifactNames}
    (hcourse : CompilesRoots c c.forest.roots start targets ms run) :
    ∃ m ∈ ms, f ∈ m.owner.properties := by
  have ha := hcourse.advances tidy_start
  have hs := hcourse.shares tidy_start
  induction hv with
  | ofRoot hroot hd hf =>
      have hlength : c.forest.roots.length = (targets.map some).length := by
        rw [List.length_map, hcourse.length_eq]
      obtain ⟨names?, hmem⟩ := exists_mem_zip hlength hroot
      obtain ⟨m, hm, rfl⟩ := (hs.placed _ (List.mem_append_left _ hmem)).exists_owner ha hd
        (List.ne_nil_of_mem hf)
      exact ⟨m, hm, hf⟩
  | ofField _ htype hleaf hd hf ih =>
      obtain ⟨parent, hparent, hg⟩ := ih
      obtain ⟨names?, hmem⟩ := (ha.made parent hparent).exists_reached hg htype hleaf
      have hreached := List.mem_flatMap.2 ⟨parent, hparent, hmem⟩
      obtain ⟨m, hm, rfl⟩ := (hs.placed _ (List.mem_append_right _ hreached)).exists_owner ha hd
        (List.ne_nil_of_mem hf)
      exact ⟨m, hm, hf⟩

end

end Compile

/-! ### Whole schemas -/

open Compile

/-- Compiling succeeds exactly on the schemas of which it can be expected. -/
theorem Forest.compile_isOk_iff (settings : Settings) (forest : Forest) :
    (∃ catalog, forest.compile settings = .ok catalog) ↔ Compilable ⟨settings, forest⟩ := by
  constructor
  · rintro ⟨catalog, h⟩
    obtain ⟨targets, ms, run, _, _, hcourse, _⟩ := course_of_compile h
    obtain ⟨hroots, hsettled⟩ := hcourse.settles tidy_start registersOwned_start
    refine ⟨validate_of_compile h, hroots, fun f hf => ?_⟩
    obtain ⟨m, hm, hmem⟩ := hf.exists_making hcourse
    exact hsettled m hm f hmem
  · intro h
    obtain ⟨⟨roots, run⟩, hroots⟩ := compileRoots_isOk h (fun _ hroot => hroot) start
    obtain ⟨ms, ha⟩ := advances_of_compileRoots hroots
    obtain ⟨catalog, hcatalog⟩ := finish_isOk ha roots
    refine ⟨catalog, ?_⟩
    unfold compile
    rw [h.valid]
    simp only [hroots]
    exact hcatalog

/-- A nested field declares the identity of the root again, with a reference that leads nowhere.
The root owns the identity, so the reference is not visited. -/
def Forest.redeclared : Forest where
  roots := [{ name := "node", identity := some "node", properties := [
    { name := "next", identity := some "node", properties := [
        { name := "lost", identity := some "nowhere" }] }] }]

example : (Forest.redeclared.compile {}).toOption.isSome = true := by decide +kernel

end RecordCodec
