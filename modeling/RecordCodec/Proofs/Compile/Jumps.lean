import RecordCodec.Proofs.Compile.Steps
import RecordCodec.Proofs.Schema.Preorder

/-!
How deep compiling can jump. A jump to the owner of an identity registers an identity that was not
registered before, and what is registered stays so. Hence the fields that wait for the
registration of their identity become fewer with every jump, and with as many jumps allowed as the
schema has fields, it does not matter what would be done when they run out.
-/

namespace RecordCodec

theorem countP_lt_countP {α : Type} {p q : α → Bool} {xs : List α} {x : α}
    (h : ∀ y ∈ xs, p y = true → q y = true) (hx : x ∈ xs) (hp : p x = false) (hq : q x = true) :
    xs.countP p < xs.countP q := by
  obtain ⟨before, after, rfl⟩ := List.append_of_mem hx
  have hbefore : before.countP p ≤ before.countP q :=
    List.countP_mono_left fun y hy => h y (List.mem_append_left _ hy)
  have hafter : after.countP p ≤ after.countP q :=
    List.countP_mono_left fun y hy => h y (List.mem_append_right _ (List.mem_cons_of_mem _ hy))
  simp only [List.countP_append, List.countP_cons, hp, hq]
  simp only [Bool.false_eq_true, if_false, if_true]
  omega

namespace Compile

variable {c : Setting}

/-! ### Waiting fields -/

/-- Does the field declare an identity that is not registered? -/
def waits (run : Run) (f : Field) : Bool :=
  f.identity.any fun identity => (run.identities.lookup identity).isNone

/-- The number of fields whose identity is not registered. -/
def waiting (c : Setting) (run : Run) : Nat := c.forest.fields.countP (waits run)

theorem waiting_le_fieldCount (c : Setting) (run : Run) : waiting c run ≤ c.forest.fieldCount := by
  rw [← Forest.length_fields]
  exact List.countP_le_length

theorem Step.lookup {run run' : Run} (h : Step c run run') {identity : String}
    {names : ArtifactNames} (hlookup : run.identities.lookup identity = some names) :
    run'.identities.lookup identity = some names := by
  cases h with
  | claim _ _ _ => exact hlookup
  | @register own other hnew =>
      have hne : (identity == own) = false := by
        refine beq_eq_false_iff_ne.2 ?_
        rintro rfl
        rw [hnew] at hlookup
        cases hlookup
      simpa [List.lookup_cons, hne] using hlookup
  | reserve _ => exact hlookup
  | add _ _ _ _ => exact hlookup

theorem Steps.lookup {run run' : Run} (h : Steps c run run') {identity : String}
    {names : ArtifactNames} (hlookup : run.identities.lookup identity = some names) :
    run'.identities.lookup identity = some names := by
  induction h with
  | refl => exact hlookup
  | tail _ hstep ih => exact hstep.lookup ih

theorem waits_iff {run : Run} {f : Field} : waits run f = true ↔
    ∃ identity, f.identity = some identity ∧ run.identities.lookup identity = none := by
  simp only [waits, Option.any_eq_true, Option.isNone_iff_eq_none]

theorem Steps.waits {run run' : Run} (h : Steps c run run') {f : Field}
    (hf : waits run' f = true) : waits run f = true := by
  obtain ⟨identity, hidentity, hnone⟩ := waits_iff.1 hf
  refine waits_iff.2 ⟨identity, hidentity, ?_⟩
  cases hlookup : run.identities.lookup identity with
  | none => rfl
  | some names =>
      rw [h.lookup hlookup] at hnone
      cases hnone

theorem Steps.waiting_le {run run' : Run} (h : Steps c run run') :
    waiting c run' ≤ waiting c run :=
  List.countP_mono_left fun _ _ => h.waits

/-- Registering an identity that has an owner ends the waiting of the owner. -/
theorem waiting_register_lt {run : Run} {identity : String} {owner : Field}
    (hnew : run.identities.lookup identity = none) (howner : c.forest.owner? identity = some owner)
    (names : ArtifactNames) :
    waiting c { run with identities := (identity, names) :: run.identities } < waiting c run := by
  rw [Forest.owner?_eq_find?] at howner
  have howns : owner.owns identity = true := by simpa using List.find?_some howner
  have hidentity : owner.identity = some identity := by
    simp only [Field.owns, Bool.and_eq_true, decide_eq_true_eq] at howns
    exact howns.1
  refine countP_lt_countP ?_ (List.mem_of_find?_eq_some howner) ?_ ?_
  · have hsteps : Steps c run { run with identities := (identity, names) :: run.identities } :=
      .single (.register names hnew)
    exact fun _ _ => hsteps.waits
  · refine Bool.eq_false_iff.2 fun hwaits => ?_
    obtain ⟨own, hown, hnone⟩ := waits_iff.1 hwaits
    rw [hidentity] at hown
    cases hown
    simp at hnone
  · exact waits_iff.2 ⟨identity, hidentity, hnew⟩

/-! ### Ways of opening owners -/

/-- Opens owners with so many nested jumps allowed, and does what `stop` does when they run out. -/
def openOwnerOr (c : Setting) (stop : OpenOwner) : Nat → OpenOwner
  | 0 => stop
  | jumps + 1 => fun identity names place owner =>
      buildRecord owner names (some identity)
        (compileFields c (openOwnerOr c stop jumps) names.record.name place
          (c.settings.naming.accessors (owner.properties.map (·.name)))
          (c.settings.naming.constants (owner.properties.map (·.name))) owner.properties)

/-- Two ways of opening owners do the same in runs in which fewer than so many fields wait. -/
def AgreeBelow (c : Setting) (bound : Nat) (openOwner openOwner' : OpenOwner) : Prop :=
  ∀ {run : Run}, waiting c run < bound → ∀ {owner : Field}, owner.Within c.forest.roots →
    ∀ identity names place,
      openOwner identity names place owner run = openOwner' identity names place owner run

theorem buildRecord_congr {owner : Field} {names : ArtifactNames} {identity : Option String}
    {compileFields compileFields' : Run → Except Error (List RecordField × Run)} {run : Run}
    (h : ∀ codecs, compileFields { run with codecs } = compileFields' { run with codecs }) :
    buildRecord owner names identity compileFields run =
      buildRecord owner names identity compileFields' run := by
  unfold buildRecord
  split
  · rfl
  · rw [h]

section

variable {openOwner openOwner' : OpenOwner} {bound : Nat}

mutual

theorem resolveStruct_congr (ho : OpensByCourse c openOwner')
    (hagree : AgreeBelow c bound openOwner openOwner') {enclosing : String} {place : Place}
    {run : Run} (hrun : waiting c run ≤ bound) :
    (f : Field) → f.Within c.forest.roots →
      resolveStruct c openOwner enclosing place run f =
        resolveStruct c openOwner' enclosing place run f
  | ⟨n, t, w, d, v, s, ps, i, cs, p⟩, hf => by
      simp only [resolveStruct]
      cases i with
      | none =>
          simp only
          split
          · rfl
          · congr 1
            have hclaimed : ∀ codecs, waiting c { (c.allocate none enclosing n run).2 with codecs } ≤
                bound := fun _ => hrun
            exact buildRecord_congr fun codecs =>
              compileFields_congr ho hagree (hclaimed codecs) ps fun g hg => hf.property hg
      | some identity =>
          simp only
          split
          · rfl
          · rename_i hnew
            split
            · rename_i owner howner
              -- the owner is opened with its identity registered, so that fewer fields wait
              congr 1
              refine hagree ?_ (Field.within_of_ownerIn? _ howner) _ _ _
              exact Nat.lt_of_lt_of_le (waiting_register_lt hnew howner _) hrun
            · rfl

theorem compileFields_congr (ho : OpensByCourse c openOwner')
    (hagree : AgreeBelow c bound openOwner openOwner') {enclosing : String} {place : Place}
    {accessors constants : List String} {run : Run} (hrun : waiting c run ≤ bound) :
    (fs : List Field) → (∀ f ∈ fs, f.Within c.forest.roots) →
      compileFields c openOwner enclosing place accessors constants fs run =
        compileFields c openOwner' enclosing place accessors constants fs run
  | [], _ => rfl
  | f :: rest, hw => by
      obtain ⟨hf, hw⟩ := List.forall_mem_cons.1 hw
      simp only [compileFields]
      rw [resolveStruct_congr ho hagree hrun f hf]
      split
      · rfl
      · split
        · rfl
        · rename_i target run₁ htarget
          have hrun₁ : waiting c run₁ ≤ bound := by
            split at htarget
            · obtain ⟨p, hp, heq⟩ := map_eq_ok_iff.1 htarget
              cases heq
              obtain ⟨ms, hresolves⟩ := resolveStruct_resolves ho f hp
              exact Nat.le_trans (hresolves.steps hf).waiting_le hrun
            · cases htarget
              exact hrun
          rw [compileFields_congr ho hagree hrun₁ rest hw]

end

end

/-- Below a number of waiting fields that both allow to jump for, it does not matter how many jumps
are allowed and what would be done when they run out. -/
theorem agreeBelow_openOwnerOr (stop : OpenOwner) {bound jumps jumps' : Nat} (h : bound ≤ jumps)
    (h' : bound ≤ jumps') :
    AgreeBelow c bound (openOwnerOr c stop jumps) (openOwnerWithin c jumps') := by
  induction jumps generalizing bound jumps' with
  | zero =>
      intro run hrun
      omega
  | succ jumps ih =>
      intro run hrun owner howner identity names place
      cases jumps' with
      | zero => omega
      | succ jumps' =>
          -- below the owner as many fields wait as above, but fewer than are allowed for
          have hagree : AgreeBelow c (waiting c run) (openOwnerOr c stop jumps)
              (openOwnerWithin c jumps') := ih (by omega) (by omega)
          have hreserved : ∀ codecs, waiting c { run with codecs } ≤ waiting c run :=
            fun _ => Nat.le_refl _
          exact buildRecord_congr fun codecs => compileFields_congr (openOwnerWithin_builds jumps')
            hagree (hreserved codecs) owner.properties fun g hg => howner.property hg

/-- Compiling comes to an end: with as many jumps allowed as the schema has fields, what would be
done if they ran out never matters. -/
theorem resolveStruct_jumps (stop : OpenOwner) {jumps : Nat} (h : c.forest.fieldCount ≤ jumps)
    (enclosing : String) (place : Place) (run : Run) {f : Field}
    (hf : f.Within c.forest.roots) :
    resolveStruct c (openOwnerOr c stop jumps) enclosing place run f =
      resolveStruct c (openOwner c) enclosing place run f := by
  have hrun := waiting_le_fieldCount c run
  exact resolveStruct_congr (openOwnerWithin_builds _)
    (agreeBelow_openOwnerOr stop (Nat.le_trans hrun h) (Nat.le_succ_of_le hrun))
    (Nat.le_refl _) f hf

end Compile
end RecordCodec
