import RecordCodec.Proofs.Compile.Closed
import RecordCodec.Proofs.Compile.Jumps

/-!
Which fields share a record. The fields with a struct leaf that a compilation comes to are the
roots and the struct fields of the records that are made. Fields with one owned identity get the
record that is made from its owner, and every field without an identity gets a record of its own,
so that two fields have one record only if they declare one identity.
-/

namespace RecordCodec

/-- The fields with a struct leaf among the nested fields of an owner, each with the names that its
compiled form points at, if it points at a record. -/
def structTargets (fs : List Field) (fields : List RecordField) :
    List (Field × Option ArtifactNames) :=
  ((fs.zip fields).filter (·.2.type.isStructLeaf)).map fun p => (p.1, p.2.names?)

/-- The names of the record that belongs to the field alone, if it has no identity and points at a
record. -/
def ownNames? (p : Field × Option ArtifactNames) : Option ArtifactNames :=
  if p.1.identity = none then p.2 else none

namespace Compile

variable {c : Setting}

/-- The struct fields of a made record. -/
def Making.reached (m : Making) : List (Field × Option ArtifactNames) :=
  structTargets m.owner.properties m.record.fields

/-- Where a field with a struct leaf points: nowhere, at a record of its own, or at the record of
its identity. -/
inductive Placed (c : Setting) (ms : List Making) (run : Run) (f : Field) :
    Option ArtifactNames → Prop
  | nowhere : (f.identity = none → f.properties = []) →
      (∀ {identity}, f.identity = some identity → c.forest.owner? identity = none) →
      Placed c ms run f none
  | own {m : Making} : m ∈ ms → m.owner = f → f.identity = none → m.record.identity = none →
      Placed c ms run f (some m.record.names)
  | shared {identity : String} {names : ArtifactNames} :
      f.identity = some identity → run.identities.lookup identity = some names →
      Placed c ms run f (some names)

theorem Placed.mono {ms ms' : List Making} {run run' : Run} {f : Field}
    {names? : Option ArtifactNames} (h : Placed c ms run f names?) (hms : ms ⊆ ms')
    (hlookup : ∀ {identity names}, run.identities.lookup identity = some names →
      run'.identities.lookup identity = some names) : Placed c ms' run' f names? := by
  cases h with
  | nowhere hnone howned => exact .nowhere hnone howned
  | own hm howner hf hidentity => exact .own (hms hm) howner hf hidentity
  | shared hf hnames => exact .shared hf (hlookup hnames)

/-- The fields that were reached point where they should, every made record is pointed at, and the
records without an identity are pointed at by one field each. -/
structure Shares (c : Setting) (reached : List (Field × Option ArtifactNames)) (ms : List Making)
    (run : Run) : Prop where
  placed : ∀ p ∈ reached, Placed c ms run p.1 p.2
  covered : ∀ m ∈ ms, ∃ p ∈ reached, p.2 = some m.record.names
  own : (reached.filterMap ownNames?).Perm
    ((ms.filter (·.record.identity.isNone)).map (·.record.names))

namespace Shares

variable {reached reached' before later : List (Field × Option ArtifactNames)}
  {ms ms' : List Making} {run run₁ run' : Run}

theorem perm (h : Shares c reached ms run) (hp : reached.Perm reached') :
    Shares c reached' ms run where
  placed := fun p hmem => h.placed p (hp.mem_iff.2 hmem)
  covered := by
    intro m hm
    obtain ⟨p, hmem, hnames⟩ := h.covered m hm
    exact ⟨p, hp.mem_iff.1 hmem, hnames⟩
  own := (hp.filterMap ownNames?).symm.trans h.own

theorem append (h : Shares c before ms run₁) (h' : Shares c later ms' run')
    (hlookup : ∀ {identity names}, run₁.identities.lookup identity = some names →
      run'.identities.lookup identity = some names) :
    Shares c (before ++ later) (ms ++ ms') run' where
  placed := by
    intro p hmem
    obtain hmem | hmem := List.mem_append.1 hmem
    · exact (h.placed p hmem).mono (List.subset_append_left _ _) hlookup
    · exact (h'.placed p hmem).mono (List.subset_append_right _ _) id
  covered := by
    intro m hm
    obtain hm | hm := List.mem_append.1 hm
    · obtain ⟨p, hmem, hnames⟩ := h.covered m hm
      exact ⟨p, List.mem_append_left _ hmem, hnames⟩
    · obtain ⟨p, hmem, hnames⟩ := h'.covered m hm
      exact ⟨p, List.mem_append_right _ hmem, hnames⟩
  own := by
    rw [List.filterMap_append, List.filter_append, List.map_append]
    exact h.own.append h'.own

end Shares

/-! ### Courses -/

section

variable {f owner : Field} {names : ArtifactNames} {fields : List RecordField}
  {run run₁ run₂ : Run} {ms : List Making}

theorem shares_nil (run : Run) : Shares c [] [] run := ⟨by simp, by simp, .nil⟩

theorem shares_document (hnone : f.identity = none → f.properties = [])
    (howned : ∀ {identity}, f.identity = some identity → c.forest.owner? identity = none)
    (run : Run) : Shares c [(f, none)] [] run where
  placed := List.forall_mem_singleton.2 (.nowhere hnone howned)
  covered := by simp
  own := by simp [ownNames?]

theorem shares_shared {identity : String} (hf : f.identity = some identity)
    (hlookup : run.identities.lookup identity = some names) : Shares c [(f, some names)] [] run where
  placed := List.forall_mem_singleton.2 (.shared hf hlookup)
  covered := by simp
  own := by simp [ownNames?, hf]

/-- The field for which a record was begun points at it. -/
theorem Begun.shares (h : Begun c f owner run names run₁) (ha : Advances c run₁ ms run₂) :
    Shares c [(f, some names)] [⟨owner, recordDefinition owner names f.identity fields⟩]
      (addRecord owner names f.identity fields run₂) := by
  have hcovered : ∀ m ∈ [(⟨owner, recordDefinition owner names f.identity fields⟩ : Making)],
      ∃ p ∈ [(f, some names)], p.2 = some m.record.names :=
    List.forall_mem_singleton.2 ⟨_, List.mem_singleton_self _, rfl⟩
  cases hd : h.defines with
  | itself hnone _ =>
      refine ⟨List.forall_mem_singleton.2 ?_, hcovered, ?_⟩
      · exact .own (List.mem_singleton_self _) rfl hnone hnone
      · simp [ownNames?, recordDefinition, hnone]
  | owner hidentity _ _ =>
      refine ⟨List.forall_mem_singleton.2 ?_, hcovered, ?_⟩
      · exact .shared hidentity (ha.lookup (h.lookup_iff.2 (.inl ⟨hidentity, rfl⟩)))
      · simp [ownNames?, recordDefinition, hidentity]

end

theorem structTargets_cons {f : Field} {fs : List Field} {compiled : RecordField}
    {fields : List RecordField} : structTargets (f :: fs) (compiled :: fields) =
      (if compiled.type.isStructLeaf = true then [(f, compiled.names?)] else []) ++
        structTargets fs fields := by
  unfold structTargets
  rw [List.zip_cons_cons, List.filter_cons]
  split <;> rfl

mutual

theorem Resolves.shares {enclosing : String} {place : Place} {f : Field} {run run' : Run}
    {target : Target} {ms : List Making} :
    Resolves c enclosing place f run target ms run' → Tidy c run →
      Shares c ((f, target.names?) :: ms.flatMap Making.reached) ms run'
  | .document hnone hempty, _ => by
      refine shares_document (fun _ => hempty) ?_ _
      intro identity hidentity
      rw [hnone] at hidentity
      cases hidentity
  | .external hidentity _ hunowned _, _ => by
      refine shares_document ?_ ?_ _
      · intro hnone
        rw [hidentity] at hnone
        cases hnone
      · intro own hown
        rw [hidentity] at hown
        cases hown
        exact hunowned
  | .shared hidentity hlookup, _ => shares_shared hidentity hlookup
  | .held _ hannounce hr, ht => absurd hr (ht.reserve?_ne_none hannounce)
  | .made hdefines hannounce hr hfields, ht => by
      have hbegun := begun_of_reserve hdefines hannounce hr
      have hbelow := hfields.shares (hbegun.tidy ht)
      have ha := (hfields.advances (hbegun.tidy ht)).1
      -- the record is the last that is made, but its field is the first that is reached
      refine (hbelow.append (hbegun.shares ha) id).perm ?_
      rw [List.flatMap_append, List.flatMap_singleton]
      exact (List.perm_append_singleton _ _).trans (List.perm_append_comm.cons _)

theorem Compiles.shares {enclosing : String} {place : Place} {accessors constants : List String}
    {fs : List Field} {run run' : Run} {fields : List RecordField} {ms : List Making} :
    Compiles c enclosing place accessors constants fs run fields ms run' → Tidy c run →
      Shares c (structTargets fs fields ++ ms.flatMap Making.reached) ms run'
  | .nil, _ => shares_nil _
  | .plain _ hleaf _ hrest, ht => by
      have hshares := hrest.shares ht
      rw [structTargets_cons, if_neg]
      · exact hshares
      · exact Bool.eq_false_iff.1 hleaf
  | .struct _ hleaf hresolves _ hrest, ht => by
      have htidy := (hresolves.advances ht).1.tidy
      have hfirst := hresolves.shares ht
      have hlater := hrest.shares htidy
      have hkept := (hrest.advances htidy).1
      rw [structTargets_cons, if_pos]
      · refine (hfirst.append hlater hkept.lookup).perm ?_
        rw [List.flatMap_append]
        exact (List.perm_append_comm_assoc _ _ _).cons _
      · exact hleaf

end

theorem CompilesRoots.shares {roots : List Field} {run run' : Run}
    {targets : List ArtifactNames} {ms : List Making}
    (h : CompilesRoots c roots run targets ms run') (ht : Tidy c run) :
    Shares c (roots.zip (targets.map some) ++ ms.flatMap Making.reached) ms run' := by
  induction h with
  | nil => exact shares_nil _
  | cons _ hresolves hrest ih =>
      have htidy := (hresolves.advances ht).1.tidy
      have hkept := hrest.advances htidy
      refine ((hresolves.shares ht).append (ih htidy) hkept.lookup).perm ?_
      rw [List.flatMap_append]
      exact (List.perm_append_comm_assoc _ _ _).cons _

/-! ### Whole compilations -/

section

variable {ms : List Making} {run : Run} {f : Field}

theorem Advances.eq_of_name (h : Advances c start ms run) {m m' : Making} (hm : m ∈ ms)
    (hm' : m' ∈ ms) (heq : m.record.name = m'.record.name) : m = m' := by
  refine List.inj_on_of_nodup_map h.distinct hm hm' ?_
  rw [heq]

theorem Advances.nodup_ownNames (h : Advances c start ms run) :
    ((ms.filter (·.record.identity.isNone)).map (·.record.names)).Nodup := by
  have hnames : (ms.map (·.record.names)).Nodup := by
    refine List.Nodup.of_map (fun names => Text.lower names.record.name) ?_
    rw [List.map_map]
    exact h.distinct
  exact hnames.sublist (List.filter_sublist.map _)

/-- A field that points at a record points at a record that was made, under its own identity. -/
theorem Placed.exists_making (ha : Advances c start ms run) {names : ArtifactNames}
    (h : Placed c ms run f (some names)) :
    ∃ m ∈ ms, m.record.names = names ∧ m.record.identity = f.identity ∧
      (f.identity = none → m.owner = f) ∧
      ∀ {identity}, f.identity = some identity → c.forest.owner? identity = some m.owner := by
  cases h with
  | @own m hm howner hf hidentity =>
      refine ⟨m, hm, rfl, by rw [hf, hidentity], fun _ => howner, ?_⟩
      intro identity hsome
      rw [hf] at hsome
      cases hsome
  | @shared identity _ hf hlookup =>
      obtain hnone | ⟨m, hm, hnames, hidentity, howner⟩ := ha.opened hlookup
      · cases hnone
      · refine ⟨m, hm, hnames, by rw [hf, hidentity], ?_, ?_⟩
        · intro hnone
          rw [hf] at hnone
          cases hnone
        · intro own hown
          rw [hf] at hown
          cases hown
          exact howner

/-- A field with an identity points where the identity is registered. -/
theorem Placed.eq_lookup (ha : Advances c start ms run) {names? : Option ArtifactNames}
    (h : Placed c ms run f names?) {identity : String} (hf : f.identity = some identity) :
    names? = run.identities.lookup identity := by
  cases h with
  | nowhere _ hunowned =>
      cases hlookup : run.identities.lookup identity with
      | none => rfl
      | some names =>
          obtain hnone | ⟨m, _, _, _, howner⟩ := ha.opened hlookup
          · cases hnone
          · rw [hunowned hf] at howner
            cases howner
  | own _ _ hnone _ =>
      rw [hnone] at hf
      cases hf
  | shared hidentity hlookup =>
      rw [hf] at hidentity
      cases hidentity
      exact hlookup.symm

/-- Two fields that were reached point at one record only if they declare one identity. -/
theorem Shares.exact {reached : List (Field × Option ArtifactNames)}
    (h : Shares c reached ms run) (ha : Advances c start ms run) :
    reached.Pairwise fun p q => ∀ {names names'}, p.2 = some names → q.2 = some names' →
      names.record = names'.record →
        ∃ identity, p.1.identity = some identity ∧ q.1.identity = some identity := by
  have hown : (reached.filterMap ownNames?).Nodup := h.own.nodup_iff.2 ha.nodup_ownNames
  refine (List.pairwise_filterMap.1 hown).imp_of_mem ?_
  rintro ⟨f, _⟩ ⟨g, _⟩ hf hg hne names names' rfl rfl heq
  obtain ⟨m, hm, rfl, hidentity, _⟩ := (h.placed _ hf).exists_making ha
  obtain ⟨m', hm', rfl, hidentity', _⟩ := (h.placed _ hg).exists_making ha
  obtain rfl := ha.eq_of_name hm hm' heq
  cases hsome : m.record.identity with
  | some identity =>
      rw [hsome] at hidentity hidentity'
      exact ⟨identity, hidentity.symm, hidentity'.symm⟩
  | none =>
      -- without identities both records belong to one field, and these differ
      rw [hsome] at hidentity hidentity'
      exact absurd rfl (hne _ (if_pos hidentity.symm) _ (if_pos hidentity'.symm))

end

end Compile

/-! ### Catalogs -/

open Compile

/-- The fields with a struct leaf that a compilation comes to, each with the names it points at:
the roots, and the struct fields of the records that were made from their owners. -/
def reachedFields (roots : List Field) (targets : List ArtifactNames)
    (made : List (Field × Entry)) : List (Field × Option ArtifactNames) :=
  roots.zip (targets.map some) ++ made.flatMap fun p =>
    structTargets p.1.properties p.2.definition.fields

/-- Fields share a record exactly when they declare one identity. The entries are given with the
fields from whose nested fields they were made, the targets are those of the roots. -/
structure SharesExactly (c : Setting) (targets : List ArtifactNames)
    (made : List (Field × Entry)) : Prop where
  fields : ∀ p ∈ made, CompiledFrom c p.1 p.2.definition.fields
  covered : ∀ p ∈ made, ∃ q ∈ reachedFields c.forest.roots targets made,
    q.2 = some p.2.definition.names
  one : ∀ p ∈ reachedFields c.forest.roots targets made,
    ∀ q ∈ reachedFields c.forest.roots targets made, ∀ {identity : String},
      p.1.identity = some identity → q.1.identity = some identity → p.2 = q.2
  owned : ∀ p ∈ reachedFields c.forest.roots targets made, ∀ {identity owner},
    p.1.identity = some identity → c.forest.fields.find? (·.owns identity) = some owner →
      ∃ e, (owner, e) ∈ made ∧ e.definition.identity = some identity ∧
        p.2 = some e.definition.names
  own : ∀ p ∈ reachedFields c.forest.roots targets made,
    p.1.identity = none → p.1.properties ≠ [] →
      ∃ e, (p.1, e) ∈ made ∧ e.definition.identity = none ∧ p.2 = some e.definition.names
  exact : (reachedFields c.forest.roots targets made).Pairwise fun p q =>
    ∀ {names names'}, p.2 = some names → q.2 = some names' → names.record = names'.record →
      ∃ identity, p.1.identity = some identity ∧ q.1.identity = some identity

theorem structTargets_boxed (fs : List Field) (fields : List RecordField)
    (box : RecordField → Bool) :
    structTargets fs (fields.map fun f => { f with boxed := box f }) = structTargets fs fields := by
  induction fs generalizing fields with
  | nil => rfl
  | cons f rest ih =>
      cases fields with
      | nil => rfl
      | cons compiled fields =>
          rw [List.map_cons, structTargets_cons, structTargets_cons, ih]
          rfl

section

variable {c : Setting} {ms : List Making} {run : Run} {targets : List ArtifactNames}
  {roots : List QualifiedName} {groups : List CycleGroup} {entries : List Entry}

/-- The entries with the makings behind them. -/
theorem exists_pairs (h : entries.map Entry.definition =
    ms.map fun m => flagged roots groups m.record) :
    ∃ pairs : List (Making × Entry), pairs.map Prod.fst = ms ∧ pairs.map Prod.snd = entries ∧
      ∀ p ∈ pairs, p.2.definition = flagged roots groups p.1.record := by
  have hsame : List.Forall₂ (· = ·) (ms.map fun m => flagged roots groups m.record)
      (entries.map Entry.definition) := by
    rw [List.forall₂_eq_eq_eq]
    exact h.symm
  have haligned := List.forall₂_map_left_iff.1 (List.forall₂_map_right_iff.1 hsame)
  refine ⟨ms.zip entries, List.map_fst_zip haligned.length_eq.le,
    List.map_snd_zip haligned.length_eq.ge, ?_⟩
  rintro ⟨m, e⟩ hp
  exact (List.forall₂_zip haligned hp).symm

/-- Where the fields of the makings point is where the fields of the entries point. -/
theorem reachedFields_of_pairs {pairs : List (Making × Entry)}
    (h : ∀ p ∈ pairs, p.2.definition = flagged roots groups p.1.record) (fs : List Field) :
    reachedFields fs targets (pairs.map fun p => (p.1.owner, p.2)) =
      fs.zip (targets.map some) ++ (pairs.map Prod.fst).flatMap Making.reached := by
  unfold reachedFields
  rw [List.flatMap_map, List.flatMap_map]
  refine congrArg _ (List.flatMap_congr fun p hp => ?_)
  rw [h p hp]
  exact structTargets_boxed _ _ _

theorem sharesExactly_of_pairs {pairs : List (Making × Entry)}
    (h : ∀ p ∈ pairs, p.2.definition = flagged roots groups p.1.record)
    (ha : Advances c start (pairs.map Prod.fst) run)
    (hs : Shares c (c.forest.roots.zip (targets.map some) ++
      (pairs.map Prod.fst).flatMap Making.reached) (pairs.map Prod.fst) run) :
    SharesExactly c targets (pairs.map fun p => (p.1.owner, p.2)) := by
  have hentry : ∀ m ∈ pairs.map Prod.fst, ∃ e,
      (m.owner, e) ∈ pairs.map (fun p => (p.1.owner, p.2)) ∧
        e.definition.identity = m.record.identity ∧ e.definition.names = m.record.names := by
    intro m hm
    obtain ⟨p, hp, rfl⟩ := List.mem_map.1 hm
    refine ⟨p.2, List.mem_map_of_mem hp, ?_, ?_⟩
    · rw [h p hp]
      rfl
    · rw [h p hp]
      rfl
  rw [← reachedFields_of_pairs h] at hs
  constructor
  case fields =>
    intro p hp
    obtain ⟨q, hq, rfl⟩ := List.mem_map.1 hp
    rw [h q hq]
    exact (ha.made q.1 (List.mem_map_of_mem hq)).fields.boxed _
  case covered =>
    intro p hp
    obtain ⟨q, hq, rfl⟩ := List.mem_map.1 hp
    rw [h q hq]
    exact hs.covered q.1 (List.mem_map_of_mem hq)
  case one =>
    intro p hp q hq identity hp' hq'
    rw [(hs.placed p hp).eq_lookup ha hp', (hs.placed q hq).eq_lookup ha hq']
  case owned =>
    rintro ⟨f, names?⟩ hp identity owner hidentity howner
    rw [← Forest.owner?_eq_find?] at howner
    have hplaced := hs.placed _ hp
    cases names? with
    | none =>
        -- a field points nowhere only if its identity has no owner
        cases hplaced with
        | nowhere _ hunowned =>
            rw [hunowned hidentity] at howner
            cases howner
    | some names =>
        obtain ⟨m, hm, rfl, hrecord, _, hown⟩ := hplaced.exists_making ha
        rw [hown hidentity] at howner
        cases howner
        obtain ⟨e, he, heq, hnames⟩ := hentry m hm
        exact ⟨e, he, by rw [heq, hrecord]; exact hidentity, congrArg some hnames.symm⟩
  case own =>
    rintro ⟨f, names?⟩ hp hnone hne
    have hplaced := hs.placed _ hp
    cases names? with
    | none =>
        cases hplaced with
        | nowhere hempty _ => exact absurd (hempty hnone) hne
    | some names =>
        obtain ⟨m, hm, rfl, hrecord, hown, _⟩ := hplaced.exists_making ha
        obtain rfl := hown hnone
        obtain ⟨e, he, heq, hnames⟩ := hentry m hm
        exact ⟨e, he, by rw [heq, hrecord]; exact hnone, congrArg some hnames.symm⟩
  case exact => exact hs.exact ha

end

/-- The records of a compiled catalog with the owners that they were made from. -/
theorem Forest.exists_made {settings : Settings} {forest : Forest} {catalog : Catalog}
    (h : forest.compile settings = .ok catalog) : ∃ targets made run,
      compileRoots ⟨settings, forest⟩ start forest.roots =
        .ok (targets.map ArtifactNames.record, run) ∧
      made.map Prod.snd = catalog.entries ∧ SharesExactly ⟨settings, forest⟩ targets made := by
  obtain ⟨targets, ms, run, groups, hroots, hcourse, hrecords⟩ := course_of_compile h
  obtain ⟨pairs, rfl, hentries, hpairs⟩ := exists_pairs hrecords
  refine ⟨targets, pairs.map fun p => (p.1.owner, p.2), run, hroots, ?_, ?_⟩
  · rw [List.map_map]
    exact hentries
  · exact sharesExactly_of_pairs hpairs (hcourse.advances tidy_start) (hcourse.shares tidy_start)

/-- Compiling comes to an end whatever identities refer to each other: it does not matter how many
jumps are allowed, once they are as many as the fields of the schema, nor what would be done if
they ran out. And when it gives a catalog, fields share a record exactly when they declare one
identity. -/
theorem Forest.compile_sharesExactly (settings : Settings) (forest : Forest) :
    (∀ (stop : OpenOwner) {jumps : Nat}, forest.fieldCount ≤ jumps →
      ∀ (enclosing : String) (place : Place) (run : Run) {f : Field}, f.Within forest.roots →
        resolveStruct ⟨settings, forest⟩ (openOwnerOr ⟨settings, forest⟩ stop jumps) enclosing
            place run f =
          resolveStruct ⟨settings, forest⟩ (openOwner ⟨settings, forest⟩) enclosing place run f) ∧
    ∀ {catalog}, forest.compile settings = .ok catalog → ∃ targets made run,
      compileRoots ⟨settings, forest⟩ start forest.roots =
        .ok (targets.map ArtifactNames.record, run) ∧
      made.map Prod.snd = catalog.entries ∧ SharesExactly ⟨settings, forest⟩ targets made := by
  constructor
  · intro stop _ hjumps enclosing place run _ hf
    exact resolveStruct_jumps stop hjumps enclosing place run hf
  · intro catalog h
    exact exists_made h

/-- The customers among orders, reached from an order, from a root and from other customers. -/
theorem Forest.orders_sharesExactly : ∃ catalog, orders.compile {} = .ok catalog ∧
    catalog.entries.map (·.name.name) = ["Customer", "OrderLines", "Order"] ∧
    (∃ targets made run,
      compileRoots ⟨{}, orders⟩ start orders.roots =
        .ok (targets.map ArtifactNames.record, run) ∧
      made.map Prod.snd = catalog.entries ∧ SharesExactly ⟨{}, orders⟩ targets made) ∧
    ∀ stop : OpenOwner, ∀ root ∈ orders.roots,
      resolveStruct ⟨{}, orders⟩ (openOwnerOr ⟨{}, orders⟩ stop 6) "" [root.name] start root =
        resolveStruct ⟨{}, orders⟩ (openOwner ⟨{}, orders⟩) "" [root.name] start root := by
  obtain ⟨catalog, hc, hnames⟩ := orders_compiles
  obtain ⟨hends, hshares⟩ := compile_sharesExactly {} orders
  have hjumps : orders.fieldCount ≤ 6 := by decide
  exact ⟨catalog, hc, of_decide_eq_true hnames, hshares hc,
    fun stop root hroot => hends stop hjumps "" [root.name] start (.here hroot)⟩

end RecordCodec
