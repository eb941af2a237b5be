import RecordCodec.Proofs.Compile.Steps
import RecordCodec.Proofs.Naming.Fresh

/-!
What a course adds to a run. In a tidy run every reserved name was claimed and every registered
name is reserved, so that the name of a new record, freshly claimed, is free. A course from a tidy
run leads to a tidy run; it adds the records it made, under names that differ in more than case
from each other and from all earlier ones, each with the codecs generated from its fields, and
every record that a made field points at is reserved by the time the course ends.
-/

namespace RecordCodec

/-! ### Slots -/

namespace Reservations

theorem holds_iff {r : Reservations} {name : QualifiedName} :
    r.holds name = true ↔ ∃ pair?, (name, pair?) ∈ r.slots := by
  simp [holds]

theorem holds_of_mem {r : Reservations} {slot : QualifiedName × Option CodecPair}
    (h : slot ∈ r.slots) : r.holds slot.1 = true :=
  holds_iff.2 ⟨slot.2, h⟩

theorem reserve?_eq_some_iff {r r' : Reservations} {name : QualifiedName} :
    r.reserve? name = some r' ↔ r.holds name = false ∧ r' = ⟨(name, none) :: r.slots⟩ := by
  unfold reserve?
  split
  · rename_i hholds
    simp [hholds]
  · rename_i hholds
    rw [Option.some_inj, @eq_comm _ _ r']
    simp [hholds]

theorem mem_slots_fill {r : Reservations} {pair : CodecPair}
    {slot : QualifiedName × Option CodecPair} :
    slot ∈ (r.fill pair).slots ↔
      slot = (pair.decoder.record, some pair) ∨ slot ∈ r.slots ∧ slot.1 ≠ pair.decoder.record := by
  simp [fill, without]

end Reservations

namespace Compile

variable {c : Setting}

/-- What is held under the name of a made record: the codecs generated from its fields. -/
def Making.slot (m : Making) : QualifiedName × Option CodecPair :=
  (m.record.name, some (.generate m.record.names m.record.fields))

/-- The owner of the identity of a field is the field from which its record is made. -/
theorem Defines.owner?_eq {f owner : Field} {run : Run} {identity : String}
    (h : Defines c run f owner) (hf : f.identity = some identity) :
    c.forest.owner? identity = some owner := by
  cases h with
  | itself hnone _ => rw [hnone] at hf; cases hf
  | owner hidentity _ howner =>
      rw [hf] at hidentity
      cases hidentity
      exact howner

/-! ### Tidy runs -/

/-- The names are those of a record whose name is reserved. -/
structure Known (c : Setting) (run : Run) (names : ArtifactNames) : Prop where
  held : run.codecs.holds names.record = true
  style : ∃ simple, names = c.settings.naming.artifactNames simple

theorem Known.mono {run run' : Run} {names : ArtifactNames} (h : Known c run names)
    (hholds : ∀ {name}, run.codecs.holds name = true → run'.codecs.holds name = true) :
    Known c run' names :=
  ⟨hholds h.held, h.style⟩

structure Tidy (c : Setting) (run : Run) : Prop where
  claimed : ∀ {name}, run.codecs.holds name = true → run.typeNames.contains name.name = true
  known : ∀ {identity names}, run.identities.lookup identity = some names → Known c run names

theorem tidy_start : Tidy c start := by
  refine ⟨?_, ?_⟩
  · intro name hholds
    cases hholds
  · intro identity names hlookup
    cases hlookup

/-! ### Beginning a record -/

/-- From `run` to `run'` a record was begun for a field: its names were claimed, registered under
the field's identity and reserved. -/
structure Begun (c : Setting) (f owner : Field) (run : Run) (names : ArtifactNames)
    (run' : Run) : Prop where
  defines : Defines c run f owner
  style : ∃ simple, names = c.settings.naming.artifactNames simple
  free : ¬run.typeNames.contains names.record.name = true
  contains_iff {name : String} : run'.typeNames.contains name = true ↔
    run.typeNames.contains name = true ∨ Text.lower name = Text.lower names.record.name
  identities : run'.identities = (f.identity.map (·, names)).toList ++ run.identities
  slots : run'.codecs.slots = (names.record, none) :: run.codecs.slots
  records : run'.records = run.records

section

variable {f owner : Field} {enclosing : String} {run run₁ : Run} {names : ArtifactNames}

theorem claimed_of_announce {identity : Option String} {field : String}
    (h : c.announce identity enclosing field run = (names, run₁)) :
    ∃ simple typeNames, Naming.UsedNames.Claimed run.typeNames simple typeNames ∧
      names = c.settings.naming.artifactNames simple ∧
      run₁ = { run with
        typeNames, identities := (identity.map (·, names)).toList ++ run.identities } := by
  cases h
  exact ⟨_, _, Naming.UsedNames.claimed_of_claim rfl, rfl, rfl⟩

theorem begun_of_reserve {codecs : Reservations} (hf : Defines c run f owner)
    (ha : c.announce f.identity enclosing f.name run = (names, run₁))
    (hr : run₁.codecs.reserve? names.record = some codecs) :
    Begun c f owner run names { run₁ with codecs } := by
  obtain ⟨simple, typeNames, hclaimed, rfl, rfl⟩ := claimed_of_announce ha
  obtain ⟨_, rfl⟩ := Reservations.reserve?_eq_some_iff.1 hr
  exact ⟨hf, ⟨simple, rfl⟩, hclaimed.free, hclaimed.contains_iff, rfl, rfl, rfl⟩

/-- In a tidy run no name that was just claimed is reserved. -/
theorem Tidy.reserve?_ne_none (h : Tidy c run) {identity : Option String} {field : String}
    (ha : c.announce identity enclosing field run = (names, run₁)) :
    run₁.codecs.reserve? names.record ≠ none := by
  obtain ⟨simple, typeNames, hclaimed, rfl, rfl⟩ := claimed_of_announce ha
  intro hr
  unfold Reservations.reserve? at hr
  split at hr
  · rename_i hholds
    have hused := h.claimed hholds
    exact hclaimed.free hused
  · cases hr

end

namespace Begun

variable {f owner : Field} {run run' : Run} {names : ArtifactNames}

theorem holds_iff (h : Begun c f owner run names run') {name : QualifiedName} :
    run'.codecs.holds name = true ↔ name = names.record ∨ run.codecs.holds name = true := by
  rw [Reservations.holds, h.slots, @eq_comm _ name]
  simp [Reservations.holds]

theorem lookup_iff (h : Begun c f owner run names run') {identity : String}
    {other : ArtifactNames} :
    run'.identities.lookup identity = some other ↔
      f.identity = some identity ∧ other = names ∨ run.identities.lookup identity = some other := by
  rw [h.identities]
  cases h.defines with
  | itself hidentity _ => simp [hidentity]
  | @owner own _ hidentity hnew _ =>
      rw [hidentity]
      by_cases heq : identity = own
      · subst heq
        simp [hnew, eq_comm]
      · have hbeq : (identity == own) = false := beq_eq_false_iff_ne.2 heq
        simp [List.lookup_cons, hbeq, Ne.symm heq]

theorem known (h : Begun c f owner run names run') : Known c run' names :=
  ⟨h.holds_iff.2 (.inl rfl), h.style⟩

theorem tidy (h : Begun c f owner run names run') (ht : Tidy c run) : Tidy c run' where
  claimed := by
    intro name hholds
    obtain rfl | hholds := h.holds_iff.1 hholds
    · exact h.contains_iff.2 (.inr rfl)
    · exact h.contains_iff.2 (.inl (ht.claimed hholds))
  known := by
    intro identity other hlookup
    obtain ⟨_, rfl⟩ | hlookup := h.lookup_iff.1 hlookup
    · exact h.known
    · exact (ht.known hlookup).mono fun hholds => h.holds_iff.2 (.inr hholds)

end Begun

/-! ### Advances -/

/-- A made record was made from its owner, and what its fields point at is known. -/
structure Made (c : Setting) (run : Run) (m : Making) : Prop where
  known : Known c run m.record.names
  fields : CompiledFrom c m.owner m.record.fields
  targets : ∀ f ∈ m.record.fields, ∀ {names}, f.names? = some names → Known c run names

theorem Made.mono {run run' : Run} {m : Making} (h : Made c run m)
    (hholds : ∀ {name}, run.codecs.holds name = true → run'.codecs.holds name = true) :
    Made c run' m :=
  ⟨h.known.mono hholds, h.fields, fun f hf _ hnames => (h.targets f hf hnames).mono hholds⟩

/-- The identity of a made record, registered with its names and owned by its owner. -/
def Making.Opens (c : Setting) (m : Making) (identity : String) (names : ArtifactNames) : Prop :=
  m.record.names = names ∧ m.record.identity = some identity ∧
    c.forest.owner? identity = some m.owner

/-- From `run` to `run'` these records were made. -/
structure Advances (c : Setting) (run : Run) (ms : List Making) (run' : Run) : Prop where
  tidy : Tidy c run'
  records : run'.records = run.records ++ ms.map (·.record)
  mem_slots_iff {slot : QualifiedName × Option CodecPair} :
    slot ∈ run'.codecs.slots ↔ slot ∈ run.codecs.slots ∨ ∃ m ∈ ms, slot = m.slot
  contains {name : String} :
    run.typeNames.contains name = true → run'.typeNames.contains name = true
  free : ∀ m ∈ ms, ¬run.typeNames.contains m.record.name.name = true
  distinct : (ms.map fun m => Text.lower m.record.name.name).Nodup
  lookup {identity : String} {names : ArtifactNames} :
    run.identities.lookup identity = some names → run'.identities.lookup identity = some names
  opened {identity : String} {names : ArtifactNames} :
    run'.identities.lookup identity = some names →
      run.identities.lookup identity = some names ∨ ∃ m ∈ ms, m.Opens c identity names
  made : ∀ m ∈ ms, Made c run' m

namespace Advances

variable {run run₁ run' : Run} {ms ms' : List Making}

theorem refl (h : Tidy c run) : Advances c run [] run where
  tidy := h
  records := by simp
  mem_slots_iff := by simp
  contains := id
  free := by simp
  distinct := List.nodup_nil
  lookup := id
  opened := .inl
  made := by simp

theorem holds (h : Advances c run ms run') {name : QualifiedName}
    (hholds : run.codecs.holds name = true) : run'.codecs.holds name = true := by
  obtain ⟨pair?, hslot⟩ := Reservations.holds_iff.1 hholds
  exact Reservations.holds_iff.2 ⟨pair?, h.mem_slots_iff.2 (.inl hslot)⟩

theorem contains_made (h : Advances c run ms run') {m : Making} (hm : m ∈ ms) :
    run'.typeNames.contains m.record.name.name = true :=
  h.tidy.claimed (h.made m hm).known.held

theorem trans (h : Advances c run ms run₁) (h' : Advances c run₁ ms' run') :
    Advances c run (ms ++ ms') run' where
  tidy := h'.tidy
  records := by rw [h'.records, h.records, List.map_append, List.append_assoc]
  mem_slots_iff := by
    intro slot
    rw [h'.mem_slots_iff, h.mem_slots_iff, or_assoc]
    simp [or_and_right, exists_or]
  contains := h'.contains ∘ h.contains
  free := by
    intro m hm
    obtain hm | hm := List.mem_append.1 hm
    · exact h.free m hm
    · exact fun hused => h'.free m hm (h.contains hused)
  distinct := by
    rw [List.map_append]
    refine List.nodup_append.2 ⟨h.distinct, h'.distinct, ?_⟩
    intro first hfirst second hsecond heq
    -- the names of the first records are in use when those of the later ones are claimed
    obtain ⟨m, hm, rfl⟩ := List.mem_map.1 hfirst
    obtain ⟨m', hm', rfl⟩ := List.mem_map.1 hsecond
    have hused := Naming.UsedNames.contains_iff.1 (h.contains_made hm)
    rw [heq] at hused
    exact h'.free m' hm' (Naming.UsedNames.contains_iff.2 hused)
  lookup := h'.lookup ∘ h.lookup
  opened := by
    intro identity names hlookup
    obtain hlookup | ⟨m, hm, hopens⟩ := h'.opened hlookup
    · obtain hlookup | ⟨m, hm, hopens⟩ := h.opened hlookup
      · exact .inl hlookup
      · exact .inr ⟨m, List.mem_append_left _ hm, hopens⟩
    · exact .inr ⟨m, List.mem_append_right _ hm, hopens⟩
  made := by
    intro m hm
    obtain hm | hm := List.mem_append.1 hm
    · exact (h.made m hm).mono h'.holds
    · exact h'.made m hm

end Advances

/-! ### Finishing a record -/

section

variable {owner f : Field} {names : ArtifactNames} {identity : Option String}
  {fields : List RecordField} {run run₁ run₂ : Run} {ms : List Making}

theorem holds_addRecord {name : QualifiedName} :
    (addRecord owner names identity fields run).codecs.holds name = true ↔
      name = names.record ∨ run.codecs.holds name = true := by
  constructor
  · intro h
    obtain ⟨pair?, hslot⟩ := Reservations.holds_iff.1 h
    obtain heq | ⟨hslot, _⟩ := Reservations.mem_slots_fill.1 hslot
    · exact .inl (congrArg Prod.fst heq)
    · exact .inr (Reservations.holds_of_mem hslot)
  · intro h
    by_cases hname : name = names.record
    · exact Reservations.holds_iff.2
        ⟨_, Reservations.mem_slots_fill.2 (.inl (congrArg (·, some _) hname))⟩
    · obtain ⟨pair?, hslot⟩ := Reservations.holds_iff.1 (h.resolve_left hname)
      exact Reservations.holds_iff.2 ⟨pair?, Reservations.mem_slots_fill.2 (.inr ⟨hslot, hname⟩)⟩

theorem Tidy.addRecord (h : Tidy c run) (hnames : Known c run names) :
    Tidy c (Compile.addRecord owner names identity fields run) where
  claimed := by
    intro name hholds
    obtain rfl | hholds := holds_addRecord.1 hholds
    · exact h.claimed hnames.held
    · exact h.claimed hholds
  known := fun hlookup => (h.known hlookup).mono fun hholds => holds_addRecord.2 (.inr hholds)

theorem mem_slots_addRecord {slot : QualifiedName × Option CodecPair} :
    slot ∈ (addRecord owner names identity fields run).codecs.slots ↔
      slot = (names.record, some (.generate names fields)) ∨
        slot ∈ run.codecs.slots ∧ slot.1 ≠ names.record :=
  Reservations.mem_slots_fill

/-- The records made below a record have names that were free after its own was claimed. -/
theorem Begun.lower_ne (h : Begun c f owner run names run₁) (ha : Advances c run₁ ms run₂)
    {m : Making} (hm : m ∈ ms) :
    Text.lower m.record.name.name ≠ Text.lower names.record.name :=
  fun heq => ha.free m hm (h.contains_iff.2 (.inr heq))

theorem Begun.mem_slots_iff (h : Begun c f owner run names run₁) (ht : Tidy c run)
    (ha : Advances c run₁ ms run₂) {slot : QualifiedName × Option CodecPair} :
    slot ∈ (addRecord owner names f.identity fields run₂).codecs.slots ↔
      slot ∈ run.codecs.slots ∨
        ∃ m ∈ ms ++ [⟨owner, recordDefinition owner names f.identity fields⟩],
          slot = Making.slot m := by
  rw [mem_slots_addRecord, ha.mem_slots_iff, h.slots]
  -- filling the slot of the record leaves the others, which are under other names
  constructor
  · rintro (rfl | ⟨hslot | ⟨m, hm, rfl⟩, hne⟩)
    · exact .inr ⟨_, List.mem_append_right _ List.mem_cons_self, rfl⟩
    · obtain rfl | hslot := List.mem_cons.1 hslot
      · exact absurd rfl hne
      · exact .inl hslot
    · exact .inr ⟨m, List.mem_append_left _ hm, rfl⟩
  · rintro (hslot | ⟨m, hm, rfl⟩)
    · refine .inr ⟨.inl (List.mem_cons_of_mem _ hslot), fun heq => ?_⟩
      have hused := ht.claimed (Reservations.holds_of_mem hslot)
      rw [heq] at hused
      exact h.free hused
    · obtain hm | hm := List.mem_append.1 hm
      · refine .inr ⟨.inr ⟨m, hm, rfl⟩, fun heq => h.lower_ne ha hm ?_⟩
        rw [show m.record.name = names.record from heq]
      · rw [List.mem_singleton.1 hm]
        exact .inl rfl

theorem Begun.advances (h : Begun c f owner run names run₁) (ht : Tidy c run)
    (ha : Advances c run₁ ms run₂) (hfields : CompiledFrom c owner fields)
    (htargets : ∀ g ∈ fields, ∀ {others}, g.names? = some others → Known c run₂ others) :
    Advances c run (ms ++ [⟨owner, recordDefinition owner names f.identity fields⟩])
      (addRecord owner names f.identity fields run₂) := by
  have hnames : Known c run₂ names := h.known.mono ha.holds
  have hkept : ∀ {name}, run₂.codecs.holds name = true →
      (addRecord owner names f.identity fields run₂).codecs.holds name = true :=
    fun hholds => holds_addRecord.2 (.inr hholds)
  refine ⟨ha.tidy.addRecord hnames, ?_, h.mem_slots_iff ht ha, ?_, ?_, ?_, ?_, ?_, ?_⟩
  · simp [addRecord, ha.records, h.records]
  · exact fun hused => ha.contains (h.contains_iff.2 (.inl hused))
  · intro m hm
    obtain hm | hm := List.mem_append.1 hm
    · exact fun hused => ha.free m hm (h.contains_iff.2 (.inl hused))
    · rw [List.mem_singleton.1 hm]
      exact h.free
  · rw [List.map_append]
    refine List.nodup_append.2 ⟨ha.distinct, List.nodup_singleton _, ?_⟩
    intro first hfirst second hsecond
    obtain ⟨m, hm, rfl⟩ := List.mem_map.1 hfirst
    rw [List.mem_singleton.1 hsecond]
    exact h.lower_ne ha hm
  · exact fun hlookup => ha.lookup (h.lookup_iff.2 (.inr hlookup))
  · intro own others hlookup
    obtain hlookup | ⟨m, hm, hopens⟩ := ha.opened hlookup
    · obtain ⟨hidentity, rfl⟩ | hlookup := h.lookup_iff.1 hlookup
      · refine .inr ⟨_, List.mem_append_right _ List.mem_cons_self, rfl, hidentity, ?_⟩
        exact h.defines.owner?_eq hidentity
      · exact .inl hlookup
    · exact .inr ⟨m, List.mem_append_left _ hm, hopens⟩
  · intro m hm
    obtain hm | hm := List.mem_append.1 hm
    · exact (ha.made m hm).mono hkept
    · rw [List.mem_singleton.1 hm]
      exact ⟨hnames.mono hkept, hfields, fun g hg _ hothers => (htargets g hg hothers).mono hkept⟩

end

/-! ### Courses -/

mutual

theorem Resolves.advances {enclosing : String} {place : Place} {f : Field} {run run' : Run}
    {target : Target} {ms : List Making} :
    Resolves c enclosing place f run target ms run' → Tidy c run →
      Advances c run ms run' ∧ ∀ {names}, target.names? = some names → Known c run' names
  | .document _ _, ht => ⟨.refl ht, nofun⟩
  | .external _ _ _ _, ht => ⟨.refl ht, nofun⟩
  | .shared _ hlookup, ht => by
      refine ⟨.refl ht, ?_⟩
      rintro names ⟨⟩
      exact ht.known hlookup
  | .held _ hannounce hr, ht => absurd hr (ht.reserve?_ne_none hannounce)
  | .made hdefines hannounce hr hfields, ht => by
      -- what the fields point at is reserved below the record, before the record is finished
      have hbegun := begun_of_reserve hdefines hannounce hr
      obtain ⟨ha, htargets⟩ := hfields.advances (hbegun.tidy ht)
      refine ⟨hbegun.advances ht ha hfields.compiledFields htargets, ?_⟩
      rintro names ⟨⟩
      exact (hbegun.known.mono ha.holds).mono fun hholds => holds_addRecord.2 (.inr hholds)

theorem Compiles.advances {enclosing : String} {place : Place} {accessors constants : List String}
    {fs : List Field} {run run' : Run} {fields : List RecordField} {ms : List Making} :
    Compiles c enclosing place accessors constants fs run fields ms run' → Tidy c run →
      Advances c run ms run' ∧
        ∀ g ∈ fields, ∀ {names}, g.names? = some names → Known c run' names
  | .nil, ht => ⟨.refl ht, by simp⟩
  | .plain _ _ _ hrest, ht => by
      obtain ⟨ha, htargets⟩ := hrest.advances ht
      refine ⟨ha, List.forall_mem_cons.2 ⟨?_, htargets⟩⟩
      rintro names ⟨⟩
  | .struct _ _ hresolves _ hrest, ht => by
      obtain ⟨ha, htarget⟩ := hresolves.advances ht
      obtain ⟨ha', htargets⟩ := hrest.advances ha.tidy
      refine ⟨ha.trans ha', List.forall_mem_cons.2 ⟨?_, htargets⟩⟩
      exact fun hnames => (htarget hnames).mono ha'.holds

end

theorem CompilesRoots.advances {roots : List Field} {run run' : Run}
    {targets : List ArtifactNames} {ms : List Making}
    (h : CompilesRoots c roots run targets ms run') (ht : Tidy c run) :
    Advances c run ms run' := by
  induction h with
  | nil => exact .refl ht
  | cons _ hresolves _ ih =>
      obtain ⟨ha, _⟩ := hresolves.advances ht
      exact ha.trans (ih ha.tidy)

end Compile
end RecordCodec
