import RecordCodec.Proofs.Compile.Spellings
import RecordCodec.Proofs.Record.Fields

/-!
What builders build. The fields of a record that have a position are its slots, in the order of
their positions and, for one position, in the order of declaration; a builder gives values to slots
in this order and sets any field by name. A call is refused exactly if it names a field that is not
declared or has more values than there are slots. After calls none of which is refused the record
has the declared fields and nothing else, each with the value that was assigned to it last.
-/

namespace RecordCodec

/-! ### Stable sorting

Elements that are sorted alike stay in the order in which they were. -/

section

variable {α : Type} {a b : α} {xs : List α}

theorem pair_sublist_or (ha : a ∈ xs) (hb : b ∈ xs) (hne : a ≠ b) :
    [a, b].Sublist xs ∨ [b, a].Sublist xs := by
  induction xs with
  | nil => exact absurd ha List.not_mem_nil
  | cons x rest ih =>
      rcases List.mem_cons.1 ha with rfl | harest
      · have hbrest := (List.mem_cons.1 hb).resolve_left (Ne.symm hne)
        exact .inl (.cons_cons a (List.singleton_sublist.2 hbrest))
      · rcases List.mem_cons.1 hb with rfl | hbrest
        · exact .inr (.cons_cons b (List.singleton_sublist.2 harest))
        · exact (ih harest hbrest).imp (.cons x) (.cons x)

theorem not_pair_sublist_swap (hn : xs.Nodup) (h : [a, b].Sublist xs) : ¬[b, a].Sublist xs := by
  induction xs with
  | nil => exact fun _ => nomatch h
  | cons x rest ih =>
      obtain ⟨hx, hrest⟩ := List.nodup_cons.1 hn
      intro hswap
      cases h with
      | cons _ h =>
          cases hswap with
          | cons _ hswap => exact ih hrest h hswap
          | cons_cons _ hswap => exact hx (h.subset (by simp))
      | cons_cons _ h =>
          cases hswap with
          | cons _ hswap => exact hx (hswap.subset (by simp))
          | cons_cons _ hswap => exact hx (List.singleton_sublist.1 h)

theorem pairwise_mergeSort_stable {le : α → α → Bool}
    (htrans : ∀ a b c, le a b = true → le b c = true → le a c = true)
    (htotal : ∀ a b, (le a b || le b a) = true) (hn : xs.Nodup) :
    (xs.mergeSort le).Pairwise fun a b =>
      le a b = true ∧ (le b a = true → [a, b].Sublist xs) := by
  have hsorted := List.pairwise_mergeSort htrans htotal xs
  have hperm := xs.mergeSort_perm le
  refine List.pairwise_iff_forall_sublist.2 fun {a b} hab => ?_
  refine ⟨List.pairwise_iff_forall_sublist.1 hsorted hab, fun hle => ?_⟩
  have hnodup := hperm.nodup_iff.2 hn
  have hne : a ≠ b := by simpa using hnodup.sublist hab
  have ha : a ∈ xs := hperm.mem_iff.1 (hab.subset (by simp))
  have hb : b ∈ xs := hperm.mem_iff.1 (hab.subset (by simp))
  -- were they the other way round, sorting would have kept them so
  refine (pair_sublist_or ha hb hne).resolve_right fun hswap => ?_
  exact not_pair_sublist_swap hnodup hab (List.pair_sublist_mergeSort htrans htotal hle hswap)

end

/-! ### Slots -/

namespace RecordDefinition

/-- The first field has a position before that of the second one, or the same and is declared
before it. -/
def Precedes (r : RecordDefinition) (f g : RecordField) : Prop :=
  ∃ p q, f.position = some p ∧ g.position = some q ∧ (p < q ∨ p = q ∧ [f, g].Sublist r.fields)

/-- The fields with a position, each before those that it precedes. -/
structure Slots (r : RecordDefinition) (slots : List RecordField) : Prop where
  perm : slots.Perm (r.fields.filter (·.position.isSome))
  ordered : slots.Pairwise r.Precedes

end RecordDefinition

namespace Builder

/-- Fields are sorted by their positions; those that are sorted have one. -/
def earlier (f g : RecordField) : Bool := f.position.getD 0 ≤ g.position.getD 0

def slots (fields : List RecordField) : List RecordField :=
  (fields.filter (·.position.isSome)).mergeSort earlier

theorem map_name_slots (fields : List RecordField) :
    (positionalFields fields).map Prod.snd = (slots fields).map (·.name) := by
  have hpairs : (fields.filterMap fun f => f.position.map fun p => (p, f.name)) =
      (fields.filter (·.position.isSome)).map fun f => (f.position.getD 0, f.name) := by
    induction fields with
    | nil => rfl
    | cons f rest ih => cases hposition : f.position <;> simp [hposition, ih]
  have hsort := @List.map_mergeSort _ _ earlier (fun a b => decide (a.1 ≤ b.1))
    (fun f : RecordField => (f.position.getD 0, f.name)) (fields.filter (·.position.isSome))
    fun _ _ _ _ => rfl
  rw [positionalFields, hpairs, ← hsort, List.map_map]
  rfl

theorem slots_ofRecord {r : RecordDefinition} (hn : (r.fields.map (·.name)).Nodup) :
    r.Slots (slots r.fields) := by
  have hperm := (r.fields.filter (·.position.isSome)).mergeSort_perm earlier
  refine ⟨hperm, ?_⟩
  have hnodup : (r.fields.filter (·.position.isSome)).Nodup := (List.Nodup.of_map _ hn).filter _
  have htrans : ∀ f g h, earlier f g = true → earlier g h = true → earlier f h = true := by
    intro f g h hfg hgh
    simp only [earlier, decide_eq_true_eq] at hfg hgh ⊢
    exact UInt32.le_trans hfg hgh
  have htotal : ∀ f g, (earlier f g || earlier g f) = true := by
    intro f g
    simpa [earlier] using UInt32.le_total (f.position.getD 0) (g.position.getD 0)
  refine (pairwise_mergeSort_stable htrans htotal hnodup).imp_of_mem ?_
  intro f g hf hg hfg
  obtain ⟨p, hp⟩ := Option.isSome_iff_exists.1 (List.mem_filter.1 (hperm.mem_iff.1 hf)).2
  obtain ⟨q, hq⟩ := Option.isSome_iff_exists.1 (List.mem_filter.1 (hperm.mem_iff.1 hg)).2
  simp only [earlier, hp, hq, Option.getD_some, decide_eq_true_eq] at hfg
  refine ⟨p, q, hp, hq, ?_⟩
  by_cases hlt : p < q
  · exact .inl hlt
  · have hqp := UInt32.not_lt.1 hlt
    exact .inr ⟨UInt32.le_antisymm hfg.1 hqp, (hfg.2 hqp).trans List.filter_sublist⟩

/-! ### Calls -/

/-- What a builder can be asked to do. -/
inductive Call where
  | set (field : String) (value : Value)
  | positional (values : List Value)

namespace Call

/-- The field is declared, or there are enough slots. -/
def Fits (r : RecordDefinition) : Call → Prop
  | .set field _ => field ∈ r.fields.map (·.name)
  | .positional values => values.length ≤ (r.fields.filter (·.position.isSome)).length

/-- Why a call that does not fit is refused. -/
def refusal (r : RecordDefinition) : Call → Error
  | .set field _ => .unknownField r.name.text field
  | .positional _ =>
      let count := (r.fields.filter (·.position.isSome)).length
      .unknownField r.name.text ("<positional #" ++ Text.natText (count + 1) ++ ">")

/-- The fields that a call assigns with their values, the last one last. -/
def assigns (slots : List RecordField) : Call → List (String × Value)
  | .set field value => [(field, value)]
  | .positional values => (slots.map (·.name)).zip values

end Call

/-- What a call makes of the record that is being built. -/
def apply (b : Builder) (r : Record) : Call → Except Error Record
  | .set field value => b.set r field value
  | .positional values => b.setPositional r values

/-- Calls one after another, up to the first that is refused. -/
def run (b : Builder) (r : Record) : List Call → Except Error Record
  | [] => .ok r
  | call :: rest =>
      match b.apply r call with
      | .error e => .error e
      | .ok r => run b r rest

/-- The last value that the calls assign to a field. -/
def lastAssigned? (slots : List RecordField) (calls : List Call) (field : String) : Option Value :=
  Entries.get? field (calls.flatMap (·.assigns slots)).reverse

end Builder

/-! ### Assigning -/

namespace Record

def assign (r : Record) (pairs : List (String × Value)) : Record :=
  pairs.foldl (fun r p => r.set p.1 p.2) r

@[simp] theorem assign_nil (r : Record) : r.assign [] = r := rfl

@[simp] theorem assign_cons (r : Record) (p : String × Value) (pairs : List (String × Value)) :
    r.assign (p :: pairs) = (r.set p.1 p.2).assign pairs := rfl

@[simp] theorem assign_append (r : Record) (pairs later : List (String × Value)) :
    r.assign (pairs ++ later) = (r.assign pairs).assign later :=
  List.foldl_append

@[simp] theorem name_assign (r : Record) (pairs : List (String × Value)) :
    (r.assign pairs).name = r.name := by
  induction pairs generalizing r with
  | nil => rfl
  | cons p rest ih => rw [assign_cons, ih, name_set]

theorem fields_assign (r : Record) (pairs : List (String × Value)) :
    (r.assign pairs).fields =
      pairs.foldl (fun entries p => Entries.put p.1 p.2 entries) r.fields := by
  induction pairs generalizing r with
  | nil => rfl
  | cons p rest ih => exact ih (r.set p.1 p.2)

theorem complete_assign {fields : List RecordField} {r : Record} (h : Complete fields r.fields)
    {pairs : List (String × Value)} (hpairs : ∀ p ∈ pairs, p.1 ∈ fields.map (·.name)) :
    Complete fields (r.assign pairs).fields := by
  induction pairs generalizing r with
  | nil => exact h
  | cons p rest ih =>
      obtain ⟨hp, hrest⟩ := List.forall_mem_cons.1 hpairs
      obtain ⟨f, hf, hname⟩ := List.mem_map.1 hp
      rw [assign_cons]
      refine ih ?_ hrest
      rw [set, ← hname]
      exact h.put hf p.2

end Record

/-- A record that has exactly the fields has one entry for each of them. -/
theorem Complete.perm {fields : List RecordField} {entries : List (String × Value)}
    (h : Complete fields entries) (hn : (fields.map (·.name)).Nodup) {value : RecordField → Value}
    (hvalue : ∀ f ∈ fields, Entries.get? f.name entries = some (value f)) :
    entries.Perm (fields.map fun f => (f.name, value f)) := by
  have hentries : entries.Nodup :=
    List.Nodup.of_map Prod.fst ((Entries.pairwise_keys h.sorted).imp Std.ne_of_lt)
  have hfields : (fields.map fun f => (f.name, value f)).Nodup := by
    refine List.Nodup.of_map Prod.fst ?_
    rwa [List.map_map]
  refine (List.perm_ext_iff_of_nodup hentries hfields).2 fun p => ⟨fun hp => ?_, fun hp => ?_⟩
  · obtain ⟨f, hf, hname⟩ := List.mem_map.1 ((h.keys p.1).1 (List.mem_map_of_mem hp))
    have hget := hvalue f hf
    rw [hname, Entries.get?_of_mem h.sorted hp] at hget
    refine List.mem_map.2 ⟨f, hf, ?_⟩
    rw [hname, ← Option.some.inj hget]
  · obtain ⟨f, hf, rfl⟩ := List.mem_map.1 hp
    exact Entries.mem_of_get? (hvalue f hf)

/-! ### Builders of records -/

namespace Builder

theorem fill_eq (tooMany : Error) (record : Record) (slots : List String) (values : List Value) :
    fill tooMany record slots values =
      if values.length ≤ slots.length then .ok (record.assign (slots.zip values))
      else .error tooMany := by
  induction slots generalizing record values with
  | nil => cases values <;> rfl
  | cons slot slots ih =>
      cases values with
      | nil => rfl
      | cons value values => simp [fill, ih]

variable {r : RecordDefinition}

theorem length_slots (fields : List RecordField) :
    (slots fields).length = (fields.filter (·.position.isSome)).length :=
  (List.mergeSort_perm _ _).length_eq

theorem mem_slots_iff {fields : List RecordField} {f : RecordField} :
    f ∈ slots fields ↔ f ∈ fields ∧ f.position.isSome = true := by
  rw [slots, (List.mergeSort_perm _ _).mem_iff, List.mem_filter]

/-- A builder knows exactly the declared fields, be they slots or not. -/
theorem declares_ofRecord_iff {field : String} :
    (ofRecord r).declares field = true ↔ field ∈ r.fields.map (·.name) := by
  rw [declares, ofRecord, map_name_slots, List.contains_iff_mem, List.mem_append, List.mem_map,
    List.mem_map, List.mem_map]
  constructor
  · rintro (⟨f, hf, hname⟩ | ⟨f, hf, hname⟩)
    · exact ⟨f, (mem_slots_iff.1 hf).1, hname⟩
    · exact ⟨f, (List.mem_filter.1 hf).1, hname⟩
  · rintro ⟨f, hf, hname⟩
    cases hposition : f.position with
    | none => exact .inr ⟨f, List.mem_filter.2 ⟨hf, by simp [hposition]⟩, hname⟩
    | some p => exact .inl ⟨f, mem_slots_iff.2 ⟨hf, by simp [hposition]⟩, hname⟩

theorem apply_of_fits {call : Call} (h : call.Fits r) (record : Record) :
    (ofRecord r).apply record call = .ok (record.assign (call.assigns (slots r.fields))) := by
  cases call with
  | set field value => exact if_pos (declares_ofRecord_iff.2 h)
  | positional values =>
      rw [apply, setPositional, fill_eq, ofRecord, map_name_slots]
      refine if_pos ?_
      rw [List.length_map, length_slots]
      exact h

theorem apply_of_not_fits {call : Call} (h : ¬call.Fits r) (record : Record) :
    (ofRecord r).apply record call = .error (call.refusal r) := by
  cases call with
  | set field value => exact if_neg fun hdeclares => h (declares_ofRecord_iff.1 hdeclares)
  | positional values =>
      rw [apply, setPositional, fill_eq, ofRecord, map_name_slots, List.length_map, length_slots]
      exact if_neg h

theorem run_eq_ok_iff {calls : List Call} {record record' : Record} :
    (ofRecord r).run record calls = .ok record' ↔
      (∀ call ∈ calls, call.Fits r) ∧
        record' = record.assign (calls.flatMap (·.assigns (slots r.fields))) := by
  induction calls generalizing record with
  | nil => simp [run, eq_comm]
  | cons call rest ih =>
      rw [run, List.forall_mem_cons]
      by_cases hcall : call.Fits r
      · rw [apply_of_fits hcall]
        simp [ih, hcall]
      · rw [apply_of_not_fits hcall]
        simp [hcall]

theorem declared_of_assigns {call : Call} (h : call.Fits r) :
    ∀ p ∈ call.assigns (slots r.fields), p.1 ∈ r.fields.map (·.name) := by
  intro p hp
  cases call with
  | set field value =>
      obtain rfl := List.mem_singleton.1 hp
      exact h
  | positional values =>
      obtain ⟨f, hf, hname⟩ := List.mem_map.1 (List.of_mem_zip hp).1
      rw [← hname]
      exact List.mem_map_of_mem (mem_slots_iff.1 hf).1

end Builder

/-! ### Builders of a catalog -/

open Builder (Call lastAssigned?)

/-- The builder takes values for the slots of the entry's record and sets its other fields, refuses
what does not fit the record, and builds records of exactly the declared fields. -/
structure Entry.BuiltBy (e : Entry) (b : Builder) (slots : List RecordField) : Prop where
  order : e.definition.Slots slots
  positional : b.positional = slots.map (·.name)
  setters : b.setters = (e.definition.fields.filter (·.position.isNone)).map (·.name)
  accepts : ∀ record call, call.Fits e.definition →
    b.apply record call = .ok (record.assign (call.assigns slots))
  refuses : ∀ record call, ¬call.Fits e.definition →
    b.apply record call = .error (call.refusal e.definition)
  completes : ∀ calls, (∃ record, b.run e.decoder.initial calls = .ok record) ↔
    ∀ call ∈ calls, call.Fits e.definition
  fills : ∀ calls record, b.run e.decoder.initial calls = .ok record →
    record.name = e.name ∧ record.fields.Perm (e.definition.fields.map fun f =>
      (f.name, (lastAssigned? slots calls f.name).getD (f.default.getD .null)))

namespace Forest

variable {settings : Settings} {forest : Forest} {catalog : Catalog}

theorem builtBy_of_compile (h : forest.compile settings = .ok catalog) {e : Entry}
    (he : e ∈ catalog.entries) :
    e.BuiltBy (.ofRecord e.definition) (Builder.slots e.definition.fields) := by
  have hn := nodup_fieldNames_of_compile h he
  have hdecoder := (generated_of_compile h he).decoder_eq
  have hfields : e.decoder.fields = e.definition.fields.map RecordField.decodeField := by
    rw [hdecoder]
  constructor
  case order => exact Builder.slots_ofRecord hn
  case positional => exact Builder.map_name_slots e.definition.fields
  case setters => rfl
  case accepts => exact fun record _ hcall => Builder.apply_of_fits hcall record
  case refuses => exact fun record _ hcall => Builder.apply_of_not_fits hcall record
  case completes =>
    intro calls
    constructor
    · rintro ⟨record, hrun⟩
      exact (Builder.run_eq_ok_iff.1 hrun).1
    · intro hcalls
      exact ⟨_, Builder.run_eq_ok_iff.2 ⟨hcalls, rfl⟩⟩
  case fills =>
    intro calls record hrun
    obtain ⟨hcalls, rfl⟩ := Builder.run_eq_ok_iff.1 hrun
    refine ⟨?_, ?_⟩
    · rw [Record.name_assign, Decoder.name_initial, hdecoder]
    · have hcomplete := Record.complete_assign (Decoder.complete_initial hfields)
        (List.forall_mem_flatMap.2 fun call hcall => Builder.declared_of_assigns (hcalls call hcall))
      refine hcomplete.perm hn fun f hf => ?_
      rw [Record.fields_assign, Entries.get?_foldl_put, Decoder.get?_initial hfields hn hf]
      exact Option.or_some

theorem resolve_text_of_compile (h : forest.compile settings = .ok catalog) {e : Entry}
    (he : e ∈ catalog.entries) : catalog.resolve e.name.text = .ok e.name := by
  rw [Catalog.resolve, Catalog.resolve?_text (fun _ he' => scope_of_compile h he') he]

/-- Whichever way a root record is asked for, its builder fills exactly the declared fields. -/
theorem compile_builds (settings : Settings) (forest : Forest) :
    ∀ catalog, forest.compile settings = .ok catalog →
      ∀ e ∈ catalog.entries, e.definition.root = true →
        ∃ b slots, e.builder = some b ∧ e.BuiltBy b slots ∧
          catalog.resolve e.name.text = .ok e.name ∧
          ∀ spelling, catalog.resolve spelling = .ok e.name →
            catalog.builder spelling = .ok (b, e.decoder.initial) := by
  intro catalog h e he hroot
  have hbuilder : e.builder = some (.ofRecord e.definition) := by
    rw [builder_eq_of_compile h he, if_pos hroot]
  refine ⟨.ofRecord e.definition, Builder.slots e.definition.fields, hbuilder,
    builtBy_of_compile h he, resolve_text_of_compile h he, fun spelling hspelling => ?_⟩
  have hresolve : catalog.resolve? spelling = some e.name := by
    unfold Catalog.resolve at hspelling
    split at hspelling
    · cases hspelling
      assumption
    · cases hspelling
  rw [(Catalog.finds_of_resolve? (nodup_names_of_compile h) he hresolve).builder, hbuilder]

/-- A root with four slots, two of which have one position, between fields that have none. -/
def ticket : Forest where
  roots := [{ name := "ticket", properties := [
    { name := "note", type := some (.scalar .string), default := some (.string "none") },
    { name := "row", type := some (.scalar .string), position := some 7 },
    { name := "day", type := some (.scalar .string), position := some 4294967295 },
    { name := "hall", type := some (.scalar .string), position := some 0 },
    { name := "seat", type := some (.scalar .string), position := some 7 },
    { name := "price", type := some (.scalar .decimal) }] }]

theorem ticket_compiles : ∃ catalog, ticket.compile {} = .ok catalog ∧
    (catalog.entries.any fun e => e.definition.root &&
      decide ((e.definition.fields.filterMap fun f => f.position.map fun p => (p, f.name)) =
        [(7, "row"), (4294967295, "day"), (0, "hall"), (7, "seat")])) = true :=
  exists_catalog (by decide +kernel)

theorem ticket_builds : ∃ catalog, ticket.compile {} = .ok catalog ∧
    ∃ e ∈ catalog.entries, e.definition.root = true ∧
      ∃ b slots, e.builder = some b ∧ b.positional = ["hall", "row", "seat", "day"] ∧
        e.BuiltBy b slots := by
  obtain ⟨catalog, hc, hany⟩ := ticket_compiles
  obtain ⟨e, he, htest⟩ := List.any_eq_true.1 hany
  obtain ⟨hroot, hpairs⟩ := Bool.and_eq_true_iff.1 htest
  obtain ⟨b, slots, hb, hbuilt, _⟩ := compile_builds {} ticket catalog hc e he hroot
  refine ⟨catalog, hc, e, he, hroot, b, slots, hb, ?_, hbuilt⟩
  rw [builder_of_compile hc he hb, Builder.ofRecord, Builder.positionalFields,
    of_decide_eq_true hpairs]
  simp [List.mergeSort]

end Forest
end RecordCodec
