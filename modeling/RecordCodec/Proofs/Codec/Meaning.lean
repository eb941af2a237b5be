import RecordCodec.Proofs.Codec.Documents
import RecordCodec.Proofs.Codec.Fitting

/-!
What documents mean. `Means` says which value a document means under a plan, whatever the order of
its keys: a field of a record means what stands under its key, if it is the first field with that
key, and otherwise its default or null. A document means one value at most, and it fits the plan if
it means one. Adding an entry to a document adds one to the map, or sets one field of the record,
that it means.
-/

namespace RecordCodec

/-! ### Meaning -/

/-- What stands under the key of a field; nothing if another field comes first with that key. -/
def memberFor? (fields : List RecordField) (f : RecordField) (entries : List (String × Json)) :
    Option Json :=
  if fields.find? (·.wireKey = f.wireKey) = some f then Entries.get? f.wireKey entries else none

/-- The document means the value under the plan. -/
inductive Means (kinds : Kinds) : Plan QualifiedName → Json → Value → Prop
  | null {plan : Plan QualifiedName} : Means kinds plan .null .null
  | scalar {kind : ScalarKind} {j : Json} {v : Value} :
      readScalar kind j.firstToken = .ok (some v) → Means kinds (.scalar kind) j v
  | list {item : Plan QualifiedName} {items : List Json} {values : List Value} :
      items.length = values.length →
      (∀ (i : Nat) (j : Json) (v : Value), items[i]? = some j → values[i]? = some v →
        Means kinds item j v) →
      Means kinds (.list item) (.array items) (.list values)
  | map {value : Plan QualifiedName} {entries : List (String × Json)}
      {values : List (String × Value)} :
      Entries.Sorted values →
      (∀ key, Entries.get? key entries = none ↔ Entries.get? key values = none) →
      (∀ key j v, Entries.get? key entries = some j → Entries.get? key values = some v →
        Means kinds value j v) →
      Means kinds (.map value) (.object entries) (.map values)
  | document {j : Json} : j ≠ .null → Means kinds .document j (.document j)
  | record {name : QualifiedName} {fields : List RecordField} {entries : List (String × Json)}
      {values : List (String × Value)} :
      kinds name = some fields → Complete fields values →
      (∀ f ∈ fields, memberFor? fields f entries = none →
        Entries.get? f.name values = some (f.default.getD .null)) →
      (∀ f ∈ fields, ∀ j v, memberFor? fields f entries = some j →
        Entries.get? f.name values = some v → Means kinds f.plan j v) →
      Means kinds (.record name) (.object entries) (.record name values)

theorem readScalar_null {kind : ScalarKind} {v : Value} :
    readScalar kind .null ≠ .ok (some v) := by
  cases kind <;> nofun

/-- Items that are determined one by one are determined. -/
theorem items_unique {items : List Json} {values values' : List Value}
    (hlength : items.length = values.length) (hlength' : items.length = values'.length)
    (h : ∀ (i : Nat) (j : Json) (v w : Value), items[i]? = some j → values[i]? = some v →
      values'[i]? = some w → v = w) : values = values' := by
  refine List.ext_getElem? fun i => ?_
  cases hj : items[i]? with
  | none =>
      rw [List.getElem?_eq_none_iff] at hj
      rw [List.getElem?_eq_none (hlength ▸ hj), List.getElem?_eq_none (hlength' ▸ hj)]
  | some j =>
      obtain ⟨hi, _⟩ := List.getElem?_eq_some_iff.1 hj
      have hv := List.getElem?_eq_getElem (hlength ▸ hi : i < values.length)
      have hw := List.getElem?_eq_getElem (hlength' ▸ hi : i < values'.length)
      rw [hv, hw, h i j _ _ hj hv hw]

/-- Entries that are determined key by key are determined. -/
theorem entries_unique {entries : List (String × Json)} {values values' : List (String × Value)}
    (hsorted : Entries.Sorted values) (hsorted' : Entries.Sorted values')
    (habsent : ∀ key, Entries.get? key entries = none ↔ Entries.get? key values = none)
    (habsent' : ∀ key, Entries.get? key entries = none ↔ Entries.get? key values' = none)
    (h : ∀ key j v w, Entries.get? key entries = some j → Entries.get? key values = some v →
      Entries.get? key values' = some w → v = w) : values = values' := by
  refine Entries.ext_of_sorted hsorted hsorted' fun key => ?_
  cases hj : Entries.get? key entries with
  | none => rw [(habsent key).1 hj, (habsent' key).1 hj]
  | some j =>
      have hne : Entries.get? key entries ≠ none := hj ▸ Option.some_ne_none j
      obtain ⟨v, hv⟩ := Option.ne_none_iff_exists'.1 (mt (habsent key).2 hne)
      obtain ⟨w, hw⟩ := Option.ne_none_iff_exists'.1 (mt (habsent' key).2 hne)
      rw [hv, hw, h key j v w hj hv hw]

section

variable {kinds : Kinds}

/-- A document means one value at most. -/
theorem Means.unique {plan : Plan QualifiedName} {j : Json} {v : Value}
    (h : Means kinds plan j v) : ∀ {w : Value}, Means kinds plan j w → v = w := by
  induction h with
  | null =>
      intro w hw
      cases hw with
      | null => rfl
      | scalar hv => exact absurd hv readScalar_null
      | document hne => exact absurd rfl hne
  | scalar hv =>
      intro w hw
      cases hw with
      | null => exact absurd hv readScalar_null
      | scalar hw => exact Option.some.inj (Except.ok.inj (hv.symm.trans hw))
  | list hlength _ ih =>
      intro w hw
      cases hw with
      | list hlength' hitems' =>
          exact congrArg Value.list (items_unique hlength hlength' fun i j v w hj hv hw =>
            ih i j v hj hv (hitems' i j w hj hw))
  | map hsorted habsent _ ih =>
      intro w hw
      cases hw with
      | map hsorted' habsent' hentries' =>
          exact congrArg Value.map (entries_unique hsorted hsorted' habsent habsent'
            fun key j v w hj hv hw => ih key j v hj hv (hentries' key j w hj hw))
  | document hne =>
      intro w hw
      cases hw with
      | null => exact absurd rfl hne
      | document => rfl
  | record hk hc hkept _ ih =>
      intro w hw
      cases hw with
      | @record _ _ _ values' hk' hc' hkept' hfields' =>
          obtain rfl := Option.some.inj (hk.symm.trans hk')
          refine congrArg (Value.record _) (hc.ext hc' fun f hf => ?_)
          rename_i fields entries values _
          cases hj : memberFor? fields f entries with
          | none => rw [hkept f hf hj, hkept' f hf hj]
          | some j =>
              obtain ⟨v, hv⟩ := hc.exists_value hf
              obtain ⟨w, hw⟩ := hc'.exists_value hf
              rw [hv, hw, ih f hf j v hj hv (hfields' f hf j w hj hw)]

/-- What means something fits, if its objects are in key order. -/
theorem Means.fits {plan : Plan QualifiedName} {j : Json} {v : Value} (h : Means kinds plan j v)
    (hj : j.Ordered) : Fits kinds plan j := by
  induction h with
  | null => exact .null
  | @scalar kind j v hv =>
      have htokens : j.tokens = [j.firstToken] := by
        cases j with
        | array items => cases kind <;> cases hv
        | object entries => cases kind <;> cases hv
        | _ => rfl
      exact .scalar ((fitsScalar_iff htokens).2 ⟨v, hv⟩)
  | @list item items values hlength _ ih =>
      cases hj with
      | array hitems =>
          refine .list fun j hmem => ?_
          obtain ⟨i, hi, rfl⟩ := List.mem_iff_getElem.1 hmem
          exact ih i _ _ (List.getElem?_eq_getElem hi)
            (List.getElem?_eq_getElem (hlength ▸ hi)) (hitems _ hmem)
  | @map value entries values _ habsent _ ih =>
      cases hj with
      | object hsorted hentries =>
          refine .map fun p hp => ?_
          have hget := Entries.get?_of_mem hsorted hp
          cases hv : Entries.get? p.1 values with
          | none =>
              rw [(habsent p.1).2 hv] at hget
              cases hget
          | some v => exact ih p.1 p.2 v hget hv (hentries p hp)
  | document => exact .document _
  | @record name fields entries values hk hc _ _ ih =>
      cases hj with
      | object hsorted hentries =>
          refine .record hk fun p hp f hfirst => ?_
          have hf := List.mem_of_find?_eq_some hfirst
          have hkey : f.wireKey = p.1 := of_decide_eq_true (List.find?_some hfirst :)
          have hmember : memberFor? fields f entries = some p.2 := by
            rw [memberFor?, hkey, if_pos hfirst, Entries.get?_of_mem hsorted hp]
          obtain ⟨v, hv⟩ := hc.exists_value hf
          exact ih f hf p.2 v hmember hv (hentries p hp)

end

/-! ### Entries under way -/

/-- Entries of a document, and the entries of a map that they mean. -/
structure MeansEntries (kinds : Kinds) (value : Plan QualifiedName)
    (entries : List (String × Json)) (values : List (String × Value)) : Prop where
  sorted : Entries.Sorted values
  absent : ∀ key, Entries.get? key entries = none ↔ Entries.get? key values = none
  present : ∀ key j v, Entries.get? key entries = some j → Entries.get? key values = some v →
    Means kinds value j v

/-- Entries of a document, and the fields of a record that they mean. -/
structure MeansFields (kinds : Kinds) (fields : List RecordField)
    (entries : List (String × Json)) (values : List (String × Value)) : Prop where
  complete : Complete fields values
  absent : ∀ f ∈ fields, memberFor? fields f entries = none →
    Entries.get? f.name values = some (f.default.getD .null)
  present : ∀ f ∈ fields, ∀ j v, memberFor? fields f entries = some j →
    Entries.get? f.name values = some v → Means kinds f.plan j v

section

variable {kinds : Kinds} {entries : List (String × Json)} {values : List (String × Value)}
  {key : String} {j : Json} {v : Value}

theorem meansEntries_nil {value : Plan QualifiedName} : MeansEntries kinds value [] [] :=
  ⟨.nil, fun _ => ⟨fun _ => rfl, fun _ => rfl⟩, nofun⟩

theorem MeansEntries.put {value : Plan QualifiedName} (h : MeansEntries kinds value entries values)
    (hv : Means kinds value j v) :
    MeansEntries kinds value (Entries.put key j entries) (Entries.put key v values) := by
  refine ⟨Entries.sorted_put _ _ h.sorted, fun k => ?_, fun k j' v' hj hv' => ?_⟩
  · by_cases hk : key = k
    · subst hk
      simp
    · rw [Entries.get?_put_of_ne hk, Entries.get?_put_of_ne hk]
      exact h.absent k
  · by_cases hk : key = k
    · subst hk
      rw [Entries.get?_put_self] at hj hv'
      obtain rfl := Option.some.inj hj
      obtain rfl := Option.some.inj hv'
      exact hv
    · rw [Entries.get?_put_of_ne hk] at hj hv'
      exact h.present k j' v' hj hv'

theorem memberFor?_put {fields : List RecordField} {f : RecordField} :
    memberFor? fields f (Entries.put key j entries) =
      if fields.find? (·.wireKey = key) = some f then some j
      else memberFor? fields f entries := by
  have hkey : fields.find? (·.wireKey = key) = some f → key = f.wireKey :=
    fun h => (of_decide_eq_true (List.find?_some h :)).symm
  unfold memberFor?
  by_cases hsame : key = f.wireKey
  · subst hsame
    rw [Entries.get?_put_self]
    split <;> rfl
  · rw [if_neg (mt hkey hsame), Entries.get?_put_of_ne hsame]

theorem meansFields_initial {fields : List RecordField} (hn : (fields.map (·.name)).Nodup)
    {decoder : Decoder} (hd : decoder.fields = fields.map RecordField.decodeField) :
    MeansFields kinds fields [] decoder.initial.fields := by
  have hnone : ∀ f, memberFor? fields f [] = none := by
    intro f
    unfold memberFor?
    split <;> rfl
  refine ⟨Decoder.complete_initial hd, fun f hf _ => Decoder.get?_initial hd hn hf, ?_⟩
  intro f _ j v hj
  rw [hnone] at hj
  cases hj

/-- The value under a declared key goes to the first field with the key. -/
theorem MeansFields.set {fields : List RecordField} {r : Record}
    (h : MeansFields kinds fields entries r.fields) (hn : (fields.map (·.name)).Nodup)
    {f : RecordField} (hfirst : fields.find? (·.wireKey = key) = some f)
    (hv : Means kinds f.plan j v) :
    MeansFields kinds fields (Entries.put key j entries) (r.set f.name v).fields := by
  have hf := List.mem_of_find?_eq_some hfirst
  have hmember : ∀ g, memberFor? fields g (Entries.put key j entries) =
      if f = g then some j else memberFor? fields g entries := by
    intro g
    rw [memberFor?_put, hfirst]
    simp only [Option.some.injEq]
  refine ⟨h.complete.put hf v, fun g hg hnone => ?_, fun g hg j' v' hj hv' => ?_⟩
  · rw [hmember] at hnone
    split at hnone
    · cases hnone
    · rename_i hne
      rw [get?_set_field hn hf hg, if_neg hne]
      exact h.absent g hg hnone
  · rw [hmember] at hj
    rw [get?_set_field hn hf hg] at hv'
    split at hj
    · rename_i heq
      subst heq
      rw [if_pos rfl] at hv'
      obtain rfl := Option.some.inj hj
      obtain rfl := Option.some.inj hv'
      exact hv
    · rename_i hne
      rw [if_neg hne] at hv'
      exact h.present g hg j' v' hj hv'

/-- A value that no field takes leaves the record as it is. -/
theorem MeansFields.skip {fields : List RecordField}
    (h : MeansFields kinds fields entries values)
    (hnone : fields.find? (·.wireKey = key) = none) :
    MeansFields kinds fields (Entries.put key j entries) values := by
  have hsame : ∀ f, memberFor? fields f (Entries.put key j entries) =
      memberFor? fields f entries := by
    intro f
    rw [memberFor?_put, hnone, if_neg (Option.some_ne_none f).symm]
  refine ⟨h.complete, fun f hf hj => ?_, fun f hf j' v' hj hv' => ?_⟩
  · exact h.absent f hf (hsame f ▸ hj)
  · exact h.present f hf j' v' (hsame f ▸ hj) hv'

end

end RecordCodec
