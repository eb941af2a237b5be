import RecordCodec.Proofs.Json.Literals
import RecordCodec.Proofs.Json.Spelling
import RecordCodec.Proofs.Json.Text
import RecordCodec.Proofs.Lookup
import RecordCodec.Proofs.Schema.TypeText
import RecordCodec.Proofs.Schema.Within
import RecordCodec.Schema.FieldJson

/-!
Fields as documents. The document of a field holds what the field declares and nothing else, and
reading it gives every attribute back, nested fields included; only a default or sample is what the
reader takes it for. Read as they stand, fields come back unchanged unless a default or sample is
null. The roots of a schema come back unchanged exactly if, besides, every default and sample is
settled: no number has another literal as a machine number, and no object begins with the number
key.
-/

namespace RecordCodec

open Text (digitsValue natText)

/-! ### Settled literals -/

namespace Numeral

variable {n : Numeral} {p : Parts}

theorem settled_of_settledChars? (hp : read? n.text.toList = some p)
    (h : settledChars? p = none) : n.settled = n := by
  simp [settled, hp, h]

/-- No floating-point number is read from the literal: it has an exponent, or it is an integer of up
to 128 bits. -/
def Parts.NoFloat (p : Parts) : Prop :=
  p.exponent.isSome = true ∨
    p.fraction = [] ∧ isMachineInteger p.negative (digitsValue p.whole) = true

/-- Of these literals only zero with a sign is not settled. -/
theorem settled_eq_self_iff (hp : read? n.text.toList = some p) (h : p.NoFloat) :
    n.settled = n ↔ n.text ≠ "-0" := by
  have htext : String.ofList p.chars = n.text := by
    simpa [normalForm?, hp] using n.normal
  constructor
  · intro hsettled hzero
    have hn : n = ⟨"-0", by decide +kernel⟩ := text_injective hzero
    rw [hn] at hsettled
    exact absurd hsettled (by decide +kernel)
  · intro hzero
    refine settled_of_settledChars? hp ?_
    cases hexponent : p.exponent with
    | some e => simp [settledChars?, hexponent]
    | none =>
        obtain ⟨hfraction, hinteger⟩ := h.resolve_left (by simp [hexponent])
        have hsigned : ¬(p.negative = true ∧ p.whole = ['0']) := by
          rintro ⟨hnegative, hwhole⟩
          refine hzero ?_
          rw [← htext, Parts.chars, hnegative, hwhole, hfraction, hexponent]
          rfl
        simpa [settledChars?, hexponent, hfraction, hinteger] using hsigned

end Numeral

/-! ### Settled documents -/

namespace Json

/-- Every number is written as the machine number that stands for it, if there is one, and no
object begins with the number key. -/
inductive Settled : Json → Prop
  | null : Settled .null
  | bool (b : Bool) : Settled (.bool b)
  | number {n : Numeral} : n.settled = n → Settled (.number n)
  | string (s : String) : Settled (.string s)
  | array {items : List Json} : (∀ j ∈ items, Settled j) → Settled (.array items)
  | object {entries : List (String × Json)} : (∀ p ∈ entries, Settled p.2) →
      (∀ p, entries.head? = some p → p.1 ≠ numberKey) → Settled (.object entries)

theorem settledItems?_eq_self_iff (items : List Json) :
    settledItems? items = some items ↔ ∀ j ∈ items, settled? j = some j := by
  induction items with
  | nil => simp [settledItems?]
  | cons j rest ih =>
      rw [List.forall_mem_cons, ← ih]
      cases hj : settled? j <;> cases hrest : settledItems? rest <;>
        simp [settledItems?, hj, hrest]

theorem settledEntries?_eq_self_iff (entries : List (String × Json)) :
    settledEntries? entries = some entries ↔ ∀ p ∈ entries, settled? p.2 = some p.2 := by
  induction entries with
  | nil => simp [settledEntries?]
  | cons p rest ih =>
      obtain ⟨key, j⟩ := p
      rw [List.forall_mem_cons, ← ih]
      cases hj : settled? j <;> cases hrest : settledEntries? rest <;>
        simp [settledEntries?, hj, hrest]

/-- Only entries that do not begin with the number key stand for an object, and that of theirs. -/
theorem ofSettled?_eq_object_iff {entries held : List (String × Json)} :
    ofSettled? entries = some (.object held) ↔
      entries = held ∧ ∀ p, entries.head? = some p → p.1 ≠ numberKey := by
  cases entries with
  | nil => simp [ofSettled?]
  | cons p rest =>
      obtain ⟨key, value⟩ := p
      by_cases hkey : key = numberKey
      · have hnumber : spelledNumber? value ((key, value) :: rest).length ≠ some (.object held) := by
          unfold spelledNumber?
          split
          · split <;> simp
          · simp
        simpa [ofSettled?, hkey] using hnumber
      · simp [ofSettled?, hkey]

theorem settled?_object_eq_self_iff (entries : List (String × Json)) :
    settled? (.object entries) = some (.object entries) ↔
      settledEntries? entries = some entries ∧
        ∀ p, entries.head? = some p → p.1 ≠ numberKey := by
  rw [settled?, Option.bind_eq_some_iff]
  constructor
  · rintro ⟨taken, htaken, hobject⟩
    obtain ⟨rfl, hhead⟩ := ofSettled?_eq_object_iff.1 hobject
    exact ⟨htaken, hhead⟩
  · rintro ⟨htaken, hhead⟩
    exact ⟨entries, htaken, ofSettled?_eq_object_iff.2 ⟨rfl, hhead⟩⟩

/-- Settling a document leaves it as it is exactly if it is settled. -/
theorem settled?_eq_self_iff (j : Json) : settled? j = some j ↔ j.Settled := by
  induction j using nestedInduction with
  | null => exact ⟨fun _ => .null, fun _ => rfl⟩
  | bool b => exact ⟨fun _ => .bool b, fun _ => rfl⟩
  | number n =>
      constructor
      · intro h
        exact .number (by simpa [settled?] using h)
      · intro h
        cases h with
        | number hn => rw [settled?, hn]
  | string s => exact ⟨fun _ => .string s, fun _ => rfl⟩
  | array items ih =>
      have hitems : settled? (.array items) = some (.array items) ↔
          settledItems? items = some items := by simp [settled?]
      rw [hitems, settledItems?_eq_self_iff]
      constructor
      · exact fun h => .array fun j hj => (ih j hj).1 (h j hj)
      · intro h
        cases h with
        | array hall => exact fun j hj => (ih j hj).2 (hall j hj)
  | object entries ih =>
      rw [settled?_object_eq_self_iff, settledEntries?_eq_self_iff]
      constructor
      · rintro ⟨hall, hhead⟩
        exact .object (fun p hp => (ih p hp).1 (hall p hp)) hhead
      · intro h
        cases h with
        | object hall hhead => exact ⟨fun p hp => (ih p hp).2 (hall p hp), hhead⟩

end Json

namespace Field

/-! ### What is written -/

/-- The keys of a field's document, each with what stands under it if the field has any. -/
def attributes (f : Field) : List (String × Option Json) :=
  [("name", some (.string f.name)),
    ("type", f.type.map fun type => .string type.text),
    ("wireName", f.wireName.map .string),
    ("description", f.description.map .string),
    ("defaultValue", f.default),
    ("sampleValue", f.sample),
    ("properties", if f.properties = [] then none else some (.array (documents f.properties))),
    ("objectIdentity", f.identity.map .string),
    ("capabilities",
      if f.capabilities = [] then none else some (.array (f.capabilities.map .string))),
    ("position", (f.position.bind fun p => Numeral.ofText? (natText p.toNat)).map .number)]

theorem stringEntry_eq (key : String) (s : Option String) :
    stringEntry key s = jsonEntry key (s.map .string) := by
  cases s <;> rfl

theorem listEntry_eq (key : String) (items : List Json) :
    listEntry key items = jsonEntry key (if items = [] then none else some (.array items)) := by
  cases items <;> rfl

theorem positionEntry_eq (position : Option UInt32) :
    positionEntry position = jsonEntry "position"
      ((position.bind fun p => Numeral.ofText? (natText p.toNat)).map .number) := by
  rw [positionEntry]
  cases position.bind fun p => Numeral.ofText? (natText p.toNat) <;> rfl

theorem documents_eq_nil_iff {fs : List Field} : documents fs = [] ↔ fs = [] := by
  cases fs <;> simp [documents]

theorem entries_eq (f : Field) :
    f.entries (documents f.properties) = f.attributes.flatMap fun p => jsonEntry p.1 p.2 := by
  simp [entries, attributes, stringEntry_eq, listEntry_eq, positionEntry_eq, jsonEntry,
    documents_eq_nil_iff, Option.map_map, Function.comp_def]

theorem nodup_keys_attributes (f : Field) : (Entries.keys f.attributes).Nodup := by
  simp [attributes, Entries.keys]

section

variable {attributes : List (String × Option Json)}

theorem keys_flatMap_jsonEntry :
    (Entries.keys (attributes.flatMap fun p => jsonEntry p.1 p.2)).Sublist
      (Entries.keys attributes) := by
  induction attributes with
  | nil => exact .slnil
  | cons p rest ih =>
      obtain ⟨key, value⟩ := p
      cases value with
      | none => exact ih.cons key
      | some j => exact ih.cons_cons key

theorem get?_flatMap_jsonEntry (h : (Entries.keys attributes).Nodup) (key : String) :
    Entries.get? key (attributes.flatMap fun p => jsonEntry p.1 p.2) =
      (Entries.get? key attributes).join := by
  induction attributes with
  | nil => rfl
  | cons p rest ih =>
      obtain ⟨k, value⟩ := p
      obtain ⟨hk, hrest⟩ := List.nodup_cons.1 h
      rw [List.flatMap_cons, Entries.get?_append, ih hrest, Entries.get?_cons]
      by_cases heq : k = key
      · have hnone : Entries.get? key rest = none := Entries.get?_eq_none_iff.2 (heq ▸ hk)
        cases value <;> simp [jsonEntry, Entries.get?_cons, heq, hnone]
      · cases value <;> simp [jsonEntry, Entries.get?_cons, heq]

end

/-- The document of a field is an object in key order that holds the attributes the field has. -/
theorem document_attributes (f : Field) : ∃ entries, document f = .object entries ∧
    Entries.Sorted entries ∧
      ∀ key, Entries.get? key entries = (Entries.get? key f.attributes).join := by
  have hdocument : document f = .object (Entries.ofList (f.entries (documents f.properties))) := by
    cases f
    rfl
  refine ⟨_, hdocument, Entries.sorted_ofList _, fun key => ?_⟩
  have hattributes := f.nodup_keys_attributes
  rw [entries_eq, Entries.get?_ofList (keys_flatMap_jsonEntry.nodup hattributes),
    get?_flatMap_jsonEntry hattributes]

/-! ### What is read -/

/-- The default or sample that a reader makes of one: null is none. -/
def payload? (take : Json → Option Json) : Option Json → Option (Option Json)
  | none => some none
  | some .null => some none
  | some j => (take j).map some

mutual

/-- The field with every default and sample in it as the reader takes them. -/
def taken? (take : Json → Option Json) : Field → Option Field
  | f@{ properties := ps, .. } => do
      let default ← payload? take f.default
      let properties ← takenAll? take ps
      let sample ← payload? take f.sample
      return { f with default, sample, properties }

def takenAll? (take : Json → Option Json) : List Field → Option (List Field)
  | [] => some []
  | f :: rest => do
      let f ← taken? take f
      let rest ← takenAll? take rest
      return f :: rest

end

/-- What was read, or that it does not fit. -/
def orMisfit {α : Type} : Option α → Except JsonFault α
  | some x => .ok x
  | none => .error .misfit

section

variable {take : Json → Option Json} {entries : List (String × Json)} {key : String}

theorem readString_of_get? {s : Option String}
    (h : Entries.get? key entries = s.map .string) : readString entries key = .ok s := by
  cases s <;> simp [readString, h]

theorem readType_of_get? {type : Option FieldType}
    (h : Entries.get? "type" entries = type.map fun type => .string type.text) :
    readType entries = .ok type := by
  have hread : readString entries "type" = .ok (type.map FieldType.text) :=
    readString_of_get? (by rw [h, Option.map_map]; rfl)
  cases type with
  | none => simp [readType, hread]
  | some type =>
      have htext : FieldType.ofText? type.text = .ok type := FieldType.ofText?_eq_ok_iff.2 rfl
      simp [readType, hread, htext]

theorem payload?_some {j : Json} (h : j ≠ .null) :
    payload? take (some j) = (take j).map some := by
  cases j with
  | null => exact absurd rfl h
  | _ => rfl

theorem readDocument_eq : readDocument take entries key =
    orMisfit (payload? take (Entries.get? key entries)) := by
  unfold readDocument
  split
  case h_1 hget => rw [hget]; rfl
  case h_2 hget => rw [hget]; rfl
  case h_3 j hnull hget =>
    rw [hget, payload?_some hnull]
    cases take j <;> rfl

theorem readStrings_map (capabilities : List String) :
    readStrings (capabilities.map .string) = .ok capabilities := by
  induction capabilities with
  | nil => rfl
  | cons s rest ih => rw [List.map_cons, readStrings, ih]; rfl

theorem readCapabilities_of_get? {capabilities : List String}
    (h : Entries.get? "capabilities" entries =
      if capabilities = [] then none else some (.array (capabilities.map .string))) :
    readCapabilities entries = .ok capabilities := by
  rw [readCapabilities, h]
  by_cases hempty : capabilities = []
  · simp [hempty]
  · simp [hempty, readStrings_map]

theorem readPosition_of_get? {position : Option UInt32}
    (h : Entries.get? "position" entries =
      (position.bind fun p => Numeral.ofText? (natText p.toNat)).map .number) :
    readPosition entries = .ok position := by
  cases position with
  | none => simp [readPosition, h]
  | some p =>
      obtain ⟨n, hn⟩ := Numeral.exists_intText p.toNat
      have htext : n.text = natText p.toNat := hn
      have hposition : Entries.get? "position" entries = some (.number n) := by
        rw [h, Option.bind_some, ← htext, Numeral.ofText?_text, Option.map_some]
      simp [readPosition, hposition, htext, natText, p.toNat_lt]

/-- Nested fields are read from under their key, or there are none. -/
theorem propertiesOf_of_get? {fs : List Field}
    (h : Entries.get? "properties" entries =
      if fs = [] then none else some (.array (documents fs))) :
    propertiesOf take entries = allOfJson take (documents fs) := by
  induction entries with
  | nil =>
      have hempty : fs = [] := by simpa using h
      rw [hempty]
      rfl
  | cons p rest ih =>
      obtain ⟨k, j⟩ := p
      rw [Entries.get?_cons] at h
      unfold propertiesOf
      split at h
      · rename_i hk
        split at h
        · cases h
        · rw [Option.some.inj h, if_pos hk]
      · rename_i hk
        rw [if_neg hk]
        exact ih h

/-- Where a field's attributes stand, the field is read, with its defaults and samples as they are
taken. -/
theorem ofJson_of_attributes {f : Field}
    (h : ∀ key, Entries.get? key entries = (Entries.get? key f.attributes).join)
    {nested : Option (List Field)}
    (hnested : allOfJson take (documents f.properties) = orMisfit nested) :
    ofJson take (.object entries) = orMisfit (do
      let default ← payload? take f.default
      let properties ← nested
      let sample ← payload? take f.sample
      return { f with default, sample, properties }) := by
  have hcapabilities : readCapabilities entries = .ok f.capabilities :=
    readCapabilities_of_get? (h "capabilities")
  have hdescription : readString entries "description" = .ok f.description :=
    readString_of_get? (h "description")
  have hname : readName entries = .ok (some f.name) := by
    rw [readName, h "name"]
    rfl
  have hidentity : readString entries "objectIdentity" = .ok f.identity :=
    readString_of_get? (h "objectIdentity")
  have hposition : readPosition entries = .ok f.position := readPosition_of_get? (h "position")
  have hproperties : propertiesOf take entries = orMisfit nested := by
    rw [propertiesOf_of_get? (h "properties"), hnested]
  have htype : readType entries = .ok f.type := readType_of_get? (h "type")
  have hwireName : readString entries "wireName" = .ok f.wireName :=
    readString_of_get? (h "wireName")
  have hdefault : readDocument take entries "defaultValue" = orMisfit (payload? take f.default) := by
    rw [readDocument_eq, h "defaultValue"]
    rfl
  have hsample : readDocument take entries "sampleValue" = orMisfit (payload? take f.sample) := by
    rw [readDocument_eq, h "sampleValue"]
    rfl
  rw [ofJson, hcapabilities, hdescription, hname, hidentity, hposition, hproperties, htype,
    hwireName, hdefault, hsample]
  cases payload? take f.default <;> cases nested <;> cases payload? take f.sample <;> rfl

end

mutual

theorem ofJson_document (take : Json → Option Json) :
    (f : Field) → ofJson take (document f) = orMisfit (taken? take f)
  | ⟨n, t, w, d, v, s, ps, i, c, p⟩ => by
      obtain ⟨entries, hdocument, _, hentries⟩ :=
        document_attributes ⟨n, t, w, d, v, s, ps, i, c, p⟩
      rw [hdocument, ofJson_of_attributes hentries (allOfJson_documents take ps)]
      rfl

theorem allOfJson_documents (take : Json → Option Json) :
    (fs : List Field) → allOfJson take (documents fs) = orMisfit (takenAll? take fs)
  | [] => rfl
  | f :: rest => by
      rw [documents, allOfJson, ofJson_document take f, allOfJson_documents take rest, takenAll?]
      cases taken? take f <;> cases takenAll? take rest <;> rfl

end

/-! ### What comes back -/

/-- The default and the sample of a field, if it has them. -/
def payloads (f : Field) : List Json := f.default.toList ++ f.sample.toList

theorem payload?_eq_self_iff {take : Json → Option Json} {payload : Option Json} :
    payload? take payload = some payload ↔ ∀ j ∈ payload.toList, j ≠ .null ∧ take j = some j := by
  cases payload with
  | none => simp [payload?]
  | some j =>
      by_cases hj : j = .null
      · simp [payload?, hj]
      · simp [payload?_some hj, hj]

/-- The reader gives the field's default and sample back: neither is null, and it takes neither for
anything else. -/
def KeptBy (take : Json → Option Json) (f : Field) : Prop :=
  ∀ j ∈ f.payloads, j ≠ .null ∧ take j = some j

theorem keptBy_iff {take : Json → Option Json} {f : Field} : f.KeptBy take ↔
    payload? take f.default = some f.default ∧ payload? take f.sample = some f.sample := by
  rw [KeptBy, payloads, List.forall_mem_append, payload?_eq_self_iff, payload?_eq_self_iff]

theorem taken?_eq_self_of_parts {take : Json → Option Json} {f : Field} :
    taken? take f = some f ↔
      f.KeptBy take ∧ takenAll? take f.properties = some f.properties := by
  rw [keptBy_iff]
  obtain ⟨n, t, w, d, v, s, ps, i, c, p⟩ := f
  cases hd : payload? take v <;> cases hp : takenAll? take ps <;> cases hs : payload? take s <;>
    simp [taken?, hd, hp, hs]
  -- the parts are taken in another order
  tauto

mutual

theorem taken?_eq_self_iff {take : Json → Option Json} : (f : Field) →
    (taken? take f = some f ↔ f.KeptBy take ∧ ∀ g : Field, g.Within f.properties → g.KeptBy take)
  | ⟨n, t, w, d, v, s, ps, i, c, p⟩ => by
      rw [taken?_eq_self_of_parts, takenAll?_eq_self_iff ps]

/-- A reader leaves trees as they are exactly if it keeps every field in them. -/
theorem takenAll?_eq_self_iff {take : Json → Option Json} : (fs : List Field) →
    (takenAll? take fs = some fs ↔ ∀ g : Field, g.Within fs → g.KeptBy take)
  | [] => by simp [takenAll?, not_within_nil]
  | f :: rest => by
      rw [forall_within_cons_iff, ← taken?_eq_self_iff f, ← takenAll?_eq_self_iff rest]
      cases hf : taken? take f <;> cases hrest : takenAll? take rest <;>
        simp [takenAll?, hf, hrest]

end

theorem orMisfit_eq_ok_iff {α : Type} {read : Option α} {x : α} :
    orMisfit read = .ok x ↔ read = some x := by
  cases read <;> simp [orMisfit]

/-- A field that is written as a document holds there what it declares and nothing else. Roots come
back from their documents with every default and sample settled, so they come back unchanged
exactly if none of these is null and all are settled; read as they stand, exactly if none is null.
Where no floating-point numbers are read, all numbers but zero with a sign are settled. -/
theorem rootsOfJson_documents (roots : List Field) :
    (∀ f : Field, ∃ entries, document f = .object entries ∧ Entries.Sorted entries ∧
      ∀ key, Entries.get? key entries = (Entries.get? key f.attributes).join) ∧
    rootsOfJson (.array (documents roots)) = orMisfit (takenAll? Json.settled? roots) ∧
    (rootsOfJson (.array (documents roots)) = .ok roots ↔
      ∀ f : Field, f.Within roots → ∀ j ∈ f.payloads, j ≠ .null ∧ j.Settled) ∧
    (allOfJson some (documents roots) = .ok roots ↔
      ∀ f : Field, f.Within roots → ∀ j ∈ f.payloads, j ≠ .null) ∧
    ∀ (n : Numeral) (p : Numeral.Parts), Numeral.read? n.text.toList = some p → p.NoFloat →
      (n.settled = n ↔ n.text ≠ "-0") := by
  have hroots := allOfJson_documents Json.settled? roots
  refine ⟨document_attributes, hroots, ?_, ?_, fun n p => Numeral.settled_eq_self_iff⟩
  · rw [rootsOfJson, hroots, orMisfit_eq_ok_iff, takenAll?_eq_self_iff]
    simp only [KeptBy, Json.settled?_eq_self_iff]
  · rw [allOfJson_documents, orMisfit_eq_ok_iff, takenAll?_eq_self_iff]
    simp [KeptBy]

example :
    let root : Field :=
      { name := "order", type := some .struct, description := some "An order.",
        sample := some (.object [("id", .number ⟨"7", by decide +kernel⟩)]), properties := [
          { name := "lines", type := some (.list (.map .struct)), wireName := some "rows",
            identity := some "line", capabilities := ["Priced", "Priced"],
            position := some 4294967295, properties := [
              { name := "price", default := some (.number ⟨"15e-1", by decide +kernel⟩) }] }] }
    rootsOfJson (.array (documents [root])) = .ok [root] := by decide +kernel

/-- A field with a number as its default. -/
def balance (literal : Numeral) : Field where
  name := "balance"
  default := some (.number literal)

/-- A fraction in positional notation comes back with an exponent, and zero without its sign. -/
theorem balance_changes :
    let positional : Numeral := ⟨"0.00000005960464477539063", by decide +kernel⟩
    let signedZero : Numeral := ⟨"-0", by decide +kernel⟩
    (∀ (literal : Numeral) (f : Field), f.Within [balance literal] →
      ∀ j ∈ f.payloads, j ≠ .null) ∧
    rootsOfJson (.array (documents [balance positional])) =
      .ok [balance ⟨"5.960464477539063e-8", by decide +kernel⟩] ∧
    rootsOfJson (.array (documents [balance positional])) ≠ .ok [balance positional] ∧
    rootsOfJson (.array (documents [balance signedZero])) =
      .ok [balance ⟨"0", by decide +kernel⟩] := by
  intro positional signedZero
  have hread : rootsOfJson (.array (documents [balance positional])) =
      .ok [balance ⟨"5.960464477539063e-8", by decide +kernel⟩] := by
    -- the digits are looked for at every place from the 309th before the point on
    decide +kernel
  refine ⟨fun literal => ?_, hread, ?_, by decide +kernel⟩
  · simp [forall_within_cons_iff, not_within_nil, balance, payloads]
  · rw [hread]
    simp [balance, positional]

end Field
end RecordCodec
