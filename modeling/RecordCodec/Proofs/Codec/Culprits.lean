import RecordCodec.Proofs.Codec.Documents
import RecordCodec.Proofs.Codec.Fitting

/-!
Where coercion fails. The segments of a path lead through a document, to an entry of an object or an
item of an array, and through the declared types, to the type of a field, of an item or of a map's
values. When decoding a document ends with a coercion error, its path leads from the document to a
value that is not null and does not fit the scalar type to which the path leads from the record;
the error names this type and the first token of this value. A document with such a value anywhere
is not decoded.
-/

namespace RecordCodec

/-! ### Places in documents and in types -/

/-- The part of a document behind one segment of a path. -/
def Json.part? : Segment → Json → Option Json
  | .field key, .object entries => Entries.get? key entries
  | .key key, .object entries => Entries.get? key entries
  | .index i, .array items => items[i]?
  | _, _ => none

/-- The part of a document to which a row of segments leads. -/
def Json.at? : List Segment → Json → Option Json
  | [], j => some j
  | s :: rest, j => (j.part? s).bind (at? rest)

namespace Plan

/-- The type behind one segment of a path; under a key of a record, that of the first field with
the key. -/
def part? (kinds : Kinds) : Segment → Plan QualifiedName → Option (Plan QualifiedName)
  | .field key, .record name =>
      (kinds name).bind fun fields => (fields.find? (·.wireKey = key)).map (·.plan)
  | .key _, .map value => some value
  | .index _, .list item => some item
  | _, _ => none

/-- The type to which a row of segments leads. -/
def at? (kinds : Kinds) : List Segment → Plan QualifiedName → Option (Plan QualifiedName)
  | [], plan => some plan
  | s :: rest, plan => (plan.part? kinds s).bind (at? kinds rest)

end Plan

/-- The segments lead to a value that is not null and does not fit the scalar type at its place. -/
def Misfits (kinds : Kinds) (plan : Plan QualifiedName) (j : Json) (steps : List Segment)
    (kind : ScalarKind) (v : Json) : Prop :=
  plan.at? kinds steps = some (.scalar kind) ∧ j.at? steps = some v ∧ v ≠ .null ∧
    ¬ FitsScalar kind v

section

variable {kinds : Kinds} {plan plan' : Plan QualifiedName} {j j' v : Json} {s : Segment}
  {steps : List Segment} {kind : ScalarKind}

theorem Misfits.here (hj : j ≠ .null) (h : ¬ FitsScalar kind j) :
    Misfits kinds (.scalar kind) j [] kind j :=
  ⟨rfl, rfl, hj, h⟩

theorem Misfits.step (hplan : plan.part? kinds s = some plan') (hj : j.part? s = some j')
    (h : Misfits kinds plan' j' steps kind v) : Misfits kinds plan j (s :: steps) kind v := by
  obtain ⟨hscalar, hv, hrest⟩ := h
  refine ⟨?_, ?_, hrest⟩
  · rw [Plan.at?, hplan, Option.bind_some, hscalar]
  · rw [Json.at?, hj, Option.bind_some, hv]

/-! ### Documents that fit -/

/-- The parts of a document that fits fit the types at their places. -/
theorem Fits.part (h : Fits kinds plan j) (hplan : plan.part? kinds s = some plan')
    (hj : j.part? s = some j') : Fits kinds plan' j' := by
  cases h with
  | null => cases s <;> cases hj
  | scalar | document => cases s <;> cases hplan
  | list hitems =>
      cases s with
      | index i =>
          cases hplan
          exact hitems j' (List.mem_of_getElem? hj)
      | _ => cases hplan
  | map hentries =>
      cases s with
      | key key =>
          cases hplan
          exact hentries _ (Entries.mem_of_get? hj)
      | _ => cases hplan
  | record hk hentries =>
      cases s with
      | field key =>
          rw [Plan.part?, hk, Option.bind_some] at hplan
          obtain ⟨f, hf, rfl⟩ := Option.map_eq_some_iff.1 hplan
          exact hentries _ (Entries.mem_of_get? hj) f hf
      | _ => cases hplan

theorem Fits.along (h : Fits kinds plan j) (hplan : plan.at? kinds steps = some plan')
    (hj : j.at? steps = some j') : Fits kinds plan' j' := by
  induction steps generalizing plan j with
  | nil =>
      cases hplan
      cases hj
      exact h
  | cons s steps ih =>
      obtain ⟨_, hpart, hplan⟩ := Option.bind_eq_some_iff.1 hplan
      obtain ⟨_, hpart', hj⟩ := Option.bind_eq_some_iff.1 hj
      exact ih (h.part hpart hpart') hplan hj

theorem Misfits.not_fits (h : Misfits kinds plan j steps kind v) : ¬ Fits kinds plan j := by
  obtain ⟨hscalar, hv, hnull, hmisfit⟩ := h
  intro hfits
  cases hfits.along hscalar hv with
  | null => exact hnull rfl
  | scalar hscalar => exact hmisfit hscalar

end

/-! ### Where decoding stops -/

section

variable {decoders : QualifiedName → Option Decoder} {e : Error}

/-- An error among items is that of one of them, at its position. -/
theorem exists_item_of_error {items : List Json} {item : Plan CodecRef} {path : Path} {i : Nat}
    (h : treeItems decoders items item path i = .error e) :
    ∃ k j, items[k]? = some j ∧
      treeValue decoders j item (path.push (.index (i + k))) = .error e := by
  induction items generalizing i with
  | nil => cases h
  | cons j items ih =>
      rw [treeItems] at h
      cases hj : treeValue decoders j item (path.push (.index i)) with
      | error e' =>
          rw [hj] at h
          cases h
          exact ⟨0, j, rfl, hj⟩
      | ok v =>
          rw [hj] at h
          obtain ⟨k, j', hk, hj'⟩ := ih (map_eq_error_iff.1 h)
          rw [Nat.add_right_comm] at hj'
          exact ⟨k + 1, j', hk, hj'⟩

theorem exists_entry_of_error {entries : List (String × Json)} {value : Plan CodecRef}
    {path : Path} {held : List (String × Value)}
    (h : treeEntries decoders entries value path held = .error e) :
    ∃ p ∈ entries, treeValue decoders p.2 value (path.push (.key p.1)) = .error e := by
  induction entries generalizing held with
  | nil => cases h
  | cons p entries ih =>
      rw [treeEntries] at h
      cases hp : treeValue decoders p.2 value (path.push (.key p.1)) with
      | error e' =>
          rw [hp] at h
          cases h
          exact ⟨p, List.mem_cons_self, hp⟩
      | ok v =>
          rw [hp] at h
          obtain ⟨q, hq, herror⟩ := ih h
          exact ⟨q, List.mem_cons_of_mem _ hq, herror⟩

/-- An error among the members of a record is that of a declared one. -/
theorem exists_member_of_error {entries : List (String × Json)} {decoder : Decoder}
    {path : Path} {record : Record}
    (h : treeFields decoders entries decoder path record = .error e) :
    ∃ p ∈ entries, ∃ f, decoder.fieldFor? p.1 = some f ∧
      treeValue decoders p.2 f.plan (path.push (.field f.wireKey)) = .error e := by
  induction entries generalizing record with
  | nil => cases h
  | cons p entries ih =>
      rw [treeFields] at h
      cases hf : decoder.fieldFor? p.1 with
      | none =>
          rw [hf] at h
          obtain ⟨q, hq, herror⟩ := ih h
          exact ⟨q, List.mem_cons_of_mem _ hq, herror⟩
      | some f =>
          rw [hf] at h
          simp only at h
          cases hp : treeValue decoders p.2 f.plan (path.push (.field f.wireKey)) with
          | error e' =>
              rw [hp] at h
              cases h
              exact ⟨p, List.mem_cons_self, f, hf, hp⟩
          | ok v =>
              rw [hp] at h
              obtain ⟨q, hq, herror⟩ := ih h
              exact ⟨q, List.mem_cons_of_mem _ hq, herror⟩

theorem fitsScalar_iff_firstToken {kind : ScalarKind} {j : Json} :
    FitsScalar kind j ↔ ∃ v, readScalar kind j.firstToken = .ok (some v) := by
  cases j with
  | array items | object entries => cases kind <;> exact ⟨nofun, nofun⟩
  | _ => exact fitsScalar_iff rfl

/-- Reading a scalar either refuses the token or reports its exponent. -/
theorem readScalar_ne_error {kind expected : ScalarKind} {path : Path} {t found : Token} :
    readScalar kind t ≠ .error (.decodeValue path expected found) := by
  have hdecimal (literal : String) :
      readScalar.decimal literal ≠ .error (.decodeValue path expected found) := by
    unfold readScalar.decimal
    cases Decimal.read literal with
    | ok d => exact nofun
    | error e => cases e <;> exact nofun
  cases kind with
  | decimal =>
      cases t with
      | number literal | string literal => exact hdecimal literal
      | _ => exact nofun
  | _ => cases t <;> exact nofun

/-- A scalar that is refused does not fit, and the error is about its own place. -/
theorem misfit_of_tokenValue {kind expected : ScalarKind} {path path' : Path} {found : Token}
    {j : Json} (h : tokenValue kind path j.firstToken = .error (.decodeValue path' expected found)) :
    path' = path ∧ expected = kind ∧ found = j.firstToken ∧ ¬ FitsScalar kind j := by
  rw [tokenValue] at h
  split at h
  · cases h
  · rename_i hrefused
    cases h
    refine ⟨rfl, rfl, rfl, fun hfits => ?_⟩
    obtain ⟨v, hv⟩ := fitsScalar_iff_firstToken.1 hfits
    rw [hrefused] at hv
    cases hv
  · rename_i herror
    cases h
    exact absurd herror readScalar_ne_error

variable {kinds : Kinds} {encoders : QualifiedName → Option Encoder} {methods : MethodTable}

/-- The error is about a value below the document, behind the segments that its path adds. -/
def Located (kinds : Kinds) (plan : Plan CodecRef) (path : Path) (j : Json) (path' : Path)
    (kind : ScalarKind) (t : Token) : Prop :=
  ∃ steps v, path'.segments = path.segments ++ steps ∧ t = v.firstToken ∧
    Misfits kinds (plan.mapRef CodecRef.record) j steps kind v

section

variable {plan part : Plan CodecRef} {path path' : Path} {kind : ScalarKind} {t : Token}
  {j j' : Json} {s : Segment}

theorem Located.step (h : Located kinds part (path.push s) j' path' kind t)
    (hplan : (plan.mapRef CodecRef.record).part? kinds s = some (part.mapRef CodecRef.record))
    (hj : j.part? s = some j') : Located kinds plan path j path' kind t := by
  obtain ⟨steps, v, hpath, ht, hv⟩ := h
  refine ⟨s :: steps, v, ?_, ht, hv.step hplan hj⟩
  rw [hpath, Path.push, List.append_assoc, List.singleton_append]

/-- Where a scalar is declared, the error is about the document itself. -/
theorem located_of_scalar {declared : ScalarKind} (hj : j ≠ .null)
    (h : treeValue decoders j (.scalar declared) path = .error (.decodeValue path' kind t)) :
    Located kinds (.scalar declared) path j path' kind t := by
  have hscalar : treeValue decoders j (.scalar declared) path =
      tokenValue declared path j.firstToken := by
    cases j with
    | null => exact absurd rfl hj
    | _ => rfl
  rw [hscalar] at h
  obtain ⟨rfl, rfl, rfl, hmisfit⟩ := misfit_of_tokenValue h
  exact ⟨[], j, (List.append_nil _).symm, rfl, .here hj hmisfit⟩

/-- A document that does not begin as the plan wants it is no coercion error. -/
theorem treeValue_refused {wanted : Token} (hj : j ≠ .null) (hwanted : opening? plan = some wanted)
    (hne : j.firstToken ≠ wanted) :
    treeValue decoders j plan path ≠ .error (.decodeValue path' kind t) := by
  cases plan with
  | scalar | document => cases hwanted
  | list item =>
      cases hwanted
      cases j with
      | null => exact absurd rfl hj
      | array items => exact absurd rfl hne
      | _ => exact nofun
  | map value =>
      cases hwanted
      cases j with
      | null => exact absurd rfl hj
      | object entries => exact absurd rfl hne
      | _ => exact nofun
  | record ref =>
      cases hwanted
      cases hd : decoders ref.record with
      | none =>
          cases j with
          | null => exact absurd rfl hj
          | _ => simp [treeValue, hd]
      | some decoder =>
          cases j with
          | null => exact absurd rfl hj
          | object entries => exact absurd rfl hne
          | _ => simp [treeValue, hd, unexpected]

/-- Among documents of one token, only scalars are coerced. -/
theorem located_of_leaf (hj : j ≠ .null) (harray : j.firstToken ≠ .startArray)
    (hobject : j.firstToken ≠ .startObject)
    (h : treeValue decoders j plan path = .error (.decodeValue path' kind t)) :
    Located kinds plan path j path' kind t := by
  cases plan with
  | scalar declared => exact located_of_scalar hj h
  | document =>
      cases j with
      | null => exact absurd rfl hj
      | _ => cases h
  | list item => exact absurd h (treeValue_refused hj rfl harray)
  | map value => exact absurd h (treeValue_refused hj rfl hobject)
  | record ref => exact absurd h (treeValue_refused hj rfl hobject)

end

/-- A coercion error is located. -/
theorem located_of_treeFields (hg : Generates kinds decoders encoders methods)
    {decoder : Decoder} {name : QualifiedName} (hd : decoders name = some decoder)
    {entries : List (String × Json)} (hsorted : Entries.Sorted entries) {record : Record}
    {path path' : Path} {kind : ScalarKind} {t : Token}
    (hvalues : ∀ p ∈ entries, ∀ (plan : Plan CodecRef) (path : Path),
      treeValue decoders p.2 plan path = .error (.decodeValue path' kind t) →
        Located kinds plan path p.2 path' kind t)
    (h : treeFields decoders entries decoder path record = .error (.decodeValue path' kind t)) :
    ∀ codec, Located kinds (.record ⟨name, codec⟩) path (.object entries) path' kind t := by
  intro codec
  obtain ⟨p, hp, f, hf, herror⟩ := exists_member_of_error h
  obtain ⟨fields, hk, _, hfields⟩ := hg.kind_of_decoder hd
  rw [Decoder.fieldFor?_eq hfields] at hf
  obtain ⟨g, hfirst, rfl⟩ := Option.map_eq_some_iff.1 hf
  have hkey : g.wireKey = p.1 := by simpa using List.find?_some hfirst
  refine (hvalues p hp _ _ herror).step ?_ ?_
  · show ((kinds name).bind fun fields => _) = _
    rw [hk, Option.bind_some, RecordField.wireKey_decodeField, hkey, hfirst, Option.map_some,
      RecordField.mapRef_decodeField]
  · show Entries.get? _ entries = _
    rw [RecordField.wireKey_decodeField, hkey]
    exact Entries.get?_of_mem hsorted hp

theorem located_of_treeValue (hg : Generates kinds decoders encoders methods) {j : Json}
    (hj : j.Ordered) {path' : Path} {kind : ScalarKind} {t : Token} :
    ∀ (plan : Plan CodecRef) (path : Path),
      treeValue decoders j plan path = .error (.decodeValue path' kind t) →
        Located kinds plan path j path' kind t := by
  induction hj with
  | null =>
      intro plan path h
      cases h
  | bool | number | string =>
      intro plan path h
      refine located_of_leaf (by simp) ?_ ?_ h
      · simp [Json.firstToken]
      · simp [Json.firstToken]
  | @array items _ ih =>
      intro plan path h
      have hnull : Json.array items ≠ .null := by simp
      have hobject : (Json.array items).firstToken ≠ .startObject := by simp [Json.firstToken]
      cases plan with
      | scalar declared => exact located_of_scalar hnull h
      | document => cases h
      | list item =>
          obtain ⟨k, j, hk, herror⟩ := exists_item_of_error (map_eq_error_iff.1 h)
          rw [Nat.zero_add] at herror
          exact (ih j (List.mem_of_getElem? hk) _ _ herror).step rfl hk
      | map value => exact absurd h (treeValue_refused hnull rfl hobject)
      | record ref => exact absurd h (treeValue_refused hnull rfl hobject)
  | @object entries hsorted _ ih =>
      intro plan path h
      have hnull : Json.object entries ≠ .null := by simp
      have harray : (Json.object entries).firstToken ≠ .startArray := by simp [Json.firstToken]
      cases plan with
      | scalar declared => exact located_of_scalar hnull h
      | document => cases h
      | list item => exact absurd h (treeValue_refused hnull rfl harray)
      | map value =>
          obtain ⟨p, hp, herror⟩ := exists_entry_of_error (map_eq_error_iff.1 h)
          exact (ih p hp _ _ herror).step rfl (Entries.get?_of_mem hsorted hp)
      | record ref =>
          rw [treeValue] at h
          cases hd : decoders ref.record with
          | none =>
              rw [hd] at h
              cases h
          | some decoder =>
              rw [hd] at h
              exact located_of_treeFields hg hd hsorted ih (map_eq_error_iff.1 h) _

/-- A coercion error of a record is located from its root. -/
theorem located_of_treeRecord (hg : Generates kinds decoders encoders methods) {j : Json}
    (hj : j.Ordered) {name : QualifiedName} {path : Path} {kind : ScalarKind} {t : Token}
    (h : treeRecord decoders name j = .error (.decodeValue path kind t)) :
    ∃ steps v, path = ⟨.root name.name :: steps⟩ ∧ t = v.firstToken ∧
      Misfits kinds (.record name) j steps kind v := by
  rw [treeRecord] at h
  cases hd : decoders name with
  | none =>
      rw [hd] at h
      cases h
  | some decoder =>
      rw [hd] at h
      cases hj with
      | object hsorted hvalues =>
          obtain ⟨steps, v, hpath, ht, hv⟩ := located_of_treeFields hg hd hsorted
            (fun p hp => located_of_treeValue hg (hvalues p hp)) h name
          exact ⟨steps, v, congrArg Path.mk hpath, ht, hv⟩
      | _ => cases h

end

/-! ### Catalogs -/

/-- A catalog's coercion errors point at values that do not fit. -/
structure Catalog.LocatesMisfits (catalog : Catalog) : Prop where
  /-- The path leads from the record and its document to the value that the error is about. -/
  located : ∀ spelling name, catalog.resolve? spelling = some name → ∀ j, j.Ordered →
    ∀ path expected found, catalog.decodeJson spelling j =
        .error (.decodeValue path expected found) →
      ∃ steps v, path = ⟨.root name.name :: steps⟩ ∧ found = v.firstToken ∧
        Misfits catalog.kinds (.record name) j steps expected v
  /-- A value that does not fit, wherever it stands, keeps the document from being decoded. -/
  refused : ∀ spelling name, catalog.resolve? spelling = some name → ∀ j steps expected v,
    Misfits catalog.kinds (.record name) j steps expected v →
      ∀ r, catalog.decodeJson spelling j ≠ .ok r
  /-- Every record can be asked for. -/
  resolves : ∀ e ∈ catalog.entries, catalog.resolve? e.name.text = some e.name

/-- A compiled catalog's coercion errors point at values that do not fit. -/
theorem Forest.compile_locatesMisfits (settings : Settings) (forest : Forest) :
    ∀ catalog, forest.compile settings = .ok catalog → catalog.LocatesMisfits := by
  intro catalog h
  have hg := generates_of_compile h
  constructor
  case located =>
    intro spelling name hs j hj path expected found herror
    rw [Catalog.decodeJson_eq_tree, Catalog.resolve, hs] at herror
    exact located_of_treeRecord hg hj herror
  case refused =>
    intro spelling name hs j steps expected v hmisfits r hr
    obtain ⟨r, rest, hr⟩ := (Catalog.exists_decodeJson_iff hs).1 ⟨r, hr⟩
    rw [← List.append_nil j.tokens] at hr
    exact hmisfits.not_fits ((decodeRecord_tokens_iff hg).1 ⟨r, hr⟩).2.2
  case resolves => exact fun e he => Catalog.resolve?_text (fun _ => scope_of_compile h) he

/-- A parcel with a tag that is no string, behind one that is. -/
def Json.mistagged : Json :=
  .object [("seal", .array [.number ⟨"1", by decide +kernel⟩]),
    ("tags", .object [("color", .array [.string "red", .bool true])]), ("w", .null)]

theorem Forest.parcel_refusesTag : ∃ catalog, parcel.compile {} = .ok catalog ∧
    decide (catalog.resolve? "Parcel" = some ⟨"generated.model", "Parcel"⟩ ∧
      catalog.decodeJson "Parcel" .mistagged = .error (.decodeValue
        ⟨[.root "Parcel", .field "tags", .key "color", .index 1]⟩ .string (.boolean true))) = true :=
  exists_catalog (by decide +kernel)

/-- The error leads past the seal, which is not declared, to the second item under the key color. -/
theorem Forest.parcel_locatesMisfits : ∃ catalog, parcel.compile {} = .ok catalog ∧
    ∃ v : Json, v.firstToken = .boolean true ∧
      Misfits catalog.kinds (.record ⟨"generated.model", "Parcel"⟩) .mistagged
        [.field "tags", .key "color", .index 1] .string v := by
  obtain ⟨catalog, hc, htest⟩ := parcel_refusesTag
  obtain ⟨hname, herror⟩ := of_decide_eq_true htest
  obtain ⟨steps, v, hpath, htoken, hv⟩ := (compile_locatesMisfits {} parcel catalog hc).located
    _ _ hname .mistagged (Json.ordered_of_inOrder (by decide +kernel)) _ _ _ herror
  obtain ⟨-, rfl⟩ := List.cons.inj (congrArg Path.segments hpath)
  exact ⟨catalog, hc, v, htoken.symm, hv⟩

end RecordCodec
