import RecordCodec.Catalog
import RecordCodec.Proofs.Codec.Reading
import RecordCodec.Proofs.Json.Stream

/-!
Decoding documents as trees. `treeValue` decodes a document by following its structure, with no
stream and no positions; decoding the tokens of a document, whatever follows them, gives the same
value or the same error. Facts about how documents are decoded, failures included, are proved on the
tree.
-/

namespace RecordCodec

open Token (readJson skipValue)

/-- The token that a document begins with. -/
def Json.firstToken : Json → Token
  | .null => .null
  | .bool b => .boolean b
  | .number n => .number n.text
  | .string s => .string s
  | .array _ => .startArray
  | .object _ => .startObject

theorem Json.exists_tokens (j : Json) : ∃ ts, j.tokens = j.firstToken :: ts := by
  cases j <;> exact ⟨_, rfl⟩

theorem Json.opensValue_firstToken (j : Json) : j.firstToken.opensValue = true := by
  cases j <;> rfl

/-! ### The tree decoder -/

/-- The scalar that one token stands for. -/
def tokenValue (kind : ScalarKind) (path : Path) (t : Token) : Except Error Value :=
  match readScalar kind t with
  | .ok (some v) => .ok v
  | .ok none => .error (.decodeValue path kind t)
  | .error e => .error e

/-- A token stands where another was wanted. -/
def unexpected (wanted : Token) (path : Path) (t : Token) : Error :=
  .malformedStream path (.unexpected (.token wanted) t)

section

variable (decoders : QualifiedName → Option Decoder)

mutual

/-- Decodes a document by a plan. -/
def treeValue : Json → Plan CodecRef → Path → Except Error Value
  | .null, _, _ => .ok .null
  | .array items, .list item, path => (treeItems items item path 0).map .list
  | .object entries, .map value, path => (treeEntries entries value path []).map .map
  | .object entries, .record ref, path =>
      match decoders ref.record with
      | none => .error (.unknownRecord ref.codec.text)
      | some decoder =>
          (treeFields entries decoder path decoder.initial).map Record.toValue
  | j, .document, _ => .ok (.document j.inOrder)
  | j, .scalar kind, path => tokenValue kind path j.firstToken
  | j, .list _, path => .error (unexpected .startArray path j.firstToken)
  | j, .map _, path => .error (unexpected .startObject path j.firstToken)
  | j, .record ref, path =>
      match decoders ref.record with
      | none => .error (.unknownRecord ref.codec.text)
      | some _ => .error (unexpected .startObject path j.firstToken)

/-- Decodes the items of a list from position `i` on. -/
def treeItems : List Json → Plan CodecRef → Path → Nat → Except Error (List Value)
  | [], _, _, _ => .ok []
  | j :: rest, item, path, i =>
      (treeValue j item (path.push (.index i))).bind fun v =>
        (treeItems rest item path (i + 1)).map (v :: ·)

/-- Decodes entries of a map and adds them to those held. -/
def treeEntries : List (String × Json) → Plan CodecRef → Path → List (String × Value) →
    Except Error (List (String × Value))
  | [], _, _, held => .ok held
  | (key, j) :: rest, value, path, held =>
      (treeValue j value (path.push (.key key))).bind fun v =>
        treeEntries rest value path (Entries.put key v held)

/-- Decodes fields into a record under way; entries that no field reads are passed by. -/
def treeFields : List (String × Json) → Decoder → Path → Record → Except Error Record
  | [], _, _, record => .ok record
  | (key, j) :: rest, decoder, path, record =>
      match decoder.fieldFor? key with
      | some f =>
          (treeValue j f.plan (path.push (.field f.wireKey))).bind fun v =>
            treeFields rest decoder path (record.set f.field v)
      | none => treeFields rest decoder path record

end

/-- Decodes a document as a record; unlike a field's value it cannot be null. -/
def treeRecord (name : QualifiedName) (j : Json) : Except Error Record :=
  match decoders name with
  | none => .error (.unknownRecord name.text)
  | some decoder =>
      match j with
      | .object entries => treeFields decoders entries decoder (.root name.name) decoder.initial
      | j => .error (unexpected .startObject (.root name.name) j.firstToken)

end

/-! ### Answers of readers -/

/-- A reader's answer: its result and what it left, or its error. -/
def answer {α : Type} {ts : List Token} : Except Stop (α × Shorter ts) →
    Except Error (α × List Token)
  | .ok p => .ok (p.1, p.2.1)
  | .error stop => .error stop.error

theorem Gives.answer_eq {α : Type} {ts rest : List Token} {r : Except Stop (α × Shorter ts)}
    {a : α} (h : Gives r a rest) : answer r = .ok (a, rest) := by
  obtain ⟨hlt, rfl⟩ := gives_iff.1 h
  rfl

section

variable {decoders : QualifiedName → Option Decoder} {path : Path} {t : Token}
  {ts us : List Token}

/-! Each reader's answer, from the answers of the readers that it calls. -/

theorem answer_decodeAt_null {plan : Plan CodecRef} :
    answer (decodeAt decoders plan path (.null :: ts)) = .ok (.null, ts) := by
  rw [decodeAt]
  rfl

theorem answer_decodeAt_scalar {kind : ScalarKind} (ht : t ≠ .null) :
    answer (decodeAt decoders (.scalar kind) path (t :: ts)) =
      (tokenValue kind path t).map fun v => (v, ts) := by
  rw [decodeAt]
  · simp only [decodeScalar, tokenValue]
    rcases readScalar kind t with e | _ | v <;> rfl
  · exact fun _ heq => ht (List.cons.inj heq).1

theorem answer_decodeAt_document (ht : t ≠ .null) :
    answer (decodeAt decoders .document path (t :: ts)) =
      (answer (readJson path (t :: ts))).map fun p => (.document p.1, p.2) := by
  rw [decodeAt]
  · cases readJson path (t :: ts) <;> rfl
  · exact fun _ heq => ht (List.cons.inj heq).1

theorem answer_decodeAt_list {item : Plan CodecRef} :
    answer (decodeAt decoders (.list item) path (.startArray :: ts)) =
      (answer (decodeItems decoders item path 0 ts)).map fun p => (.list p.1, p.2) := by
  rw [decodeAt]
  · simp only [expectToken_self, Shorter.tail]
    cases decodeItems decoders item path 0 ts <;> rfl
  · rintro _ ⟨⟩

theorem answer_decodeAt_map {value : Plan CodecRef} :
    answer (decodeAt decoders (.map value) path (.startObject :: ts)) =
      (answer (decodeEntries decoders value path [] ts)).map fun p => (.map p.1, p.2) := by
  rw [decodeAt]
  · simp only [expectToken_self, Shorter.tail]
    cases decodeEntries decoders value path [] ts <;> rfl
  · rintro _ ⟨⟩

theorem answer_decodeAt_record {ref : CodecRef} {decoder : Decoder}
    (hd : decoders ref.record = some decoder) :
    answer (decodeAt decoders (.record ref) path (.startObject :: ts)) =
      (answer (decodeFields decoders decoder path decoder.initial ts)).map fun p =>
        (p.1.toValue, p.2) := by
  rw [decodeAt]
  · simp only [hd, expectToken_self, Shorter.tail]
    cases decodeFields decoders decoder path decoder.initial ts <;> rfl
  · rintro _ ⟨⟩

theorem answer_decodeAt_unknown {ref : CodecRef} (ht : t ≠ .null)
    (hd : decoders ref.record = none) :
    answer (decodeAt decoders (.record ref) path (t :: ts)) =
      .error (.unknownRecord ref.codec.text) := by
  rw [decodeAt]
  · simp only [hd]
    rfl
  · exact fun _ heq => ht (List.cons.inj heq).1

/-- The token that a container begins with, by the plan. -/
def opening? : Plan CodecRef → Option Token
  | .list _ => some .startArray
  | .map _ => some .startObject
  | .record _ => some .startObject
  | _ => none

theorem answer_decodeAt_unexpected {plan : Plan CodecRef} {wanted : Token} (ht : t ≠ .null)
    (hwanted : opening? plan = some wanted) (hne : t ≠ wanted)
    (hd : ∀ ref, plan = .record ref → decoders ref.record ≠ none) :
    answer (decodeAt decoders plan path (t :: ts)) = .error (unexpected wanted path t) := by
  have hrefused : expectToken wanted path (t :: ts) = .error
      (Token.malformed path (.unexpected (.token wanted) t) ts) := if_neg hne
  have hnull : ∀ rest, t :: ts = .null :: rest → False :=
    fun _ heq => ht (List.cons.inj heq).1
  cases plan with
  | scalar kind => cases hwanted
  | document => cases hwanted
  | list item =>
      cases hwanted
      rw [decodeAt, hrefused]
      · rfl
      · exact hnull
  | map value =>
      cases hwanted
      rw [decodeAt, hrefused]
      · rfl
      · exact hnull
  | record ref =>
      cases hwanted
      cases hdec : decoders ref.record with
      | none => exact absurd hdec (hd ref rfl)
      | some decoder =>
          rw [decodeAt, hdec, hrefused]
          · rfl
          · exact hnull

theorem answer_decodeItems_end {item : Plan CodecRef} {i : Nat} :
    answer (decodeItems decoders item path i (.endArray :: ts)) = .ok ([], ts) := by
  rw [decodeItems]
  rfl

theorem answer_decodeItems_cons {item : Plan CodecRef} {i : Nat} (ht : t.opensValue = true) :
    answer (decodeItems decoders item path i (t :: ts)) =
      (answer (decodeAt decoders item (path.push (.index i)) (t :: ts))).bind fun p =>
        (answer (decodeItems decoders item path (i + 1) p.2)).map fun q => (p.1 :: q.1, q.2) := by
  rw [decodeItems]
  · cases decodeAt decoders item (path.push (.index i)) (t :: ts) with
    | error stop => rfl
    | ok p =>
        obtain ⟨v, rest, hlt⟩ := p
        simp only [answer, Except.bind]
        cases decodeItems decoders item path (i + 1) rest <;> rfl
  · rintro us heq
    obtain rfl := (List.cons.inj heq).1
    cases ht

theorem answer_decodeEntries_end {value : Plan CodecRef} {held : List (String × Value)} :
    answer (decodeEntries decoders value path held (.endObject :: ts)) = .ok (held, ts) := by
  rw [decodeEntries]
  rfl

theorem answer_decodeEntries_cons {value : Plan CodecRef} {held : List (String × Value)}
    {key : String} :
    answer (decodeEntries decoders value path held (.fieldName key :: ts)) =
      (answer (decodeAt decoders value (path.push (.key key)) ts)).bind fun p =>
        answer (decodeEntries decoders value path (Entries.put key p.1 held) p.2) := by
  rw [decodeEntries]
  cases decodeAt decoders value (path.push (.key key)) ts with
  | error stop => rfl
  | ok p =>
      obtain ⟨v, rest, hlt⟩ := p
      simp only [answer, Except.bind]
      cases decodeEntries decoders value path (Entries.put key v held) rest <;> rfl

theorem answer_decodeFields_end {decoder : Decoder} {record : Record} :
    answer (decodeFields decoders decoder path record (.endObject :: ts)) = .ok (record, ts) := by
  rw [decodeFields]
  rfl

theorem answer_decodeFields_field {decoder : Decoder} {record : Record} {key : String}
    {f : DecodeField} (hf : decoder.fieldFor? key = some f) :
    answer (decodeFields decoders decoder path record (.fieldName key :: ts)) =
      (answer (decodeAt decoders f.plan (path.push (.field f.wireKey)) ts)).bind fun p =>
        answer (decodeFields decoders decoder path (record.set f.field p.1) p.2) := by
  rw [decodeFields, hf]
  simp only
  cases decodeAt decoders f.plan (path.push (.field f.wireKey)) ts with
  | error stop => rfl
  | ok p =>
      obtain ⟨v, rest, hlt⟩ := p
      simp only [answer, Except.bind]
      cases decodeFields decoders decoder path (record.set f.field v) rest <;> rfl

theorem answer_decodeFields_skip {decoder : Decoder} {record : Record} {key : String}
    (hf : decoder.fieldFor? key = none) (hskips : Token.Skips us) :
    answer (decodeFields decoders decoder path record (.fieldName key :: (us ++ ts))) =
      answer (decodeFields decoders decoder path record ts) := by
  obtain ⟨⟨left, hlt⟩, hskip, hleft⟩ := map_eq_ok_iff.1 (hskips (path.push (.field key)) ts)
  obtain rfl : left = ts := hleft
  rw [decodeFields, hf]
  simp only [skipValue, hskip]
  cases decodeFields decoders decoder path record left <;> rfl

end

/-! ### The tokens of a document -/

section

variable {decoders : QualifiedName → Option Decoder} {path : Path} {rest : List Token}

theorem firstToken_ne_null {j : Json} (h : j ≠ .null) : j.firstToken ≠ .null := by
  cases j with
  | null => exact absurd rfl h
  | _ => exact nofun

/-- A document that does not begin as the plan wants it is refused as a tree, too. -/
theorem answer_decodeAt_refused {j : Json} {plan : Plan CodecRef} {wanted : Token}
    (hj : j ≠ .null) (hwanted : opening? plan = some wanted) (hne : j.firstToken ≠ wanted) :
    answer (decodeAt decoders plan path (j.tokens ++ rest)) =
      (treeValue decoders j plan path).map fun v => (v, rest) := by
  obtain ⟨ts, hts⟩ := j.exists_tokens
  have ht := firstToken_ne_null hj
  rw [hts, List.cons_append]
  cases plan with
  | scalar kind => cases hwanted
  | document => cases hwanted
  | list item =>
      rw [answer_decodeAt_unexpected ht hwanted hne nofun]
      cases hwanted
      cases j with
      | null => exact absurd rfl hj
      | array items => exact absurd rfl hne
      | _ => rfl
  | map value =>
      rw [answer_decodeAt_unexpected ht hwanted hne nofun]
      cases hwanted
      cases j with
      | null => exact absurd rfl hj
      | object entries => exact absurd rfl hne
      | _ => rfl
  | record ref =>
      cases hd : decoders ref.record with
      | none =>
          rw [answer_decodeAt_unknown ht hd]
          cases j with
          | null => exact absurd rfl hj
          | _ => simp only [treeValue, hd, Except.map]
      | some decoder =>
          have hknown : ∀ ref', Plan.record ref = .record ref' → decoders ref'.record ≠ none := by
            rintro _ ⟨⟩
            rw [hd]
            nofun
          rw [answer_decodeAt_unexpected ht hwanted hne hknown]
          cases hwanted
          cases j with
          | null => exact absurd rfl hj
          | object entries => exact absurd rfl hne
          | _ => simp only [treeValue, hd, Except.map]

theorem answer_decodeAt_inOrder {j : Json} (hj : j ≠ .null) :
    answer (decodeAt decoders .document path (j.tokens ++ rest)) =
      (treeValue decoders j .document path).map fun v => (v, rest) := by
  have hread := (j.spells_inOrder.gives path rest).answer_eq
  obtain ⟨ts, hts⟩ := j.exists_tokens
  rw [hts, List.cons_append] at hread ⊢
  rw [answer_decodeAt_document (firstToken_ne_null hj), hread]
  cases j with
  | null => exact absurd rfl hj
  | _ => rfl

/-- No scalar is read from the first token of a container. -/
theorem readScalar_opening (kind : ScalarKind) {t : Token}
    (h : t = .startArray ∨ t = .startObject) : readScalar kind t = .ok none := by
  rcases h with rfl | rfl <;> cases kind <;> rfl

theorem answer_decodeAt_container {j : Json} {kind : ScalarKind}
    (h : j.firstToken = .startArray ∨ j.firstToken = .startObject) :
    answer (decodeAt decoders (.scalar kind) path (j.tokens ++ rest)) =
      (treeValue decoders j (.scalar kind) path).map fun v => (v, rest) := by
  obtain ⟨ts, hts⟩ := j.exists_tokens
  have hj : j ≠ .null := by
    rintro rfl
    rcases h with h | h <;> cases h
  have htree : treeValue decoders j (.scalar kind) path = tokenValue kind path j.firstToken := by
    cases j with
    | null => exact absurd rfl hj
    | _ => rfl
  rw [hts, List.cons_append, answer_decodeAt_scalar (firstToken_ne_null hj), htree, tokenValue,
    readScalar_opening kind h]
  rfl

/-- A document of one token. -/
theorem answer_decodeAt_leaf (j : Json) (hj : j ≠ .null) (h : j.tokens = [j.firstToken])
    (plan : Plan CodecRef) :
    answer (decodeAt decoders plan path (j.tokens ++ rest)) =
      (treeValue decoders j plan path).map fun v => (v, rest) := by
  have harray : j.firstToken ≠ .startArray := by
    cases j with
    | array items => simp [Json.tokens] at h
    | _ => rintro ⟨⟩
  have hobject : j.firstToken ≠ .startObject := by
    cases j with
    | object entries => simp [Json.tokens] at h
    | _ => rintro ⟨⟩
  cases plan with
  | scalar kind =>
      rw [h, List.singleton_append, answer_decodeAt_scalar (firstToken_ne_null hj)]
      cases j with
      | null => exact absurd rfl hj
      | _ => rfl
  | document => exact answer_decodeAt_inOrder hj
  | list item => exact answer_decodeAt_refused hj rfl harray
  | map value => exact answer_decodeAt_refused hj rfl hobject
  | record ref => exact answer_decodeAt_refused hj rfl hobject

end

section

variable (decoders : QualifiedName → Option Decoder)

mutual

/-- Decoding the tokens of a document is decoding the document as a tree. -/
theorem answer_decodeAt_tokens : (j : Json) → (plan : Plan CodecRef) → (path : Path) →
    (rest : List Token) → answer (decodeAt decoders plan path (j.tokens ++ rest)) =
      (treeValue decoders j plan path).map fun v => (v, rest)
  | .null, _, _, _ => answer_decodeAt_null
  | .bool b, plan, _, _ => answer_decodeAt_leaf (.bool b) nofun rfl plan
  | .number n, plan, _, _ => answer_decodeAt_leaf (.number n) nofun rfl plan
  | .string s, plan, _, _ => answer_decodeAt_leaf (.string s) nofun rfl plan
  | .array items, plan, path, rest => by
      cases plan with
      | scalar kind => exact answer_decodeAt_container (.inl rfl)
      | document => exact answer_decodeAt_inOrder nofun
      | list item =>
          rw [Json.tokens, List.cons_append, List.append_assoc, answer_decodeAt_list,
            List.singleton_append, answer_decodeItems_tokens items, treeValue]
          cases treeItems decoders items item path 0 <;> rfl
      | map value => exact answer_decodeAt_refused nofun rfl nofun
      | record ref => exact answer_decodeAt_refused nofun rfl nofun
  | .object entries, plan, path, rest => by
      cases plan with
      | scalar kind => exact answer_decodeAt_container (.inr rfl)
      | document => exact answer_decodeAt_inOrder nofun
      | list item => exact answer_decodeAt_refused nofun rfl nofun
      | map value =>
          rw [Json.tokens, List.cons_append, List.append_assoc, answer_decodeAt_map,
            List.singleton_append, answer_decodeEntries_tokens entries, treeValue]
          cases treeEntries decoders entries value path [] <;> rfl
      | record ref =>
          cases hd : decoders ref.record with
          | none =>
              have ht : Token.startObject ≠ .null := nofun
              rw [Json.tokens, List.cons_append, answer_decodeAt_unknown ht hd, treeValue, hd]
              rfl
          | some decoder =>
              rw [Json.tokens, List.cons_append, List.append_assoc, answer_decodeAt_record hd,
                List.singleton_append, answer_decodeFields_tokens entries, treeValue, hd]
              simp only
              cases treeFields decoders entries decoder path decoder.initial <;> rfl

theorem answer_decodeItems_tokens : (items : List Json) → (item : Plan CodecRef) →
    (path : Path) → (i : Nat) → (rest : List Token) →
    answer (decodeItems decoders item path i (Json.itemTokens items ++ .endArray :: rest)) =
      (treeItems decoders items item path i).map fun vs => (vs, rest)
  | [], _, _, _, _ => answer_decodeItems_end
  | j :: items, item, path, i, rest => by
      have hfirst := answer_decodeAt_tokens j item (path.push (.index i))
        (Json.itemTokens items ++ .endArray :: rest)
      obtain ⟨ts, hts⟩ := j.exists_tokens
      rw [hts, List.cons_append] at hfirst
      rw [Json.itemTokens, List.append_assoc, hts, List.cons_append,
        answer_decodeItems_cons j.opensValue_firstToken, hfirst, treeItems]
      cases treeValue decoders j item (path.push (.index i)) with
      | error e => rfl
      | ok v =>
          simp only [Except.map, Except.bind]
          rw [answer_decodeItems_tokens items item path (i + 1) rest]
          cases treeItems decoders items item path (i + 1) <;> rfl

theorem answer_decodeEntries_tokens : (entries : List (String × Json)) →
    (value : Plan CodecRef) → (path : Path) → (held : List (String × Value)) →
    (rest : List Token) →
    answer (decodeEntries decoders value path held
        (Json.entryTokens entries ++ .endObject :: rest)) =
      (treeEntries decoders entries value path held).map fun vs => (vs, rest)
  | [], _, _, _, _ => answer_decodeEntries_end
  | (key, j) :: entries, value, path, held, rest => by
      rw [Json.entryTokens, List.cons_append, List.append_assoc, answer_decodeEntries_cons,
        answer_decodeAt_tokens j, treeEntries]
      cases treeValue decoders j value (path.push (.key key)) with
      | error e => rfl
      | ok v => exact answer_decodeEntries_tokens entries value path (Entries.put key v held) rest

theorem answer_decodeFields_tokens : (entries : List (String × Json)) → (decoder : Decoder) →
    (path : Path) → (record : Record) → (rest : List Token) →
    answer (decodeFields decoders decoder path record
        (Json.entryTokens entries ++ .endObject :: rest)) =
      (treeFields decoders entries decoder path record).map fun r => (r, rest)
  | [], _, _, _, _ => answer_decodeFields_end
  | (key, j) :: entries, decoder, path, record, rest => by
      rw [Json.entryTokens, List.cons_append, List.append_assoc, treeFields]
      cases hf : decoder.fieldFor? key with
      | none =>
          rw [answer_decodeFields_skip hf j.skips_tokens]
          exact answer_decodeFields_tokens entries decoder path record rest
      | some f =>
          rw [answer_decodeFields_field hf, answer_decodeAt_tokens j]
          simp only
          cases treeValue decoders j f.plan (path.push (.field f.wireKey)) with
          | error e => rfl
          | ok v =>
              exact answer_decodeFields_tokens entries decoder path (record.set f.field v) rest

end

/-- Decoding a record from the tokens of a document is decoding the document as a tree. -/
theorem decodeRecord_tokens (name : QualifiedName) (j : Json) (rest : List Token) :
    (decodeRecord decoders name (j.tokens ++ rest)).mapError Stop.error =
      (treeRecord decoders name j).map fun r => (r, rest) := by
  unfold decodeRecord treeRecord
  cases decoders name with
  | none => rfl
  | some decoder =>
      cases j with
      | object entries =>
          have hfields := answer_decodeFields_tokens decoders entries decoder (.root name.name)
            decoder.initial rest
          rw [Json.tokens, List.cons_append, List.append_assoc, expectToken_self]
          simp only [Shorter.tail, List.singleton_append] at hfields ⊢
          rw [← hfields]
          cases decodeFields decoders decoder (.root name.name) decoder.initial
            (Json.entryTokens entries ++ .endObject :: rest) <;> rfl
      | _ => rfl

end

/-- Decoding a document is decoding it as a tree. -/
theorem Catalog.decodeJson_eq_tree (c : Catalog) (spelling : String) (j : Json) :
    c.decodeJson spelling j =
      (c.resolve spelling).bind fun name => treeRecord c.decoder? name j := by
  have hanswer : c.decodeJson spelling j =
      ((c.decode spelling j.tokens).mapError Stop.error).map Prod.fst := by
    unfold decodeJson
    cases c.decode spelling j.tokens <;> rfl
  rw [hanswer, decode]
  cases c.resolve spelling with
  | error e => rfl
  | ok name =>
      have htree := decodeRecord_tokens c.decoder? name j []
      rw [List.append_nil] at htree
      simp only [Except.bind]
      rw [htree]
      cases treeRecord c.decoder? name j <;> rfl

end RecordCodec
