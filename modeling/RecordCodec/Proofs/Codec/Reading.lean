import RecordCodec.Codec.Decode
import RecordCodec.Proofs.Token.Reading

/-!
What decoding takes. `Decodes` relates tokens to the value that they stand for under a plan, with
the decoders of a catalog at hand: fields and entries are added one by one, and values under keys
that no field has are skipped. Decoding succeeds exactly on a stream that begins with such tokens;
it takes these, whatever follows and wherever it stands.
-/

namespace RecordCodec

open Token (Spells Skips Taken readJson)

section

variable (decoders : QualifiedName → Option Decoder)

mutual

/-- The tokens stand for the value under the plan. -/
inductive Decodes : Plan CodecRef → List Token → Value → Prop
  | null {plan : Plan CodecRef} : Decodes plan [.null] .null
  | scalar {kind : ScalarKind} {t : Token} {v : Value} :
      readScalar kind t = .ok (some v) → Decodes (.scalar kind) [t] v
  | list {item : Plan CodecRef} {ts : List Token} {items : List Value} :
      DecodesItems item ts items → Decodes (.list item) (.startArray :: ts) (.list items)
  | map {value : Plan CodecRef} {ts : List Token} {entries : List (String × Value)} :
      DecodesEntries value [] ts entries → Decodes (.map value) (.startObject :: ts) (.map entries)
  | document {ts : List Token} {json : Json} :
      Spells ts json → json ≠ .null → Decodes .document ts (.document json)
  | record {ref : CodecRef} {decoder : Decoder} {ts : List Token} {r : Record} :
      decoders ref.record = some decoder → DecodesFields decoder decoder.initial ts r →
      Decodes (.record ref) (.startObject :: ts) r.toValue

/-- The tokens stand for the items and the end of a list. -/
inductive DecodesItems : Plan CodecRef → List Token → List Value → Prop
  | nil {item : Plan CodecRef} : DecodesItems item [.endArray] []
  | cons {item : Plan CodecRef} {ts us : List Token} {v : Value} {items : List Value} :
      Decodes item ts v → DecodesItems item us items → DecodesItems item (ts ++ us) (v :: items)

/-- The tokens stand for entries to be added to those held, and the end of a map. -/
inductive DecodesEntries : Plan CodecRef → List (String × Value) → List Token →
    List (String × Value) → Prop
  | nil {value : Plan CodecRef} {held : List (String × Value)} :
      DecodesEntries value held [.endObject] held
  | cons {value : Plan CodecRef} {held entries : List (String × Value)} {key : String}
      {ts us : List Token} {v : Value} :
      Decodes value ts v → DecodesEntries value (Entries.put key v held) us entries →
      DecodesEntries value held (.fieldName key :: (ts ++ us)) entries

/-- The tokens stand for fields to be set in a record, and the end of the record. -/
inductive DecodesFields : Decoder → Record → List Token → Record → Prop
  | nil {decoder : Decoder} {record : Record} : DecodesFields decoder record [.endObject] record
  | field {decoder : Decoder} {record record' : Record} {key : String} {f : DecodeField}
      {ts us : List Token} {v : Value} :
      decoder.fieldFor? key = some f → Decodes f.plan ts v →
      DecodesFields decoder (record.set f.field v) us record' →
      DecodesFields decoder record (.fieldName key :: (ts ++ us)) record'
  | skip {decoder : Decoder} {record record' : Record} {key : String} {ts us : List Token} :
      decoder.fieldFor? key = none → Skips ts → DecodesFields decoder record us record' →
      DecodesFields decoder record (.fieldName key :: (ts ++ us)) record'

end

end

variable {decoders : QualifiedName → Option Decoder}

theorem readScalar_opens {kind : ScalarKind} {t : Token} {v : Value}
    (h : readScalar kind t = .ok (some v)) : t.opensValue = true ∧ t ≠ .null := by
  cases t with
  | startObject | endObject | startArray | endArray | fieldName | null => cases kind <;> cases h
  | _ => exact ⟨rfl, nofun⟩

/-- Tokens that stand for anything but null begin otherwise than null does. -/
theorem Decodes.opens {plan : Plan CodecRef} {ts : List Token} {v : Value}
    (h : Decodes decoders plan ts v) :
    ∃ t us, ts = t :: us ∧ t.opensValue = true ∧ (t = .null → us = [] ∧ v = .null) := by
  cases h with
  | null => exact ⟨_, _, rfl, rfl, fun _ => ⟨rfl, rfl⟩⟩
  | scalar hv =>
      obtain ⟨hopens, hnull⟩ := readScalar_opens hv
      exact ⟨_, _, rfl, hopens, fun h => absurd h hnull⟩
  | list _ => exact ⟨_, _, rfl, rfl, nofun⟩
  | map _ => exact ⟨_, _, rfl, rfl, nofun⟩
  | document hspells hne =>
      cases hspells with
      | null => exact absurd rfl hne
      | _ => exact ⟨_, _, rfl, rfl, nofun⟩
  | record _ _ => exact ⟨_, _, rfl, rfl, nofun⟩

/-! ### What stands for a value is decoded -/

section

variable {plan : Plan CodecRef} {path : Path} {ts us rest : List Token}

theorem gives_decodeItems_cons {i : Nat} {v : Value} {items : List Value} {t : Token}
    (ht : t.opensValue = true)
    (h : Gives (decodeAt decoders plan (path.push (.index i)) (t :: ts)) v us)
    (hrest : Gives (decodeItems decoders plan path (i + 1) us) items rest) :
    Gives (decodeItems decoders plan path i (t :: ts)) (v :: items) rest := by
  obtain ⟨h, hv⟩ := gives_iff.1 h
  obtain ⟨h', hitems⟩ := gives_iff.1 hrest
  refine gives_iff.2 ⟨Nat.lt_trans h' h, ?_⟩
  rw [decodeItems]
  · rw [hv]
    simp only [hitems]
  · intro us heq
    obtain rfl := (List.cons.inj heq).1
    cases ht

theorem gives_decodeEntries_cons {held entries : List (String × Value)} {key : String} {v : Value}
    (h : Gives (decodeAt decoders plan (path.push (.key key)) ts) v us)
    (hrest : Gives (decodeEntries decoders plan path (Entries.put key v held) us) entries rest) :
    Gives (decodeEntries decoders plan path held (.fieldName key :: ts)) entries rest := by
  obtain ⟨h, hv⟩ := gives_iff.1 h
  obtain ⟨h', hentries⟩ := gives_iff.1 hrest
  refine gives_iff.2 ⟨Nat.lt_succ_of_lt (Nat.lt_trans h' h), ?_⟩
  rw [decodeEntries, hv]
  simp only [hentries]

theorem gives_decodeFields_field {decoder : Decoder} {record record' : Record} {key : String}
    {f : DecodeField} {v : Value} (hf : decoder.fieldFor? key = some f)
    (h : Gives (decodeAt decoders f.plan (path.push (.field f.wireKey)) ts) v us)
    (hrest : Gives (decodeFields decoders decoder path (record.set f.field v) us) record' rest) :
    Gives (decodeFields decoders decoder path record (.fieldName key :: ts)) record' rest := by
  obtain ⟨h, hv⟩ := gives_iff.1 h
  obtain ⟨h', hfields⟩ := gives_iff.1 hrest
  refine gives_iff.2 ⟨Nat.lt_succ_of_lt (Nat.lt_trans h' h), ?_⟩
  rw [decodeFields, hf]
  simp only [hv, hfields]

theorem gives_decodeFields_skip {decoder : Decoder} {record record' : Record} {key : String}
    (hf : decoder.fieldFor? key = none) (hskips : Skips ts)
    (hrest : Gives (decodeFields decoders decoder path record us) record' rest) :
    Gives (decodeFields decoders decoder path record (.fieldName key :: (ts ++ us))) record'
      rest := by
  obtain ⟨⟨left, hleft⟩, hskip, hus⟩ := map_eq_ok_iff.1 (hskips (path.push (.field key)) us)
  obtain rfl : left = us := hus
  obtain ⟨h', hfields⟩ := gives_iff.1 hrest
  refine gives_iff.2 ⟨Nat.lt_succ_of_lt (Nat.lt_trans h' hleft), ?_⟩
  rw [decodeFields, hf]
  simp only [Token.skipValue, hskip, hfields]

theorem expectToken_self (wanted : Token) (path : Path) (ts : List Token) :
    expectToken wanted path (wanted :: ts) = .ok (.tail wanted ts) := by
  simp [expectToken]

end

mutual

/-- Decoding takes the tokens that stand for a value. -/
theorem Decodes.gives {plan : Plan CodecRef} {ts : List Token} {v : Value} :
    Decodes decoders plan ts v → ∀ (path : Path) (rest : List Token),
      Gives (decodeAt decoders plan path (ts ++ rest)) v rest
  | .null, path, rest => by
      rw [List.singleton_append, decodeAt]
      rfl
  | .scalar hv, path, rest => by
      rw [List.singleton_append, decodeAt]
      · simp only [decodeScalar, hv]
        rfl
      · -- null is read before anything else, and no scalar is read from it
        intro us heq
        exact (readScalar_opens hv).2 (List.cons.inj heq).1
  | .list hitems, path, rest => by
      obtain ⟨h, hr⟩ := gives_iff.1 (hitems.gives path 0 rest)
      rw [List.cons_append, decodeAt]
      · simp only [expectToken_self, Shorter.tail, hr]
        rfl
      · exact nofun
  | .map hentries, path, rest => by
      obtain ⟨h, hr⟩ := gives_iff.1 (hentries.gives path rest)
      rw [List.cons_append, decodeAt]
      · simp only [expectToken_self, Shorter.tail, hr]
        rfl
      · exact nofun
  | .document hspells hne, path, rest => by
      obtain ⟨h, hr⟩ := gives_iff.1 (hspells.gives path rest)
      rw [decodeAt]
      · simp only [hr]
        rfl
      · intro us heq
        cases hspells with
        | null => exact hne rfl
        | _ => cases heq
  | .record hd hfields, path, rest => by
      obtain ⟨h, hr⟩ := gives_iff.1 (hfields.gives path rest)
      rw [List.cons_append, decodeAt]
      · simp only [hd, expectToken_self, Shorter.tail, hr]
        rfl
      · exact nofun

theorem DecodesItems.gives {item : Plan CodecRef} {ts : List Token} {items : List Value} :
    DecodesItems decoders item ts items → ∀ (path : Path) (i : Nat) (rest : List Token),
      Gives (decodeItems decoders item path i (ts ++ rest)) items rest
  | .nil, path, i, rest => by
      rw [List.singleton_append, decodeItems]
      rfl
  | .cons hv hitems, path, i, rest => by
      have hfirst := hv.gives (path.push (.index i))
      have hrest := hitems.gives path (i + 1) rest
      obtain ⟨t, ts', rfl, ht, _⟩ := hv.opens
      rw [List.append_assoc]
      exact gives_decodeItems_cons ht (hfirst _) hrest

theorem DecodesEntries.gives {value : Plan CodecRef} {held entries : List (String × Value)}
    {ts : List Token} :
    DecodesEntries decoders value held ts entries → ∀ (path : Path) (rest : List Token),
      Gives (decodeEntries decoders value path held (ts ++ rest)) entries rest
  | .nil, path, rest => by
      rw [List.singleton_append, decodeEntries]
      rfl
  | .cons hv hentries, path, rest => by
      rw [List.cons_append, List.append_assoc]
      exact gives_decodeEntries_cons (hv.gives _ _) (hentries.gives path rest)

theorem DecodesFields.gives {decoder : Decoder} {record record' : Record} {ts : List Token} :
    DecodesFields decoders decoder record ts record' → ∀ (path : Path) (rest : List Token),
      Gives (decodeFields decoders decoder path record (ts ++ rest)) record' rest
  | .nil, path, rest => by
      rw [List.singleton_append, decodeFields]
      rfl
  | .field hf hv hfields, path, rest => by
      rw [List.cons_append, List.append_assoc]
      exact gives_decodeFields_field hf (hv.gives _ _) (hfields.gives path rest)
  | .skip hf hskips hfields, path, rest => by
      rw [List.cons_append, List.append_assoc]
      exact gives_decodeFields_skip hf hskips (hfields.gives path rest)

end

/-! ### What is decoded stands for a value -/

theorem eq_of_expectToken {wanted : Token} {path : Path} {ts rest : List Token}
    {hlt : rest.length < ts.length} (h : expectToken wanted path ts = .ok ⟨rest, hlt⟩) :
    ts = wanted :: rest := by
  unfold expectToken at h
  split at h
  · cases h
  · split at h
    · rename_i heq
      cases h
      rw [heq]
    · cases h

theorem decodes_of_decodeScalar {kind : ScalarKind} {path : Path} {ts : List Token} {v : Value}
    {left : Shorter ts} (h : decodeScalar kind path ts = .ok (v, left)) :
    Taken (Decodes decoders (.scalar kind) · v) ts left.1 := by
  unfold decodeScalar at h
  split at h
  · cases h
  · split at h
    · rename_i t rest _ _ hv
      cases h
      exact ⟨[t], rfl, .scalar hv⟩
    · cases h
    · cases h

mutual

theorem decodes_of_decodeAt {plan : Plan CodecRef} {path : Path} {ts rest : List Token}
    {v : Value} (h : Gives (decodeAt decoders plan path ts) v rest) :
    Taken (Decodes decoders plan · v) ts rest := by
  obtain ⟨hlt, h⟩ := gives_iff.1 h
  rw [decodeAt.eq_def] at h
  split at h
  · cases h
    exact ⟨[.null], rfl, .null⟩
  · rename_i hnull
    split at h
    · exact decodes_of_decodeScalar h
    · split at h
      · cases h
      · rename_i us hus hopen
        obtain rfl := eq_of_expectToken hopen
        split at h
        · cases h
        · rename_i items us' hus' hitems
          cases h
          obtain ⟨taken, rfl, hdecodes⟩ := decodes_of_decodeItems (gives_of_eq hitems)
          exact ⟨.startArray :: taken, rfl, .list hdecodes⟩
    · split at h
      · cases h
      · rename_i us hus hopen
        obtain rfl := eq_of_expectToken hopen
        split at h
        · cases h
        · rename_i entries us' hus' hentries
          cases h
          obtain ⟨taken, rfl, hdecodes⟩ := decodes_of_decodeEntries (gives_of_eq hentries)
          exact ⟨.startObject :: taken, rfl, .map hdecodes⟩
    · obtain ⟨⟨json, us, hus⟩, hjson, heq⟩ := map_eq_ok_iff.1 h
      cases heq
      obtain ⟨taken, rfl, hspells⟩ := Token.spells_of_readJson (gives_of_eq hjson)
      refine ⟨taken, rfl, .document hspells ?_⟩
      -- the document null is the null token, which was read before
      rintro rfl
      cases hspells
      exact hnull _ rfl
    · split at h
      · cases h
      · rename_i decoder hd
        split at h
        · cases h
        · rename_i us hus hopen
          obtain rfl := eq_of_expectToken hopen
          split at h
          · cases h
          · rename_i record us' hus' hfields
            cases h
            obtain ⟨taken, rfl, hdecodes⟩ := decodes_of_decodeFields (gives_of_eq hfields)
            exact ⟨.startObject :: taken, rfl, .record hd hdecodes⟩
-- items begin with the tokens of their first value, so they weigh one more than a value
termination_by 2 * ts.length

theorem decodes_of_decodeItems {item : Plan CodecRef} {path : Path} {i : Nat}
    {ts rest : List Token} {items : List Value}
    (h : Gives (decodeItems decoders item path i ts) items rest) :
    Taken (DecodesItems decoders item · items) ts rest := by
  obtain ⟨hlt, h⟩ := gives_iff.1 h
  rw [decodeItems.eq_def] at h
  split at h
  · cases h
    exact ⟨[.endArray], rfl, .nil⟩
  · split at h
    · cases h
    · rename_i v us hus hv
      split at h
      · cases h
      · rename_i items' us' hus' hitems
        cases h
        obtain ⟨taken, rfl, hdecodes⟩ := decodes_of_decodeAt (gives_of_eq hv)
        obtain ⟨taken', rfl, hdecodes'⟩ := decodes_of_decodeItems (gives_of_eq hitems)
        exact ⟨taken ++ taken', (List.append_assoc _ _ _).symm, .cons hdecodes hdecodes'⟩
termination_by 2 * ts.length + 1

theorem decodes_of_decodeEntries {value : Plan CodecRef} {path : Path}
    {held entries : List (String × Value)} {ts rest : List Token}
    (h : Gives (decodeEntries decoders value path held ts) entries rest) :
    Taken (DecodesEntries decoders value held · entries) ts rest := by
  obtain ⟨hlt, h⟩ := gives_iff.1 h
  rw [decodeEntries.eq_def] at h
  split at h
  · cases h
  · cases h
    exact ⟨[.endObject], rfl, .nil⟩
  · split at h
    · cases h
    · rename_i v us' hus' hv
      split at h
      · cases h
      · rename_i entries' us'' hus'' hentries
        cases h
        obtain ⟨taken, rfl, hdecodes⟩ := decodes_of_decodeAt (gives_of_eq hv)
        obtain ⟨taken', rfl, hdecodes'⟩ := decodes_of_decodeEntries (gives_of_eq hentries)
        refine ⟨_, ?_, .cons hdecodes hdecodes'⟩
        rw [List.cons_append, List.append_assoc]
  · cases h
termination_by 2 * ts.length + 1

theorem decodes_of_decodeFields {decoder : Decoder} {path : Path} {record record' : Record}
    {ts rest : List Token}
    (h : Gives (decodeFields decoders decoder path record ts) record' rest) :
    Taken (DecodesFields decoders decoder record · record') ts rest := by
  obtain ⟨hlt, h⟩ := gives_iff.1 h
  rw [decodeFields.eq_def] at h
  split at h
  · cases h
  · cases h
    exact ⟨[.endObject], rfl, .nil⟩
  · split at h
    · rename_i f hf
      split at h
      · cases h
      · rename_i v us' hus' hv
        split at h
        · cases h
        · rename_i record'' us'' hus'' hfields
          cases h
          obtain ⟨taken, rfl, hdecodes⟩ := decodes_of_decodeAt (gives_of_eq hv)
          obtain ⟨taken', rfl, hdecodes'⟩ := decodes_of_decodeFields (gives_of_eq hfields)
          refine ⟨_, ?_, .field hf hdecodes hdecodes'⟩
          rw [List.cons_append, List.append_assoc]
    · rename_i hf
      split at h
      · cases h
      · rename_i us' hus' hskip
        split at h
        · cases h
        · rename_i record'' us'' hus'' hfields
          cases h
          obtain ⟨taken, rfl, hskips⟩ := Token.skips_of_skipValue hskip
          obtain ⟨taken', rfl, hdecodes'⟩ := decodes_of_decodeFields (gives_of_eq hfields)
          refine ⟨_, ?_, .skip hf hskips hdecodes'⟩
          rw [List.cons_append, List.append_assoc]
  · cases h
termination_by 2 * ts.length + 1

end

/-! ### Records -/

/-- The tokens stand for a record of the kind. -/
def DecodesRecord (decoders : QualifiedName → Option Decoder) (name : QualifiedName)
    (ts : List Token) (r : Record) : Prop :=
  ∃ decoder us, decoders name = some decoder ∧ ts = .startObject :: us ∧
    DecodesFields decoders decoder decoder.initial us r

/-- Decoding a record succeeds exactly on streams that begin with tokens that stand for it. -/
theorem decodeRecord_eq_ok_iff {name : QualifiedName} {ts rest : List Token} {r : Record} :
    decodeRecord decoders name ts = .ok (r, rest) ↔
      Taken (DecodesRecord decoders name · r) ts rest := by
  unfold decodeRecord
  constructor
  · intro h
    split at h
    · cases h
    · rename_i decoder hd
      split at h
      · cases h
      · rename_i us hus hopen
        obtain rfl := eq_of_expectToken hopen
        obtain ⟨taken, rfl, hdecodes⟩ := decodes_of_decodeFields h
        exact ⟨.startObject :: taken, rfl, decoder, taken, hd, rfl, hdecodes⟩
  · rintro ⟨taken, rfl, decoder, us, hd, rfl, hdecodes⟩
    rw [hd, List.cons_append]
    simp only [expectToken_self, Shorter.tail]
    exact hdecodes.gives _ rest

end RecordCodec
