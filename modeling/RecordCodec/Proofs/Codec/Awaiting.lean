import RecordCodec.Proofs.Codec.Reading
import RecordCodec.Proofs.Codec.References

/-!
Where decoding reads scalars. `Awaits` says that after the tokens taken so far a scalar of some
kind is read next, and at which path. A token that is refused there ends decoding with the reason
of the refusal; and decoding ends with such a reason only there. All other failures are streams
out of form and records that are not known.
-/

namespace RecordCodec

open Token (Skips readJson)

/-- Why a token is refused as a scalar, if it is. -/
def refusal? (kind : ScalarKind) (t : Token) (path : Path) : Option Error :=
  match readScalar kind t with
  | .ok (some _) => none
  | .ok none => some (.decodeValue path kind t)
  | .error e => some e

section

variable (decoders : QualifiedName → Option Decoder)

mutual

/-- After the tokens, a scalar is read next inside a value of the plan. -/
inductive Awaits : Plan CodecRef → Path → List Token → ScalarKind → Path → Prop
  | scalar {kind : ScalarKind} {path : Path} : Awaits (.scalar kind) path [] kind path
  | list {item : Plan CodecRef} {path path' : Path} {ts : List Token} {kind : ScalarKind} :
      AwaitsItem item path 0 ts kind path' →
      Awaits (.list item) path (.startArray :: ts) kind path'
  | map {value : Plan CodecRef} {path path' : Path} {ts : List Token} {kind : ScalarKind} :
      AwaitsEntry value path ts kind path' →
      Awaits (.map value) path (.startObject :: ts) kind path'
  | record {ref : CodecRef} {decoder : Decoder} {path path' : Path} {ts : List Token}
      {kind : ScalarKind} :
      decoders ref.record = some decoder → AwaitsField decoder path ts kind path' →
      Awaits (.record ref) path (.startObject :: ts) kind path'

/-- The same inside the items of a list from some position on. -/
inductive AwaitsItem : Plan CodecRef → Path → Nat → List Token → ScalarKind → Path → Prop
  | here {item : Plan CodecRef} {path path' : Path} {i : Nat} {ts : List Token}
      {kind : ScalarKind} :
      Awaits item (path.push (.index i)) ts kind path' → AwaitsItem item path i ts kind path'
  | later {item : Plan CodecRef} {path path' : Path} {i : Nat} {ts us : List Token} {v : Value}
      {kind : ScalarKind} :
      Decodes decoders item ts v → AwaitsItem item path (i + 1) us kind path' →
      AwaitsItem item path i (ts ++ us) kind path'

/-- The same inside the entries of a map. -/
inductive AwaitsEntry : Plan CodecRef → Path → List Token → ScalarKind → Path → Prop
  | here {value : Plan CodecRef} {path path' : Path} {key : String} {ts : List Token}
      {kind : ScalarKind} :
      Awaits value (path.push (.key key)) ts kind path' →
      AwaitsEntry value path (.fieldName key :: ts) kind path'
  | later {value : Plan CodecRef} {path path' : Path} {key : String} {ts us : List Token}
      {v : Value} {kind : ScalarKind} :
      Decodes decoders value ts v → AwaitsEntry value path us kind path' →
      AwaitsEntry value path (.fieldName key :: (ts ++ us)) kind path'

/-- The same inside the fields of a record. -/
inductive AwaitsField : Decoder → Path → List Token → ScalarKind → Path → Prop
  | here {decoder : Decoder} {path path' : Path} {key : String} {f : DecodeField}
      {ts : List Token} {kind : ScalarKind} :
      decoder.fieldFor? key = some f → Awaits f.plan (path.push (.field f.wireKey)) ts kind path' →
      AwaitsField decoder path (.fieldName key :: ts) kind path'
  | later {decoder : Decoder} {path path' : Path} {key : String} {f : DecodeField}
      {ts us : List Token} {v : Value} {kind : ScalarKind} :
      decoder.fieldFor? key = some f → Decodes decoders f.plan ts v →
      AwaitsField decoder path us kind path' →
      AwaitsField decoder path (.fieldName key :: (ts ++ us)) kind path'
  | skipped {decoder : Decoder} {path path' : Path} {key : String} {ts us : List Token}
      {kind : ScalarKind} :
      decoder.fieldFor? key = none → Skips ts → AwaitsField decoder path us kind path' →
      AwaitsField decoder path (.fieldName key :: (ts ++ us)) kind path'

end

end

variable {decoders : QualifiedName → Option Decoder}

/-! ### Paths

What is awaited does not depend on where the value stands, only its path does. -/

mutual

theorem Awaits.elsewhere {plan : Plan CodecRef} {path path' : Path} {ts : List Token}
    {kind : ScalarKind} : Awaits decoders plan path ts kind path' →
      ∀ other : Path, ∃ path'', Awaits decoders plan other ts kind path''
  | .scalar, other => ⟨other, .scalar⟩
  | .list h, other =>
      have ⟨path'', h'⟩ := h.elsewhere other
      ⟨path'', .list h'⟩
  | .map h, other =>
      have ⟨path'', h'⟩ := h.elsewhere other
      ⟨path'', .map h'⟩
  | .record hd h, other =>
      have ⟨path'', h'⟩ := h.elsewhere other
      ⟨path'', .record hd h'⟩

theorem AwaitsItem.elsewhere {item : Plan CodecRef} {path path' : Path} {i : Nat}
    {ts : List Token} {kind : ScalarKind} : AwaitsItem decoders item path i ts kind path' →
      ∀ other : Path, ∃ path'', AwaitsItem decoders item other i ts kind path''
  | .here h, other =>
      have ⟨path'', h'⟩ := h.elsewhere (other.push (.index i))
      ⟨path'', .here h'⟩
  | .later hv h, other =>
      have ⟨path'', h'⟩ := h.elsewhere other
      ⟨path'', .later hv h'⟩

theorem AwaitsEntry.elsewhere {value : Plan CodecRef} {path path' : Path} {ts : List Token}
    {kind : ScalarKind} : AwaitsEntry decoders value path ts kind path' →
      ∀ other : Path, ∃ path'', AwaitsEntry decoders value other ts kind path''
  | .here h, other =>
      have ⟨path'', h'⟩ := h.elsewhere (other.push (.key _))
      ⟨path'', .here h'⟩
  | .later hv h, other =>
      have ⟨path'', h'⟩ := h.elsewhere other
      ⟨path'', .later hv h'⟩

theorem AwaitsField.elsewhere {decoder : Decoder} {path path' : Path} {ts : List Token}
    {kind : ScalarKind} : AwaitsField decoders decoder path ts kind path' →
      ∀ other : Path, ∃ path'', AwaitsField decoders decoder other ts kind path''
  | .here hf h, other =>
      have ⟨path'', h'⟩ := h.elsewhere (other.push (.field _))
      ⟨path'', .here hf h'⟩
  | .later hf hv h, other =>
      have ⟨path'', h'⟩ := h.elsewhere other
      ⟨path'', .later hf hv h'⟩
  | .skipped hf hskips h, other =>
      have ⟨path'', h'⟩ := h.elsewhere other
      ⟨path'', .skipped hf hskips h'⟩

end

/-! ### A refused scalar ends decoding -/

theorem decodeScalar_of_refusal {kind : ScalarKind} {path : Path} {t : Token} {e : Error}
    (h : refusal? kind t path = some e) (rest : List Token) :
    decodeScalar kind path (t :: rest) = .error ⟨e, path, rest⟩ := by
  unfold refusal? at h
  split at h
  · cases h
  · rename_i hread
    cases h
    simp only [decodeScalar, hread]
  · rename_i hread
    cases h
    simp only [decodeScalar, hread]

theorem Awaits.opens {plan : Plan CodecRef} {path path' : Path} {ts : List Token}
    {kind : ScalarKind} (h : Awaits decoders plan path ts kind path') {t : Token}
    (ht : t.opensValue = true) (rest : List Token) :
    ∃ t' us, ts ++ t :: rest = t' :: us ∧ t'.opensValue = true := by
  cases h with
  | scalar => exact ⟨t, rest, rfl, ht⟩
  | list _ => exact ⟨_, _, rfl, rfl⟩
  | map _ => exact ⟨_, _, rfl, rfl⟩
  | record _ _ => exact ⟨_, _, rfl, rfl⟩

section

variable {plan : Plan CodecRef} {path : Path} {ts us : List Token} {stop : Stop}

theorem decodeItems_of_first {i : Nat} {t : Token} (ht : t.opensValue = true)
    (h : decodeAt decoders plan (path.push (.index i)) (t :: ts) = .error stop) :
    decodeItems decoders plan path i (t :: ts) = .error stop := by
  rw [decodeItems]
  · rw [h]
  · intro us heq
    obtain rfl := (List.cons.inj heq).1
    cases ht

theorem decodeItems_of_later {i : Nat} {v : Value} {t : Token} (ht : t.opensValue = true)
    (hv : Gives (decodeAt decoders plan (path.push (.index i)) (t :: ts)) v us)
    (h : decodeItems decoders plan path (i + 1) us = .error stop) :
    decodeItems decoders plan path i (t :: ts) = .error stop := by
  obtain ⟨hlt, hv⟩ := gives_iff.1 hv
  rw [decodeItems]
  · rw [hv]
    simp only [h]
  · intro us heq
    obtain rfl := (List.cons.inj heq).1
    cases ht

theorem decodeEntries_of_later {held : List (String × Value)} {key : String} {v : Value}
    (hv : Gives (decodeAt decoders plan (path.push (.key key)) ts) v us)
    (h : decodeEntries decoders plan path (Entries.put key v held) us = .error stop) :
    decodeEntries decoders plan path held (.fieldName key :: ts) = .error stop := by
  obtain ⟨hlt, hv⟩ := gives_iff.1 hv
  rw [decodeEntries, hv]
  simp only [h]

theorem decodeFields_of_later {decoder : Decoder} {record : Record} {key : String}
    {f : DecodeField} {v : Value} (hf : decoder.fieldFor? key = some f)
    (hv : Gives (decodeAt decoders f.plan (path.push (.field f.wireKey)) ts) v us)
    (h : decodeFields decoders decoder path (record.set f.field v) us = .error stop) :
    decodeFields decoders decoder path record (.fieldName key :: ts) = .error stop := by
  obtain ⟨hlt, hv⟩ := gives_iff.1 hv
  rw [decodeFields, hf]
  simp only [hv, h]

theorem decodeFields_of_skipped {decoder : Decoder} {record : Record} {key : String}
    (hf : decoder.fieldFor? key = none) (hskips : Skips ts)
    (h : decodeFields decoders decoder path record us = .error stop) :
    decodeFields decoders decoder path record (.fieldName key :: (ts ++ us)) = .error stop := by
  obtain ⟨⟨left, hlt⟩, hskip, hleft⟩ := map_eq_ok_iff.1 (hskips (path.push (.field key)) us)
  obtain rfl : left = us := hleft
  rw [decodeFields, hf]
  simp only [Token.skipValue, hskip, h]

end

mutual

theorem Awaits.fails {plan : Plan CodecRef} {path path' : Path} {ts : List Token}
    {kind : ScalarKind} {t : Token} {e : Error} (ht : t.opensValue = true) (hne : t ≠ .null)
    (he : refusal? kind t path' = some e) (rest : List Token) :
    Awaits decoders plan path ts kind path' →
      decodeAt decoders plan path (ts ++ t :: rest) = .error ⟨e, path', rest⟩
  | .scalar => by
      rw [List.nil_append, decodeAt]
      · exact decodeScalar_of_refusal he rest
      · intro us heq
        exact hne (List.cons.inj heq).1
  | .list h => by
      have hitems := h.fails ht hne he rest
      rw [List.cons_append, decodeAt]
      · simp only [expectToken_self, Shorter.tail, hitems]
      · exact nofun
  | .map h => by
      have hentries := h.fails ht hne he [] rest
      rw [List.cons_append, decodeAt]
      · simp only [expectToken_self, Shorter.tail, hentries]
      · exact nofun
  | .record hd h => by
      have hfields := fun record => h.fails ht hne he record rest
      rw [List.cons_append, decodeAt]
      · simp only [hd, expectToken_self, Shorter.tail, hfields]
      · exact nofun

theorem AwaitsItem.fails {item : Plan CodecRef} {path path' : Path} {i : Nat} {ts : List Token}
    {kind : ScalarKind} {t : Token} {e : Error} (ht : t.opensValue = true) (hne : t ≠ .null)
    (he : refusal? kind t path' = some e) (rest : List Token) :
    AwaitsItem decoders item path i ts kind path' →
      decodeItems decoders item path i (ts ++ t :: rest) = .error ⟨e, path', rest⟩
  | .here h => by
      have hfirst := h.fails ht hne he rest
      -- the first token of a value does not close the list
      obtain ⟨t', us, heq, ht'⟩ := h.opens ht rest
      rw [heq] at hfirst ⊢
      exact decodeItems_of_first ht' hfirst
  | .later hv h => by
      have hgives := hv.gives (path.push (.index i))
      have hlater := h.fails ht hne he rest
      obtain ⟨t', us, rfl, ht', _⟩ := hv.opens
      rw [List.append_assoc]
      exact decodeItems_of_later ht' (hgives _) hlater

theorem AwaitsEntry.fails {value : Plan CodecRef} {path path' : Path} {ts : List Token}
    {kind : ScalarKind} {t : Token} {e : Error} (ht : t.opensValue = true) (hne : t ≠ .null)
    (he : refusal? kind t path' = some e) (held : List (String × Value)) (rest : List Token) :
    AwaitsEntry decoders value path ts kind path' →
      decodeEntries decoders value path held (ts ++ t :: rest) = .error ⟨e, path', rest⟩
  | .here h => by
      have hfirst := h.fails ht hne he rest
      rw [List.cons_append, decodeEntries, hfirst]
  | .later hv h => by
      rw [List.cons_append, List.append_assoc]
      exact decodeEntries_of_later (hv.gives _ _) (h.fails ht hne he _ rest)

theorem AwaitsField.fails {decoder : Decoder} {path path' : Path} {ts : List Token}
    {kind : ScalarKind} {t : Token} {e : Error} (ht : t.opensValue = true) (hne : t ≠ .null)
    (he : refusal? kind t path' = some e) (record : Record) (rest : List Token) :
    AwaitsField decoders decoder path ts kind path' →
      decodeFields decoders decoder path record (ts ++ t :: rest) = .error ⟨e, path', rest⟩
  | .here hf h => by
      have hfirst := h.fails ht hne he rest
      rw [List.cons_append, decodeFields, hf]
      simp only [hfirst]
  | .later hf hv h => by
      rw [List.cons_append, List.append_assoc]
      exact decodeFields_of_later hf (hv.gives _ _) (h.fails ht hne he _ rest)
  | .skipped hf hskips h => by
      rw [List.cons_append, List.append_assoc]
      exact decodeFields_of_skipped hf hskips (h.fails ht hne he record rest)

end

/-! ### Decoding ends with a refusal only where a scalar is awaited -/

/-- Why decoding a stream ends short: the stream is out of form, a record is not known although
all should be, or a token is refused where a scalar is awaited. -/
inductive Failure (known : Prop) (awaits : List Token → ScalarKind → Path → Prop) :
    List Token → Stop → Prop
  | outOfForm {ts : List Token} {stop : Stop} :
      Token.OutOfForm stop → Failure known awaits ts stop
  | unknown {ts : List Token} {stop : Stop} {name : String} :
      ¬known → stop.error = .unknownRecord name → Failure known awaits ts stop
  | refused {taken : List Token} {t : Token} {kind : ScalarKind} {stop : Stop} :
      awaits taken kind stop.path → refusal? kind t stop.path = some stop.error →
      Failure known awaits (taken ++ t :: stop.rest) stop

namespace Failure

variable {known known' : Prop} {awaits awaits' : List Token → ScalarKind → Path → Prop}
  {ts : List Token} {stop : Stop}

/-- Tokens taken before those that are looked at do not change why decoding ends. -/
theorem after (h : Failure known awaits ts stop) (before : List Token) (hk : known' → known)
    (ha : ∀ {taken kind path}, awaits taken kind path → awaits' (before ++ taken) kind path) :
    Failure known' awaits' (before ++ ts) stop := by
  cases h with
  | outOfForm h => exact .outOfForm h
  | unknown hunknown h => exact .unknown (mt hk hunknown) h
  | refused hawaits hrefusal =>
      rw [← List.append_assoc]
      exact .refused (ha hawaits) hrefusal

theorem mono (h : Failure known awaits ts stop) (hk : known' → known)
    (ha : ∀ {taken kind path}, awaits taken kind path → awaits' taken kind path) :
    Failure known' awaits' ts stop :=
  h.after [] hk ha

end Failure

theorem failure_of_expectToken {known : Prop} {awaits : List Token → ScalarKind → Path → Prop}
    {wanted : Token} {path : Path} {ts : List Token} {stop : Stop}
    (h : expectToken wanted path ts = .error stop) : Failure known awaits ts stop := by
  refine .outOfForm ?_
  unfold expectToken at h
  split at h
  · cases h
    exact Token.outOfForm_malformed _ _ _
  · split at h
    · cases h
    · cases h
      exact Token.outOfForm_malformed _ _ _

theorem failure_of_decodeScalar {known : Prop} {kind : ScalarKind} {path : Path}
    {ts : List Token} {stop : Stop} (h : decodeScalar kind path ts = .error stop) :
    Failure known (Awaits decoders (.scalar kind) path) ts stop := by
  cases ts with
  | nil =>
      cases h
      exact .outOfForm (Token.outOfForm_malformed _ _ _)
  | cons t rest =>
      cases hrefusal : refusal? kind t path with
      | none =>
          unfold refusal? at hrefusal
          split at hrefusal
          · rename_i hread
            simp only [decodeScalar, hread] at h
            cases h
          · cases hrefusal
          · cases hrefusal
      | some e =>
          rw [decodeScalar_of_refusal hrefusal] at h
          cases h
          exact @Failure.refused _ _ [] t kind ⟨e, path, rest⟩ .scalar hrefusal

/-- The records that a plan and the plans of all decoders refer to are known. -/
def Supplied (decoders : QualifiedName → Option Decoder) (plan : Plan CodecRef) : Prop :=
  DecodersClosed decoders ∧ plan.Found decoders

/-- The records that a decoder and all decoders in the table refer to are known. -/
def FieldsSupplied (decoders : QualifiedName → Option Decoder) (decoder : Decoder) : Prop :=
  DecodersClosed decoders ∧ ∀ f ∈ decoder.fields, f.plan.Found decoders

theorem Supplied.fields {ref : CodecRef} {decoder : Decoder}
    (h : Supplied decoders (.record ref)) (hd : decoders ref.record = some decoder) :
    FieldsSupplied decoders decoder :=
  ⟨h.1, h.1 hd⟩

theorem Supplied.ne_none {ref : CodecRef} (h : Supplied decoders (.record ref)) :
    decoders ref.record ≠ none := by
  obtain ⟨decoder, hd⟩ := h.2 ref rfl
  rw [hd]
  exact nofun

theorem FieldsSupplied.field {decoder : Decoder} {key : String} {f : DecodeField}
    (h : FieldsSupplied decoders decoder) (hf : decoder.fieldFor? key = some f) :
    Supplied decoders f.plan :=
  ⟨h.1, h.2 f (List.mem_of_find?_eq_some hf)⟩

mutual

theorem failure_of_decodeAt {plan : Plan CodecRef} {path : Path} {ts : List Token} {stop : Stop}
    (h : decodeAt decoders plan path ts = .error stop) :
    Failure (Supplied decoders plan) (Awaits decoders plan path) ts stop := by
  rw [decodeAt.eq_def] at h
  split at h
  · cases h
  · split at h
    · exact failure_of_decodeScalar h
    · split at h
      · rename_i hopen
        cases h
        exact failure_of_expectToken hopen
      · rename_i us hus hopen
        split at h
        · rename_i hitems
          cases h
          have hfailure := failure_of_decodeItems hitems
          obtain rfl := eq_of_expectToken hopen
          exact hfailure.after [.startArray] id .list
        · cases h
    · split at h
      · rename_i hopen
        cases h
        exact failure_of_expectToken hopen
      · rename_i us hus hopen
        split at h
        · rename_i hentries
          cases h
          have hfailure := failure_of_decodeEntries hentries
          obtain rfl := eq_of_expectToken hopen
          exact hfailure.after [.startObject] id .map
        · cases h
    · exact .outOfForm (Token.outOfForm_of_readJson (map_eq_error_iff.1 h))
    · split at h
      · rename_i hd
        cases h
        exact .unknown (fun hknown => hknown.ne_none hd) rfl
      · rename_i decoder hd
        split at h
        · rename_i hopen
          cases h
          exact failure_of_expectToken hopen
        · rename_i us hus hopen
          split at h
          · rename_i hfields
            cases h
            have hfailure := failure_of_decodeFields hfields
            obtain rfl := eq_of_expectToken hopen
            exact hfailure.after [.startObject] (·.fields hd) (.record hd)
          · cases h
termination_by 2 * ts.length

theorem failure_of_decodeItems {item : Plan CodecRef} {path : Path} {i : Nat} {ts : List Token}
    {stop : Stop} (h : decodeItems decoders item path i ts = .error stop) :
    Failure (Supplied decoders item) (AwaitsItem decoders item path i) ts stop := by
  rw [decodeItems.eq_def] at h
  split at h
  · cases h
  · split at h
    · rename_i hv
      cases h
      exact (failure_of_decodeAt hv).mono id .here
    · rename_i v us hus hv
      split at h
      · rename_i hitems
        cases h
        have hfailure := failure_of_decodeItems hitems
        obtain ⟨taken, rfl, hdecodes⟩ := decodes_of_decodeAt (gives_of_eq hv)
        exact hfailure.after taken id (.later hdecodes)
      · cases h
termination_by 2 * ts.length + 1

theorem failure_of_decodeEntries {value : Plan CodecRef} {path : Path}
    {held : List (String × Value)} {ts : List Token} {stop : Stop}
    (h : decodeEntries decoders value path held ts = .error stop) :
    Failure (Supplied decoders value) (AwaitsEntry decoders value path) ts stop := by
  cases ts with
  | nil =>
      rw [decodeEntries] at h
      cases h
      exact .outOfForm (Token.outOfForm_malformed _ _ _)
  | cons t us =>
      cases t with
      | endObject =>
          rw [decodeEntries] at h
          cases h
      | fieldName key =>
          rw [decodeEntries] at h
          split at h
          · rename_i hv
            cases h
            exact (failure_of_decodeAt hv).after [.fieldName key] id .here
          · rename_i v us' hus hv
            split at h
            · rename_i hentries
              cases h
              have hfailure := failure_of_decodeEntries hentries
              obtain ⟨taken, rfl, hdecodes⟩ := decodes_of_decodeAt (gives_of_eq hv)
              exact hfailure.after (.fieldName key :: taken) id (.later hdecodes)
            · cases h
      | _ =>
          rw [decodeEntries] at h
          · cases h
            exact .outOfForm (Token.outOfForm_malformed _ _ _)
          all_goals exact nofun
termination_by 2 * ts.length + 1
decreasing_by
  all_goals first
    | omega
    | (subst_vars; simp only [List.length_cons]; omega)

theorem failure_of_decodeFields {decoder : Decoder} {path : Path} {record : Record}
    {ts : List Token} {stop : Stop}
    (h : decodeFields decoders decoder path record ts = .error stop) :
    Failure (FieldsSupplied decoders decoder) (AwaitsField decoders decoder path) ts stop := by
  cases ts with
  | nil =>
      rw [decodeFields] at h
      cases h
      exact .outOfForm (Token.outOfForm_malformed _ _ _)
  | cons t us =>
      cases t with
      | endObject =>
          rw [decodeFields] at h
          cases h
      | fieldName key =>
          rw [decodeFields] at h
          split at h
          · rename_i f hf
            split at h
            · rename_i hv
              cases h
              exact (failure_of_decodeAt hv).after [.fieldName key] (·.field hf) (.here hf)
            · rename_i v us' hus hv
              split at h
              · rename_i hfields
                cases h
                have hfailure := failure_of_decodeFields hfields
                obtain ⟨taken, rfl, hdecodes⟩ := decodes_of_decodeAt (gives_of_eq hv)
                exact hfailure.after (.fieldName key :: taken) id (.later hf hdecodes)
              · cases h
          · rename_i hf
            split at h
            · rename_i hskip
              cases h
              exact .outOfForm (Token.outOfForm_of_skipFrom hskip)
            · rename_i us' hus hskip
              split at h
              · rename_i hfields
                cases h
                have hfailure := failure_of_decodeFields hfields
                obtain ⟨taken, rfl, hskips⟩ := Token.skips_of_skipValue hskip
                exact hfailure.after (.fieldName key :: taken) id (.skipped hf hskips)
              · cases h
      | _ =>
          rw [decodeFields] at h
          · cases h
            exact .outOfForm (Token.outOfForm_malformed _ _ _)
          all_goals exact nofun
termination_by 2 * ts.length + 1
decreasing_by
  all_goals first
    | omega
    | (subst_vars; simp only [List.length_cons]; omega)

end

end RecordCodec
