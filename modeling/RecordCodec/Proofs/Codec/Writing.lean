import RecordCodec.Codec.Encode
import RecordCodec.Proofs.Record.Shape

/-!
What can be written. Writing goes on only while nothing has failed, so a whole is written when each
of its parts is, and its tokens are theirs in order. A record that is written is comparable: every
declared value in it has the shape that comparing follows.
-/

namespace RecordCodec

/-! ### Parts and wholes -/

namespace Written

theorem andThen_error_eq_none_iff {a : Written} {b : Unit → Written} :
    (a.andThen b).error = none ↔ a.error = none ∧ (b ()).error = none := by
  obtain ⟨ts, e⟩ := a
  cases e <;> simp

theorem andThen_eq_done {a : Written} {b : Unit → Written} {ts : List Token}
    (h : a.andThen b = ⟨ts, none⟩) :
    ∃ us vs, a = ⟨us, none⟩ ∧ b () = ⟨vs, none⟩ ∧ ts = us ++ vs := by
  obtain ⟨us, e⟩ := a
  cases e with
  | some e => cases h
  | none =>
      rw [andThen_done] at h
      injection h with htokens herror
      exact ⟨us, (b ()).tokens, rfl, congrArg (Written.mk _) herror, htokens.symm⟩

@[simp] theorem error_fail (e : Error) : (fail e).error = some e := rfl

end Written

theorem between_error {opening closing : Token} {w : Written} :
    (between opening closing w).error = w.error := by
  obtain ⟨ts, e⟩ := w
  cases e <;> rfl

theorem between_done {opening closing : Token} {ts : List Token} :
    between opening closing ⟨ts, none⟩ = ⟨opening :: (ts ++ [closing]), none⟩ := rfl

section

variable {path : Path}

theorem writeItems_error_eq_none {item : Plan CodecRef} {i : Nat} {ws : List Writer}
    (h : (writeItems item path i ws).error = none) :
    ∀ w ∈ ws, ∃ path, (w item path).error = none := by
  induction ws generalizing i with
  | nil => exact fun w hw => absurd hw List.not_mem_nil
  | cons w ws ih =>
      obtain ⟨hw, hws⟩ := Written.andThen_error_eq_none_iff.1 h
      exact List.forall_mem_cons.2 ⟨⟨_, hw⟩, ih hws⟩

theorem writeEntries_error_eq_none {value : Plan CodecRef} {ws : List (String × Writer)}
    (h : (writeEntries value path ws).error = none) :
    ∀ p ∈ ws, ∃ path, (p.2 value path).error = none := by
  induction ws with
  | nil => exact fun w hw => absurd hw List.not_mem_nil
  | cons p ws ih =>
      obtain ⟨_, hrest⟩ := Written.andThen_error_eq_none_iff.1 h
      obtain ⟨hp, hws⟩ := Written.andThen_error_eq_none_iff.1 hrest
      exact List.forall_mem_cons.2 ⟨⟨_, hp⟩, ih hws⟩

theorem writeFields_error_eq_none {ws : List (String × Writer)} {fields : List EncodeField}
    (h : (writeFields path ws fields).error = none) :
    ∀ f ∈ fields, ∀ w, Entries.get? f.field ws = some w →
      ∃ path, (w f.plan path).error = none := by
  induction fields with
  | nil => exact fun f hf => absurd hf List.not_mem_nil
  | cons f fields ih =>
      obtain ⟨_, hrest⟩ := Written.andThen_error_eq_none_iff.1 h
      obtain ⟨hf, hfields⟩ := Written.andThen_error_eq_none_iff.1 hrest
      refine List.forall_mem_cons.2 ⟨fun w hw => ?_, ih hfields⟩
      rw [hw] at hf
      exact ⟨_, hf⟩

end

/-! ### What is written is comparable -/

/-- The leaves that comparing asks for: scalars of the declared kind or narrower numbers, and
documents that have a text. -/
def comparableLeaves : Leaves where
  scalar kind v := (scalarToken? kind v).isSome = true
  document v := v.isWritable = true
  map _ := True
  record _ _ := True

theorem isWritable_of_writeDocument {v : Value} (h : (writeDocument v).error = none) :
    v.isWritable = true := by
  unfold writeDocument Value.rendering at h
  split at h
  · rename_i heq
    split at heq
    · assumption
    · cases heq
  · cases h

theorem scalarToken?_of_writeScalar {kind : ScalarKind} {path : Path} {v : Value}
    (h : (writeScalar kind path v).error = none) : (scalarToken? kind v).isSome = true := by
  unfold writeScalar at h
  split at h
  · rename_i ht
    rw [ht]
    rfl
  · rename_i ht
    rw [ht]
    rfl
  · cases h

section

variable {kinds : Kinds} {decoders : QualifiedName → Option Decoder}
  {encoders : QualifiedName → Option Encoder} {methods : MethodTable}

theorem writers_get? {field : String} {fields : List (String × Value)} {v : Value}
    (h : Entries.get? field fields = some v) :
    Entries.get? field (entryWriters encoders fields) = some (encodeValue encoders v) := by
  rw [entryWriters_eq_map, Entries.get?_map (encodeValue encoders) field, h]
  rfl

theorem comparable_of_writeFields (hg : Generates kinds decoders encoders methods)
    {name : QualifiedName} {encoder : Encoder} (he : encoders name = some encoder)
    {fields : List (String × Value)}
    (ih : ∀ p ∈ fields, ∀ plan path, (encodeValue encoders p.2 plan path).error = none →
      Shaped kinds comparableLeaves (plan.mapRef CodecRef.record) p.2)
    {path : Path}
    (h : (writeFields path (entryWriters encoders fields) encoder.fields).error = none) :
    Shaped kinds comparableLeaves (.record name) (.record name fields) := by
  obtain ⟨declared, hk, hfields⟩ := hg.kind_of_encoder he
  refine .record hk trivial fun f hf v hv => ?_
  have hmem : f.encodeField ∈ encoder.fields := hfields ▸ List.mem_map_of_mem hf
  obtain ⟨path', hw⟩ := writeFields_error_eq_none h _ hmem _ (writers_get? hv)
  rw [← f.mapRef_encodeField]
  exact ih _ (Entries.mem_of_get? hv) _ path' hw

theorem encodeValue_scalar {kind : ScalarKind} {path : Path} {v : Value} (h : v ≠ .null) :
    encodeValue encoders v (.scalar kind) path = writeScalar kind path v := by
  cases v with
  | null => exact absurd rfl h
  | _ => rfl

theorem encodeValue_document {path : Path} {v : Value} (h : v ≠ .null) :
    encodeValue encoders v .document path = writeDocument v := by
  cases v with
  | null => exact absurd rfl h
  | _ => rfl

theorem comparable_of_scalar {kind : ScalarKind} {path : Path} {v : Value}
    (h : (encodeValue encoders v (.scalar kind) path).error = none) :
    Shaped kinds comparableLeaves (.scalar kind) v := by
  by_cases hn : v = .null
  · rw [hn]
    exact .null
  · rw [encodeValue_scalar hn] at h
    exact .scalar (scalarToken?_of_writeScalar h)

theorem comparable_of_document {path : Path} {v : Value}
    (h : (encodeValue encoders v .document path).error = none) :
    Shaped kinds comparableLeaves .document v := by
  by_cases hn : v = .null
  · rw [hn]
    exact .null
  · rw [encodeValue_document hn] at h
    exact .document (isWritable_of_writeDocument h)

theorem comparable_of_encodeValue (hg : Generates kinds decoders encoders methods) (v : Value) :
    ∀ (plan : Plan CodecRef) (path : Path), (encodeValue encoders v plan path).error = none →
      Shaped kinds comparableLeaves (plan.mapRef CodecRef.record) v := by
  induction v using Value.nestedInduction with
  | leaf v hl hm hr =>
      intro plan path h
      cases plan with
      | scalar kind => exact comparable_of_scalar h
      | document => exact comparable_of_document h
      | _ =>
          cases v with
          | null => exact .null
          | list items => cases hl
          | map entries => cases hm
          | record name fields => cases hr
          | _ => simp [encodeValue] at h
  | list items ih =>
      intro plan path h
      cases plan with
      | list item =>
          rw [encodeValue, between_error, itemWriters_eq_map] at h
          refine .list fun v hv => ?_
          obtain ⟨path', hw⟩ := writeItems_error_eq_none h _ (List.mem_map_of_mem hv)
          exact ih v hv item path' hw
      | scalar kind => exact comparable_of_scalar h
      | document => exact comparable_of_document h
      | _ => simp [encodeValue] at h
  | map entries ih =>
      intro plan path h
      cases plan with
      | map value =>
          rw [encodeValue, between_error, entryWriters_eq_map] at h
          refine .map trivial fun p hp => ?_
          obtain ⟨path', hw⟩ := writeEntries_error_eq_none h _
            (List.mem_map_of_mem (f := fun p => (p.1, encodeValue encoders p.2)) hp)
          exact ih p hp value path' hw
      | scalar kind => exact comparable_of_scalar h
      | document => exact comparable_of_document h
      | _ => simp [encodeValue] at h
  | record name fields ih =>
      intro plan path h
      cases plan with
      | record ref =>
          simp only [encodeValue] at h
          split at h
          · rename_i hname
            subst hname
            split at h
            · cases h
            · rename_i encoder he
              rw [between_error] at h
              exact comparable_of_writeFields hg he ih h
          · cases h
      | scalar kind => exact comparable_of_scalar h
      | document => exact comparable_of_document h
      | _ => simp [encodeValue] at h

/-- A record that is written is comparable. -/
theorem comparable_of_encodeRecord (hg : Generates kinds decoders encoders methods) {r : Record}
    (h : (encodeRecord encoders r).error = none) : r.Shaped kinds comparableLeaves := by
  unfold encodeRecord at h
  split at h
  · cases h
  · rename_i encoder he
    rw [between_error] at h
    exact comparable_of_writeFields hg he
      (fun p _ plan path hp => comparable_of_encodeValue hg p.2 plan path hp) h

end

end RecordCodec
