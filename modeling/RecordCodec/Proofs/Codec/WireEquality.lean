import RecordCodec.Proofs.Decimal.Text
import RecordCodec.Proofs.Json.Text
import RecordCodec.Proofs.Record.Operations

/-!
Equality on the wire. Values of one plan are equal exactly when they are written with the same
tokens: the tokens of a value tell what they are made from, also at the front of a longer stream,
and numbers are written with one text whatever the kind of number. So the proof pairs two values
layer by layer with the words they are written as, and needs of the leaves only that decimals are
in normal form, that documents are not null and that maps are in key order.
-/

namespace RecordCodec

/-- What may stand at the leaves of values that their tokens tell apart: decimals that were read
from a text or made from an integer, and documents other than null. Maps are in key order, and of
records only the declared fields count. -/
def wireLeaves : Leaves where
  scalar _ v := ∀ d, v = .decimal d → d.Made
  document := DeclaredDocument
  map := Entries.Sorted
  record _ _ := True

/-! ### What is written -/

/-- The value is written by the plan as the tokens. -/
def Writes (encoders : QualifiedName → Option Encoder) (plan : Plan CodecRef) (v : Value)
    (ts : List Token) : Prop :=
  ∃ path, encodeValue encoders v plan path = ⟨ts, none⟩

/-- The word of one entry: its key and the tokens of its value. -/
def WritesEntry (encoders : QualifiedName → Option Encoder) (value : Plan CodecRef)
    (p : String × Value) (ts : List Token) : Prop :=
  ∃ us, Writes encoders value p.2 us ∧ ts = .fieldName p.1 :: us

/-- The word of one field of a record: its wire key and the tokens of its value. -/
def WritesField (encoders : QualifiedName → Option Encoder) (fields : List (String × Value))
    (f : EncodeField) (ts : List Token) : Prop :=
  ∃ us, Writes encoders f.plan (Entries.getD f.field fields) us ∧ ts = .fieldName f.wireKey :: us

section

variable {encoders : QualifiedName → Option Encoder} {ts : List Token}

theorem between_eq_done {opening closing : Token} {w : Written}
    (h : between opening closing w = ⟨ts, none⟩) :
    ∃ us, w = ⟨us, none⟩ ∧ ts = opening :: (us ++ [closing]) := by
  obtain ⟨us, e⟩ := w
  cases e with
  | some e => cases h
  | none =>
      rw [between_done] at h
      exact ⟨us, rfl, (congrArg Written.tokens h).symm⟩

theorem words_of_writeItems {item : Plan CodecRef} {path : Path} {i : Nat} {items : List Value}
    (h : writeItems item path i (itemWriters encoders items) = ⟨ts, none⟩) :
    ∃ ws, List.Forall₂ (Writes encoders item) items ws ∧ ts = ws.flatten := by
  induction items generalizing i ts with
  | nil =>
      cases h
      exact ⟨[], .nil, rfl⟩
  | cons v rest ih =>
      obtain ⟨us, vs, hv, hrest, rfl⟩ := Written.andThen_eq_done h
      obtain ⟨ws, hws, rfl⟩ := ih hrest
      exact ⟨us :: ws, .cons ⟨_, hv⟩ hws, rfl⟩

theorem words_of_writeEntries {value : Plan CodecRef} {path : Path}
    {entries : List (String × Value)}
    (h : writeEntries value path (entryWriters encoders entries) = ⟨ts, none⟩) :
    ∃ ws, List.Forall₂ (WritesEntry encoders value) entries ws ∧ ts = ws.flatten := by
  induction entries generalizing ts with
  | nil =>
      cases h
      exact ⟨[], .nil, rfl⟩
  | cons p rest ih =>
      obtain ⟨key, hkey, hp, hafter, rfl⟩ := Written.andThen_eq_done h
      obtain ⟨us, vs, hv, hrest, rfl⟩ := Written.andThen_eq_done hafter
      obtain ⟨ws, hws, rfl⟩ := ih hrest
      cases hp
      exact ⟨_ :: ws, .cons ⟨us, ⟨_, hv⟩, rfl⟩ hws, by simp⟩

/-- A field that is not set is written as null is. -/
theorem write_getD (key : String) (entries : List (String × Value)) (plan : Plan CodecRef)
    (path : Path) :
    (match Entries.get? key (entryWriters encoders entries) with
      | some w => w plan path
      | none => ⟨[.null], none⟩) = encodeValue encoders (Entries.getD key entries) plan path := by
  rw [entryWriters_eq_map, Entries.get?_map (encodeValue encoders), Entries.getD]
  cases Entries.get? key entries with
  | none => simp [encodeValue]
  | some v => rfl

theorem words_of_writeFields {path : Path} {entries : List (String × Value)}
    {fields : List EncodeField}
    (h : writeFields path (entryWriters encoders entries) fields = ⟨ts, none⟩) :
    ∃ ws, List.Forall₂ (WritesField encoders entries) fields ws ∧ ts = ws.flatten := by
  induction fields generalizing ts with
  | nil =>
      cases h
      exact ⟨[], .nil, rfl⟩
  | cons f rest ih =>
      obtain ⟨key, hkey, hf, hafter, rfl⟩ := Written.andThen_eq_done h
      obtain ⟨us, vs, hv, hrest, rfl⟩ := Written.andThen_eq_done hafter
      have hv := (write_getD f.field entries f.plan _).symm.trans hv
      obtain ⟨ws, hws, rfl⟩ := ih hrest
      cases hf
      exact ⟨_ :: ws, .cons ⟨us, ⟨_, hv⟩, rfl⟩ hws, by simp⟩

namespace Writes

theorem of_null {plan : Plan CodecRef} (h : Writes encoders plan .null ts) : ts = [.null] := by
  obtain ⟨path, h⟩ := h
  rw [encodeValue] at h
  exact (congrArg Written.tokens h).symm

theorem of_scalar {kind : ScalarKind} {v : Value} (h : Writes encoders (.scalar kind) v ts)
    (hv : v ≠ .null) : ∃ t, scalarToken? kind v = some t ∧ ts = [t] ∧ v.isWritable = true := by
  obtain ⟨path, h⟩ := h
  rw [encodeValue_scalar hv] at h
  unfold writeScalar at h
  split at h
  · rename_i d t ht
    split at h
    · cases h
      exact ⟨t, ht, rfl, by assumption⟩
    · cases h
  · rename_i v _ _ t hd ht
    cases h
    refine ⟨t, ht, rfl, ?_⟩
    cases v with
    | decimal d => exact absurd rfl (hd d)
    | list items => cases kind <;> cases ht
    | map entries => cases kind <;> cases ht
    | record name fields => cases kind <;> cases ht
    | _ => rfl
  · cases h

theorem of_document {json : Json} (h : Writes encoders .document (.document json) ts) :
    ts = json.tokens := by
  obtain ⟨path, h⟩ := h
  cases h
  rfl

theorem of_list {item : Plan CodecRef} {items : List Value}
    (h : Writes encoders (.list item) (.list items) ts) :
    ∃ ws, List.Forall₂ (Writes encoders item) items ws ∧
      ts = .startArray :: (ws.flatten ++ [.endArray]) := by
  obtain ⟨path, h⟩ := h
  obtain ⟨us, hus, rfl⟩ := between_eq_done h
  obtain ⟨ws, hws, rfl⟩ := words_of_writeItems hus
  exact ⟨ws, hws, rfl⟩

theorem of_map {value : Plan CodecRef} {entries : List (String × Value)}
    (h : Writes encoders (.map value) (.map entries) ts) :
    ∃ ws, List.Forall₂ (WritesEntry encoders value) entries ws ∧
      ts = .startObject :: (ws.flatten ++ [.endObject]) := by
  obtain ⟨path, h⟩ := h
  obtain ⟨us, hus, rfl⟩ := between_eq_done h
  obtain ⟨ws, hws, rfl⟩ := words_of_writeEntries hus
  exact ⟨ws, hws, rfl⟩

theorem of_record {ref : CodecRef} {encoder : Encoder}
    (he : encoders ref.record = some encoder) {entries : List (String × Value)}
    (h : Writes encoders (.record ref) (.record ref.record entries) ts) :
    ∃ ws, List.Forall₂ (WritesField encoders entries) encoder.fields ws ∧
      ts = .startObject :: (ws.flatten ++ [.endObject]) := by
  obtain ⟨path, h⟩ := h
  rw [encodeValue, if_pos rfl, he] at h
  obtain ⟨us, hus, rfl⟩ := between_eq_done h
  obtain ⟨ws, hws, rfl⟩ := words_of_writeFields hus
  exact ⟨ws, hws, rfl⟩

end Writes

end

/-! ### Scalars -/

/-- A number is written with the text of the decimal that it is. -/
theorem token_of_number {kind : ScalarKind} {v : Value} {t : Token} {d : Decimal}
    (ht : scalarToken? kind v = some t) (hd : v.asDecimal? = some d) : t = .number d.text := by
  rcases number_cases hd with ⟨i, rfl, rfl⟩ | ⟨i, rfl, rfl⟩ | rfl
  · rw [Decimal.text_ofInt]
    cases kind <;> cases ht <;> rfl
  · rw [Decimal.text_ofInt]
    cases kind <;> cases ht <;> rfl
  · cases kind <;> cases ht
    rfl

theorem normal_of_number {v : Value} {d : Decimal} (hv : ∀ d, v = .decimal d → d.Made)
    (hw : v.isWritable = true) (hd : v.asDecimal? = some d) :
    Decimal.Normal d ∧ d.isWritable = true := by
  rcases number_cases hd with ⟨i, rfl, rfl⟩ | ⟨i, rfl, rfl⟩ | rfl
  · exact ⟨(Decimal.plain_ofInt _).normal, Decimal.isWritable_of_plain (Decimal.plain_ofInt _)⟩
  · exact ⟨(Decimal.plain_ofInt _).normal, Decimal.isWritable_of_plain (Decimal.plain_ofInt _)⟩
  · exact ⟨(hv d rfl).normal, hw⟩

/-- Scalars of one kind are equal exactly when they have the same token. -/
theorem compareScalars_eq_iff {kind : ScalarKind} {x y : Value} {t u : Token}
    (ht : scalarToken? kind x = some t) (hu : scalarToken? kind y = some u)
    (hx : ∀ d, x = .decimal d → d.Made) (hy : ∀ d, y = .decimal d → d.Made)
    (hwx : x.isWritable = true) (hwy : y.isWritable = true) :
    compareScalars x y = .ok .eq ↔ t = u := by
  have hsx : (scalarToken? kind x).isSome = true := by rw [ht]; rfl
  have hsy : (scalarToken? kind y).isSome = true := by rw [hu]; rfl
  rcases scalar_cases hsx with ⟨rfl, a, rfl⟩ | ⟨rfl, a, rfl⟩ | ⟨hs, hb, a, ha⟩
  · rcases scalar_cases hsy with ⟨_, b, rfl⟩ | ⟨h, _⟩ | ⟨h, _⟩
    · cases ht
      cases hu
      simp [compareScalars]
    · cases h
    · exact absurd rfl h
  · rcases scalar_cases hsy with ⟨h, _⟩ | ⟨_, b, rfl⟩ | ⟨_, h, _⟩
    · cases h
    · cases ht
      cases hu
      simp [compareScalars]
    · exact absurd rfl h
  · obtain ⟨b, hb⟩ : ∃ b, y.asDecimal? = some b := by
      rcases scalar_cases hsy with ⟨h, _⟩ | ⟨h, _⟩ | ⟨_, _, h⟩
      · exact absurd h hs
      · exact absurd h hb
      · exact h
    obtain ⟨hna, hwa⟩ := normal_of_number hx hwx ha
    obtain ⟨hnb, hwb⟩ := normal_of_number hy hwy hb
    rw [compareScalars_numbers ha hb, token_of_number ht ha, token_of_number hu hb]
    rw [Except.ok.injEq, Decimal.compare_eq_iff hna hnb, Token.number.injEq]
    exact ⟨congrArg Decimal.text, Decimal.text_injective hna hnb hwa hwb⟩

/-! ### Values -/

section

variable {kinds : Kinds} {decoders : QualifiedName → Option Decoder}
  {encoders : QualifiedName → Option Encoder} {methods : MethodTable} {plan : Plan QualifiedName}
  {cp : Plan CodecRef} {x y : Value} {ts us : List Token}

theorem opens_of_scalarToken? {kind : ScalarKind} {v : Value} {t : Token}
    (h : scalarToken? kind v = some t) : t.opensValue = true ∧ t ≠ .null := by
  unfold scalarToken? at h
  split at h <;> cases h <;> exact ⟨rfl, nofun⟩

/-- What is written for a value begins like one, and with null only for null. -/
theorem Writes.opens (hg : Generates kinds decoders encoders methods)
    (hx : Shaped kinds wireLeaves plan x) (hcp : cp.mapRef CodecRef.record = plan)
    (h : Writes encoders cp x ts) :
    ∃ t rest, ts = t :: rest ∧ t.opensValue = true ∧ (t = .null → x = .null) := by
  by_cases hn : x = .null
  · subst hn
    exact ⟨.null, [], h.of_null, rfl, fun _ => rfl⟩
  · cases hx with
    | null => exact absurd rfl hn
    | scalar _ =>
        obtain rfl := Plan.mapRef_eq_scalar hcp
        obtain ⟨t, ht, rfl, _⟩ := h.of_scalar hn
        obtain ⟨hopens, hnull⟩ := opens_of_scalarToken? ht
        exact ⟨t, [], rfl, hopens, fun heq => absurd heq hnull⟩
    | document hv =>
        obtain rfl := Plan.mapRef_eq_document hcp
        obtain ⟨json, rfl, hne⟩ := hv
        obtain rfl := h.of_document
        obtain ⟨t, rest, htokens, hopens⟩ := json.opens_tokens
        refine ⟨t, rest, htokens, hopens, ?_⟩
        rintro rfl
        cases json with
        | null => exact absurd rfl hne
        | _ => cases htokens
    | list _ =>
        obtain ⟨item, rfl, _⟩ := Plan.mapRef_eq_list hcp
        obtain ⟨ws, _, rfl⟩ := h.of_list
        exact ⟨_, _, rfl, rfl, by rintro ⟨⟩⟩
    | map _ _ =>
        obtain ⟨value, rfl, _⟩ := Plan.mapRef_eq_map hcp
        obtain ⟨ws, _, rfl⟩ := h.of_map
        exact ⟨_, _, rfl, rfl, by rintro ⟨⟩⟩
    | record hk _ _ =>
        obtain ⟨ref, rfl, rfl⟩ := Plan.mapRef_eq_record hcp
        obtain ⟨encoder, he, _⟩ := hg.encoder_of_kind hk
        obtain ⟨ws, _, rfl⟩ := h.of_record he
        exact ⟨_, _, rfl, rfl, by rintro ⟨⟩⟩

/-- Null is written as no other value, so only values that are not null need to be looked at. -/
theorem aligned_nulls (hg : Generates kinds decoders encoders methods)
    (hx : Shaped kinds wireLeaves plan x) (hy : Shaped kinds wireLeaves plan y)
    (hcp : cp.mapRef CodecRef.record = plan) (hts : Writes encoders cp x ts)
    (hus : Writes encoders cp y us)
    (h : x ≠ .null → y ≠ .null →
      Aligned Anything ts us (equalValue methods x plan y = .ok true)) :
    Aligned Anything ts us (equalValue methods x plan y = .ok true) := by
  obtain ⟨t, ts', rfl, _, ht⟩ := hts.opens hg hx hcp
  obtain ⟨u, us', rfl, _, hu⟩ := hus.opens hg hy hcp
  by_cases hxn : x = .null
  · subst hxn
    cases hts.of_null
    by_cases hyn : y = .null
    · subst hyn
      cases hus.of_null
      exact Aligned.nil.cons_self.congr (by simp)
    · refine (Aligned.of_ne fun heq => hyn (hu heq.symm)).congr ?_
      simp [Value.isNull_iff, hyn]
  · by_cases hyn : y = .null
    · subst hyn
      cases hus.of_null
      refine (Aligned.of_ne fun heq => hxn (ht heq)).congr ?_
      cases x with
      | null => exact absurd rfl hxn
      | _ => exact ⟨False.elim, nofun⟩
    · exact h hxn hyn

theorem aligned_fields {xs ys : List (String × Value)} {fields : List RecordField}
    {ws vs : List (List Token)} {P : RecordField → Prop}
    (hws : List.Forall₂ (fun f => WritesField encoders xs f.encodeField) fields ws)
    (hvs : List.Forall₂ (fun f => WritesField encoders ys f.encodeField) fields vs)
    (h : ∀ f ∈ fields, ∀ ts us,
      Writes encoders f.encodeField.plan (Entries.getD f.name xs) ts →
      Writes encoders f.encodeField.plan (Entries.getD f.name ys) us →
      Aligned Anything ts us (P f)) :
    Aligned Anything ws.flatten vs.flatten (∀ f ∈ fields, P f) := by
  induction hws generalizing vs with
  | nil =>
      cases hvs
      exact Aligned.nil.congr (by simp)
  | cons hw _ ih =>
      cases hvs with
      | cons hv hvs =>
          obtain ⟨hf, hfields⟩ := List.forall_mem_cons.1 h
          obtain ⟨ts, hts, rfl⟩ := hw
          obtain ⟨us, hus, rfl⟩ := hv
          rw [List.forall_mem_cons, List.flatten_cons, List.flatten_cons]
          exact (hf ts us hts hus).cons_self.append (ih hvs hfields) (fun _ _ => trivial)
            (fun _ _ => trivial)

theorem compareRendered_document_eq_iff (a b : Json) :
    (Value.document a).compareRendered (.document b) = .ok .eq ↔ a = b := by
  rw [Value.compareRendered_of_writable rfl rfl, Except.ok.injEq, Ordering.then_eq_eq,
    Std.LawfulEqOrd.compare_eq_iff_eq, Std.LawfulEqOrd.compare_eq_iff_eq]
  constructor
  · rintro ⟨_, htext⟩
    exact Json.text_injective htext
  · rintro rfl
    exact ⟨rfl, rfl⟩

theorem aligned_list (hg : Generates kinds decoders encoders methods) {item : Plan CodecRef}
    {plan : Plan QualifiedName} (hitem : item.mapRef CodecRef.record = plan) {xs ys : List Value}
    (hxs : ∀ x ∈ xs, Shaped kinds wireLeaves plan x)
    (hys : ∀ y ∈ ys, Shaped kinds wireLeaves plan y)
    (hts : Writes encoders (.list item) (.list xs) ts)
    (hus : Writes encoders (.list item) (.list ys) us)
    (h : ∀ x ∈ xs, ∀ y ∈ ys, ∀ ts us, Writes encoders item x ts → Writes encoders item y us →
      Aligned Anything ts us (equalValue methods x plan y = .ok true)) :
    Aligned Anything ts us
      (equalValue methods (.list xs) (.list plan) (.list ys) = .ok true) := by
  obtain ⟨ws, hws, rfl⟩ := hts.of_list
  obtain ⟨vs, hvs, rfl⟩ := hus.of_list
  rw [equalValue_list_iff]
  apply Aligned.cons_self
  apply Aligned.row (G := Anything) (S := fun t => t.opensValue = true) ?_ (by decide)
    (fun _ _ _ => trivial) ((List.forall₂_and_left _ _).2 ⟨hxs, hws⟩)
    ((List.forall₂_and_left _ _).2 ⟨hys, hvs⟩)
  · rintro x hx y hy w v ⟨_, hw⟩ ⟨_, hv⟩
    exact h x hx y hy w v hw hv
  · rintro x w ⟨hx, hw⟩
    obtain ⟨t, rest, rfl, hopens, _⟩ := hw.opens hg hx hitem
    exact ⟨t, rest, rfl, hopens⟩

theorem aligned_map {value : Plan CodecRef} {plan : Plan QualifiedName}
    {xs ys : List (String × Value)} (hx : Entries.Sorted xs) (hy : Entries.Sorted ys)
    (hts : Writes encoders (.map value) (.map xs) ts)
    (hus : Writes encoders (.map value) (.map ys) us)
    (h : ∀ p ∈ xs, ∀ q ∈ ys, ∀ ts us, Writes encoders value p.2 ts →
      Writes encoders value q.2 us →
      Aligned Anything ts us (equalValue methods p.2 plan q.2 = .ok true)) :
    Aligned Anything ts us (equalValue methods (.map xs) (.map plan) (.map ys) = .ok true) := by
  obtain ⟨ws, hws, rfl⟩ := hts.of_map
  obtain ⟨vs, hvs, rfl⟩ := hus.of_map
  rw [equalValue_map_iff_forall₂ hx hy]
  apply Aligned.cons_self
  apply Aligned.row (G := Anything) (S := fun t => ∃ key, t = .fieldName key) ?_ (by simp)
    (fun _ _ _ => trivial) hws hvs
  · rintro p hp q hq w v ⟨ts, hts, rfl⟩ ⟨us, hus, rfl⟩
    exact (h p hp q hq ts us hts hus).cons.congr (by rw [Token.fieldName.injEq])
  · rintro p w ⟨ts, _, rfl⟩
    exact ⟨_, _, rfl, p.1, rfl⟩

theorem aligned_record (hg : Generates kinds decoders encoders methods) {ref : CodecRef}
    {fields : List RecordField} (hk : kinds ref.record = some fields)
    {xs ys : List (String × Value)}
    (hts : Writes encoders (.record ref) (.record ref.record xs) ts)
    (hus : Writes encoders (.record ref) (.record ref.record ys) us)
    (h : ∀ f ∈ fields, ∀ ts us,
      Writes encoders f.encodeField.plan (Entries.getD f.name xs) ts →
      Writes encoders f.encodeField.plan (Entries.getD f.name ys) us →
      Aligned Anything ts us
        (equalValue methods (Entries.getD f.name xs) f.plan (Entries.getD f.name ys) =
          .ok true)) :
    Aligned Anything ts us (equalValue methods (.record ref.record xs) (.record ref.record)
      (.record ref.record ys) = .ok true) := by
  obtain ⟨encoder, he, hfields⟩ := hg.encoder_of_kind hk
  obtain ⟨ws, hws, rfl⟩ := hts.of_record he
  obtain ⟨vs, hvs, rfl⟩ := hus.of_record he
  rw [hfields, List.forall₂_map_left_iff] at hws hvs
  rw [equalValue_record_iff (hg.methods_of_kind hk), List.forall_mem_map]
  have hrow := (aligned_fields hws hvs h).append (F := Anything)
    (Aligned.nil.cons_self (t := Token.endObject)) (fun _ _ => trivial) (fun _ _ => trivial)
  exact hrow.cons_self.congr (and_iff_left trivial)

/-- Values of one plan are aligned on their equality. -/
theorem aligned_of_writes (hg : Generates kinds decoders encoders methods)
    (hx : Shaped kinds wireLeaves plan x) : ∀ {y cp ts us}, Shaped kinds wireLeaves plan y →
      cp.mapRef CodecRef.record = plan → Writes encoders cp x ts → Writes encoders cp y us →
      Aligned Anything ts us (equalValue methods x plan y = .ok true) := by
  induction hx with
  | null =>
      intro y cp ts us hy hcp hts hus
      exact aligned_nulls hg .null hy hcp hts hus fun hxn => absurd rfl hxn
  | scalar hv =>
      intro y cp ts us hy hcp hts hus
      refine aligned_nulls hg (.scalar hv) hy hcp hts hus fun hxn hyn => ?_
      obtain rfl := Plan.mapRef_eq_scalar hcp
      obtain ⟨t, ht, rfl, hwx⟩ := hts.of_scalar hxn
      obtain ⟨u, hu, rfl, hwy⟩ := hus.of_scalar hyn
      refine Aligned.nil.cons.congr ?_
      rw [equalValue_scalar hxn hyn, Comparison.isEq_eq_true_iff,
        compareScalars_eq_iff ht hu hv (hy.scalar_of_ne hyn) hwx hwy, and_true]
  | document hv =>
      intro y cp ts us hy hcp hts hus
      refine aligned_nulls hg (.document hv) hy hcp hts hus fun hxn hyn => ?_
      obtain rfl := Plan.mapRef_eq_document hcp
      obtain ⟨a, rfl, _⟩ := hv
      obtain ⟨b, rfl, _⟩ := hy.document_of_ne hyn
      obtain rfl := hts.of_document
      obtain rfl := hus.of_document
      refine (Json.aligned_tokens a b).congr ?_
      rw [equalValue_document hxn hyn, Comparison.isEq_eq_true_iff, compareRendered_document_eq_iff]
  | list hxs ih =>
      intro y cp ts us hy hcp hts hus
      refine aligned_nulls hg (.list hxs) hy hcp hts hus fun hxn hyn => ?_
      obtain ⟨item, rfl, hitem⟩ := Plan.mapRef_eq_list hcp
      obtain ⟨ys, rfl, hys⟩ := hy.list_of_ne hyn
      exact aligned_list hg hitem hxs hys hts hus
        fun x hx y hy _ _ hts hus => ih x hx (hys y hy) hitem hts hus
  | @map plan xs hsorted hxs ih =>
      intro y cp ts us hy hcp hts hus
      refine aligned_nulls hg (.map hsorted hxs) hy hcp hts hus fun hxn hyn => ?_
      obtain ⟨value, rfl, hvalue⟩ := Plan.mapRef_eq_map hcp
      cases hy with
      | null => exact absurd rfl hyn
      | map hsorted' hys =>
          exact aligned_map hsorted hsorted' hts hus
            fun p hp q hq _ _ hts hus => ih p hp (hys q hq) hvalue hts hus
  | @record name fields xs hk _ hxs ih =>
      intro y cp ts us hy hcp hts hus
      refine aligned_nulls hg (.record hk trivial hxs) hy hcp hts hus fun hxn hyn => ?_
      obtain ⟨ref, rfl, rfl⟩ := Plan.mapRef_eq_record hcp
      obtain ⟨ys, rfl, hys⟩ := hy.record_of_ne hk hyn
      refine aligned_record hg hk hts hus fun f hf ts us hts hus => ?_
      have hplan := f.mapRef_encodeField
      rcases getD_cases f.name xs with hnull | hsome
      · have hx' := shaped_getD (hxs f hf)
        refine aligned_nulls hg hx' (shaped_getD (hys f hf)) hplan hts hus fun hxn => ?_
        exact absurd hnull hxn
      · exact ih f hf _ hsome (shaped_getD (hys f hf)) hplan hts hus

/-! ### Records -/

theorem writes_of_encodeRecord {r : Record} (h : (encodeRecord encoders r).error = none)
    (codec : QualifiedName) :
    Writes encoders (.record ⟨r.name, codec⟩) r.toValue (encodeRecord encoders r).tokens := by
  refine ⟨.root r.name.name, ?_⟩
  cases he : encoders r.name with
  | none => simp [encodeRecord, he] at h
  | some encoder =>
      have heq : encodeValue encoders r.toValue (.record ⟨r.name, codec⟩) (.root r.name.name) =
          encodeRecord encoders r := by
        rw [Record.toValue, encodeValue, if_pos rfl, encodeRecord]
        simp only [he]
      rw [heq, ← h]

end

/-- Records of one kind that a compiled catalog can write are tested for equality without failing,
and are equal exactly when the same tokens are written for them. -/
theorem Forest.equals_eq_sameTokens {settings : Settings} {forest : Forest} {catalog : Catalog}
    (hc : forest.compile settings = .ok catalog) {a b : Record} (hname : a.name = b.name)
    (ha : (catalog.encode a).error = none) (hb : (catalog.encode b).error = none)
    (hwa : a.Shaped catalog.kinds wireLeaves) (hwb : b.Shaped catalog.kinds wireLeaves) :
    a.equals catalog.methods b =
      .ok (decide ((catalog.encode a).tokens = (catalog.encode b).tokens)) := by
  have hg := generates_of_compile hc
  have hm := hg.methods_of_kinds
  obtain ⟨t, ht⟩ := equals_total hm (comparable_of_encodeRecord hg ha)
    (comparable_of_encodeRecord hg hb)
  have hts := writes_of_encodeRecord ha a.name
  have hus := writes_of_encodeRecord hb a.name
  unfold Record.Shaped at hwa hwb
  rw [← hname] at hwb hus
  have haligned := aligned_of_writes hg hwa hwb rfl hts hus
  have hiff := haligned.eq_iff trivial
  rw [← Record.equals_eq_equalValue, ht, Except.ok.injEq] at hiff
  rw [ht, Except.ok.injEq, Bool.eq_iff_iff, decide_eq_true_iff]
  exact hiff.symm

/-- Ledger entries may hold any made number. -/
theorem Record.shaped_ledgerEntry {kinds : Kinds}
    (hk : (kinds ⟨"generated.model", "Entry"⟩).map (List.map RecordField.plan) =
      some [.scalar .decimal])
    {v : Value} (hv : ∀ d, v = .decimal d → d.Made) :
    (Record.ledgerEntry v).Shaped kinds wireLeaves := by
  obtain ⟨fields, hk, hplans⟩ := Option.map_eq_some_iff.1 hk
  refine .record hk trivial fun f hf w hw => ?_
  have hplan := List.mem_map_of_mem (f := RecordField.plan) hf
  rw [hplans, List.mem_singleton] at hplan
  obtain ⟨_, rfl⟩ : "amount" = f.name ∧ v = w := by
    simpa [Record.ledgerEntry, Entries.get?_cons] using hw
  rw [hplan]
  exact .scalar hv

theorem Forest.ledger_kinds : ∃ catalog, ledger.compile {} = .ok catalog ∧
    ([Value.int 1, .decimal ⟨false, ['1'], 0⟩].all
        (fun v => (catalog.encode (.ledgerEntry v)).error.isNone) &&
      decide ((catalog.kinds ⟨"generated.model", "Entry"⟩).map (List.map RecordField.plan) =
        some [.scalar .decimal])) = true :=
  exists_catalog (by decide +kernel)

/-- The integer one and the decimal read from `1.00`. -/
theorem Forest.ledger_equals_eq_sameTokens : ∃ catalog, ledger.compile {} = .ok catalog ∧
    Decimal.read "1.00" = .ok ⟨false, ['1'], 0⟩ ∧
    Record.equals catalog.methods (.ledgerEntry (.int 1))
        (.ledgerEntry (.decimal ⟨false, ['1'], 0⟩)) =
      .ok (decide ((catalog.encode (.ledgerEntry (.int 1))).tokens =
        (catalog.encode (.ledgerEntry (.decimal ⟨false, ['1'], 0⟩))).tokens)) := by
  obtain ⟨catalog, hc, htest⟩ := ledger_kinds
  obtain ⟨hall, hkinds⟩ := Bool.and_eq_true_iff.1 htest
  have hw : ∀ v ∈ [Value.int 1, .decimal ⟨false, ['1'], 0⟩],
      (catalog.encode (.ledgerEntry v)).error = none := by
    intro v hv
    exact Option.isNone_iff_eq_none.1 (List.all_eq_true.1 hall v hv)
  have hk := of_decide_eq_true hkinds
  have hread : Decimal.read "1.00" = .ok ⟨false, ['1'], 0⟩ := by decide +kernel
  refine ⟨catalog, hc, hread, equals_eq_sameTokens hc rfl (hw _ (by simp)) (hw _ (by simp))
    (Record.shaped_ledgerEntry hk nofun) (Record.shaped_ledgerEntry hk ?_)⟩
  rintro d ⟨⟩
  exact .inl ⟨"1.00", hread⟩

end RecordCodec
