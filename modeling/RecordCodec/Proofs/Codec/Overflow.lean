import RecordCodec.Proofs.Codec.Awaiting
import RecordCodec.Proofs.Decimal.Exponent

/-!
The one way in which decoding ends a run. A literal whose exponent is the least 64-bit integer has
no magnitude among those integers. Such a literal ends the run exactly where a decimal is awaited;
a boolean in its place would be refused there, and reported.
-/

namespace RecordCodec

/-- The token is a literal, quoted or not, whose exponent has no magnitude. -/
def Token.Overflows (t : Token) : Prop :=
  ∃ literal, (t = .number literal ∨ t = .string literal) ∧ Decimal.Overflowing literal

/-! ### Scalars -/

theorem readDecimal_eq_error_iff {literal : String} {e : Error} :
    readScalar.decimal literal = .error e ↔
      Decimal.Overflowing literal ∧ e = .exponentOverflow literal := by
  rw [← Decimal.read_overflow_iff]
  unfold readScalar.decimal
  constructor
  · intro h
    split at h
    · cases h
    · cases h
    · rename_i hread
      cases h
      exact ⟨hread, rfl⟩
  · rintro ⟨hread, rfl⟩
    rw [hread]

/-- Only decimals are read with an error. -/
theorem readScalar_error {kind : ScalarKind} {t : Token} {e : Error}
    (h : readScalar kind t = .error e) : kind = .decimal ∧ t.Overflows ∧ e.endsRun = true := by
  cases kind with
  | decimal =>
      cases t with
      | number literal =>
          obtain ⟨hread, rfl⟩ := readDecimal_eq_error_iff.1 h
          exact ⟨rfl, ⟨literal, .inl rfl, hread⟩, rfl⟩
      | string literal =>
          obtain ⟨hread, rfl⟩ := readDecimal_eq_error_iff.1 h
          exact ⟨rfl, ⟨literal, .inr rfl, hread⟩, rfl⟩
      | _ => cases h
  | _ => cases t <;> cases h

theorem Token.Overflows.readScalar {t : Token} (h : t.Overflows) :
    ∃ literal, RecordCodec.readScalar .decimal t = .error (.exponentOverflow literal) := by
  obtain ⟨literal, rfl | rfl, hread⟩ := h
  · exact ⟨literal, readDecimal_eq_error_iff.2 ⟨hread, rfl⟩⟩
  · exact ⟨literal, readDecimal_eq_error_iff.2 ⟨hread, rfl⟩⟩

theorem Token.Overflows.opens {t : Token} (h : t.Overflows) :
    t.opensValue = true ∧ t ≠ .null := by
  obtain ⟨literal, rfl | rfl, _⟩ := h
  · exact ⟨rfl, nofun⟩
  · exact ⟨rfl, nofun⟩

/-- The tokens hold an overflowing literal in a place where reading them takes a decimal: a boolean
in its place would be refused as no decimal. -/
def MeetsOverflow {α : Type} (run : List Token → Except Stop α) (ts : List Token) : Prop :=
  ∃ taken t rest path, ts = taken ++ t :: rest ∧ t.Overflows ∧
    run (taken ++ .boolean true :: rest) =
      .error ⟨.decodeValue path .decimal (.boolean true), path, rest⟩

theorem Token.Overflows.refusal {t : Token} (h : t.Overflows) (path : Path) :
    ∃ e, refusal? .decimal t path = some e ∧ e.endsRun = true := by
  obtain ⟨literal, hread⟩ := h.readScalar
  refine ⟨.exponentOverflow literal, ?_, rfl⟩
  simp only [refusal?, hread]

/-- A refusal that ends the run is that of an overflowing literal as a decimal. -/
theorem overflows_of_refusal {kind : ScalarKind} {t : Token} {path : Path} {e : Error}
    (h : refusal? kind t path = some e) (he : e.endsRun = true) :
    kind = .decimal ∧ t.Overflows := by
  unfold refusal? at h
  split at h
  · cases h
  · cases h
    cases he
  · rename_i hread
    obtain ⟨hkind, ht, _⟩ := readScalar_error hread
    exact ⟨hkind, ht⟩

/-- A refusal that names its token and its kind is a refusal of this token as this kind. -/
theorem refusal_eq_decodeValue {kind wanted : ScalarKind} {t found : Token} {path path' : Path}
    (h : refusal? kind t path = some (.decodeValue path' wanted found)) :
    kind = wanted ∧ t = found := by
  unfold refusal? at h
  split at h
  · cases h
  · cases h
    exact ⟨rfl, rfl⟩
  · rename_i hread
    cases h
    have hends := (readScalar_error hread).2.2
    cases hends

theorem refusal_ne_unknownRecord {kind : ScalarKind} {t : Token} {path : Path} {name : String} :
    refusal? kind t path ≠ some (.unknownRecord name) := by
  intro h
  unfold refusal? at h
  split at h
  · cases h
  · cases h
  · rename_i hread
    cases h
    have hends := (readScalar_error hread).2.2
    cases hends

/-! ### Readers -/

section

variable {α : Type} {known : Prop} {run : List Token → Except Stop α}
  {awaits : List Token → ScalarKind → Path → Prop}

/-- The reader fails for the known reasons only, and does where it awaits a scalar and is given a
token that is none. -/
structure ReadsScalars (known : Prop) (run : List Token → Except Stop α)
    (awaits : List Token → ScalarKind → Path → Prop) : Prop where
  failure : ∀ {ts stop}, run ts = .error stop → Failure known awaits ts stop
  refuses : ∀ {taken kind path t e}, awaits taken kind path → t.opensValue = true → t ≠ .null →
    refusal? kind t path = some e → ∀ rest, run (taken ++ t :: rest) = .error ⟨e, path, rest⟩

namespace ReadsScalars

theorem endsRun_iff_awaits (h : ReadsScalars known run awaits) {ts : List Token} :
    (∃ stop, run ts = .error stop ∧ stop.error.endsRun = true) ↔
      ∃ taken t rest path, ts = taken ++ t :: rest ∧ t.Overflows ∧ awaits taken .decimal path := by
  constructor
  · rintro ⟨stop, hrun, hends⟩
    cases h.failure hrun with
    | outOfForm hform =>
        obtain ⟨path, fault, heq⟩ := hform
        rw [heq] at hends
        cases hends
    | unknown _ heq =>
        rw [heq] at hends
        cases hends
    | @refused taken t kind _ hawaits hrefusal =>
        obtain ⟨rfl, ht⟩ := overflows_of_refusal hrefusal hends
        exact ⟨taken, t, stop.rest, stop.path, rfl, ht, hawaits⟩
  · rintro ⟨taken, t, rest, path, rfl, ht, hawaits⟩
    obtain ⟨e, hrefusal, hends⟩ := ht.refusal path
    exact ⟨⟨e, path, rest⟩, h.refuses hawaits ht.opens.1 ht.opens.2 hrefusal rest, hends⟩

/-- With all records known, reading never ends at a record that is not. -/
theorem error_ne_unknownRecord (h : ReadsScalars known run awaits) (hknown : known)
    {ts : List Token} {stop : Stop} (hrun : run ts = .error stop) (name : String) :
    stop.error ≠ .unknownRecord name := by
  intro heq
  cases h.failure hrun with
  | outOfForm hform =>
      obtain ⟨path, fault, hmalformed⟩ := hform
      rw [heq] at hmalformed
      cases hmalformed
  | unknown hunknown _ => exact hunknown hknown
  | @refused taken t kind _ _ hrefusal =>
      rw [heq] at hrefusal
      exact refusal_ne_unknownRecord hrefusal

/-- A scalar is awaited exactly where a boolean is refused as a decimal. -/
theorem awaits_decimal_iff (h : ReadsScalars known run awaits) {taken : List Token} {path : Path}
    (rest : List Token) :
    awaits taken .decimal path ↔ run (taken ++ .boolean true :: rest) =
      .error ⟨.decodeValue path .decimal (.boolean true), path, rest⟩ := by
  constructor
  · intro hawaits
    have hne : Token.boolean true ≠ .null := nofun
    exact h.refuses hawaits rfl hne rfl rest
  · intro hrun
    have hfailure := h.failure hrun
    generalize hts : taken ++ .boolean true :: rest = ts at hfailure
    cases hfailure with
    | outOfForm hform =>
        obtain ⟨path, fault, heq⟩ := hform
        cases heq
    | unknown _ heq => cases heq
    | @refused taken' t kind _ hawaits hrefusal =>
        obtain ⟨rfl, rfl⟩ := refusal_eq_decodeValue hrefusal
        -- both splits leave the same rest, so they take the same tokens
        obtain rfl := List.append_cancel_right hts
        exact hawaits

/-- Reading ends the run exactly when it meets an overflowing literal. -/
theorem endsRun_iff (h : ReadsScalars known run awaits) {ts : List Token} :
    (∃ stop, run ts = .error stop ∧ stop.error.endsRun = true) ↔ MeetsOverflow run ts := by
  rw [h.endsRun_iff_awaits]
  constructor
  · rintro ⟨taken, t, rest, path, hts, ht, hawaits⟩
    exact ⟨taken, t, rest, path, hts, ht, (h.awaits_decimal_iff rest).1 hawaits⟩
  · rintro ⟨taken, t, rest, path, hts, ht, hrun⟩
    exact ⟨taken, t, rest, path, hts, ht, (h.awaits_decimal_iff rest).2 hrun⟩

end ReadsScalars

end

variable {decoders : QualifiedName → Option Decoder}

theorem readsScalars_decodeValue (plan : Plan CodecRef) (path : Path) :
    ReadsScalars (Supplied decoders plan) (decodeValue decoders plan path)
      (Awaits decoders plan path) where
  failure h := failure_of_decodeAt (map_eq_error_iff.1 h)
  refuses hawaits ht hne he rest := map_eq_error_iff.2 (hawaits.fails ht hne he rest)

/-- After the tokens, a scalar is read next inside a record of the kind. -/
def AwaitsRecord (decoders : QualifiedName → Option Decoder) (name : QualifiedName)
    (taken : List Token) (kind : ScalarKind) (path : Path) : Prop :=
  ∃ decoder us, decoders name = some decoder ∧ taken = .startObject :: us ∧
    AwaitsField decoders decoder (.root name.name) us kind path

/-- The kind is known, and so are the records that decoders in the table refer to. -/
def RecordSupplied (decoders : QualifiedName → Option Decoder) (name : QualifiedName) : Prop :=
  DecodersClosed decoders ∧ decoders name ≠ none

theorem readsScalars_decodeRecord (name : QualifiedName) :
    ReadsScalars (RecordSupplied decoders name) (decodeRecord decoders name)
      (AwaitsRecord decoders name) where
  failure h := by
    unfold decodeRecord at h
    split at h
    · rename_i hd
      cases h
      exact .unknown (fun hknown => hknown.2 hd) rfl
    · rename_i decoder hd
      split at h
      · rename_i hopen
        cases h
        exact failure_of_expectToken hopen
      · rename_i us hus hopen
        obtain rfl := eq_of_expectToken hopen
        have hfailure := failure_of_decodeFields (map_eq_error_iff.1 h)
        refine hfailure.after [.startObject] (fun hknown => ⟨hknown.1, hknown.1 hd⟩) ?_
        exact fun hawaits => ⟨decoder, _, hd, rfl, hawaits⟩
  refuses := by
    rintro taken kind path t e ⟨decoder, us, hd, rfl, hawaits⟩ ht hne he rest
    unfold decodeRecord
    rw [hd, List.cons_append]
    simp only [expectToken_self, Shorter.tail]
    exact map_eq_error_iff.2 (hawaits.fails ht hne he decoder.initial rest)

end RecordCodec
