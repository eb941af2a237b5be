import RecordCodec.Proofs.Codec.Points
import RecordCodec.Proofs.Compile.Overflow
import RecordCodec.Proofs.Record.Operations

/-!
What can end a run. Compiling and decoding end it at a literal with the least 64-bit integer as
its exponent, where a decimal is wanted, and nowhere else. A decoded record ends it when it is
written with a decimal whose point falls inside a character; comparing decoded records, testing
them for equality and copying them never does.
-/

namespace RecordCodec

/-! ### Decoding -/

/-- The record can be had by decoding. -/
def Catalog.Decoded (c : Catalog) (r : Record) : Prop :=
  ∃ spelling ts rest, c.decode spelling ts = .ok (r, rest)

theorem Catalog.readsScalars_decode (c : Catalog) (spelling : String) :
    ReadsScalars (∃ name, c.resolve spelling = .ok name ∧ RecordSupplied c.decoder? name)
      (c.decode spelling) fun taken kind path => ∃ name,
        c.resolve spelling = .ok name ∧ AwaitsRecord c.decoder? name taken kind path where
  failure h := by
    unfold decode at h
    split at h
    · rename_i name hname
      refine ((readsScalars_decodeRecord name).failure h).mono ?_ ?_
      · rintro ⟨other, hother, hknown⟩
        rw [hname] at hother
        cases hother
        exact hknown
      · exact fun hawaits => ⟨name, hname, hawaits⟩
    · rename_i e hresolve
      cases h
      have hunknown : ¬∃ name, c.resolve spelling = .ok name ∧ RecordSupplied c.decoder? name := by
        rintro ⟨name, hname, _⟩
        rw [hresolve] at hname
        cases hname
      unfold resolve at hresolve
      split at hresolve
      · cases hresolve
      · cases hresolve
        exact .unknown hunknown rfl
  refuses := by
    rintro taken kind path t e ⟨name, hname, hawaits⟩ ht hne he rest
    unfold decode
    rw [hname]
    exact (readsScalars_decodeRecord name).refuses hawaits ht hne he rest

section

variable {settings : Settings} {forest : Forest} {catalog : Catalog}

theorem Forest.shaped_of_decoded (hc : forest.compile settings = .ok catalog) {r : Record}
    (h : catalog.Decoded r) : r.Shaped catalog.kinds declaredLeaves := by
  obtain ⟨spelling, ts, rest, h⟩ := h
  unfold Catalog.decode at h
  split at h
  · obtain ⟨taken, _, hdecodes⟩ := decodeRecord_eq_ok_iff.1 h
    exact (hdecodes.shaped (decodesKinds_of_compile hc)).2
  · cases h

end

/-! ### Defaults -/

theorem Compile.defaultOverflows_iff_meets {type : FieldType} {json : Json} :
    defaultOverflows type json = true ↔ type.isStructLeaf = false ∧
      MeetsOverflow (decodeValue (fun _ => none) (.ofType none type) (.root "")) json.tokens := by
  rw [defaultOverflows_iff, DefaultOverflows]
  refine and_congr_right fun _ => ?_
  rw [← (readsScalars_decodeValue _ _).endsRun_iff,
    (readsScalars_decodeValue _ _).endsRun_iff_awaits]

/-! ### Runs -/

/-- Compiling ends the run when a default overflows that it meets, decoding when a literal
overflows in the place of a decimal. Decoded records are written unless the point of a decimal in
them falls inside a character, and everything else that is done with them comes to an end. -/
theorem Forest.endsRun_at_decimals (settings : Settings) (forest : Forest) :
    (∀ type json, Compile.defaultOverflows type json = true ↔ type.isStructLeaf = false ∧
      MeetsOverflow (decodeValue (fun _ => none) (.ofType none type) (.root "")) json.tokens) ∧
    ((∃ e, forest.compile settings = .error e ∧ e.endsRun = true) ↔
      forest.compile settings ≠ (forest.defused settings.untyped).compile settings) ∧
    ∀ catalog, forest.compile settings = .ok catalog →
      (∀ spelling ts,
        (∃ stop, catalog.decode spelling ts = .error stop ∧ stop.error.endsRun = true) ↔
          MeetsOverflow (catalog.decode spelling) ts) ∧
      ∀ a, catalog.Decoded a →
        ((catalog.encode a).error = none ↔ a.toValue.isWritable = true) ∧
        (∀ e, (catalog.encode a).error = some e → ∃ digits, e = .pointInsideCharacter digits) ∧
        a.deepCopy catalog.methods = a ∧
        ∀ b, catalog.Decoded b →
          (∃ t, a.equals catalog.methods b = .ok t) ∧
          ∃ o : Ordering, a.compare catalog.methods b = .ok o := by
  refine ⟨fun _ _ => Compile.defaultOverflows_iff_meets,
    (compile_defuses settings forest).endsRun_iff, fun catalog hc => ⟨fun spelling _ => ?_, ?_⟩⟩
  · exact (catalog.readsScalars_decode spelling).endsRun_iff
  -- a decoded record has the declared shape, which is more than what comparing asks for
  intro a ha
  have hg := generates_of_compile hc
  have hm : ∀ name fields, catalog.kinds name = some fields →
      catalog.methods name = some (fields.map RecordField.method) :=
    fun _ _ hk => hg.methods_of_kind hk
  have ha := shaped_of_decoded hc ha
  have houtcome := outcome_encodeRecord hg ha
  refine ⟨houtcome.error_eq_none_iff, fun e he => houtcome.error_eq_some he, a.deepCopy_eq, ?_⟩
  intro b hb
  have ha := Shaped.mono declaredLeaves_within ha
  have hb := Shaped.mono declaredLeaves_within (shaped_of_decoded hc hb)
  exact ⟨equals_total hm ha hb, (coherent_compare hm ha hb hb).total⟩

/-- A record with one decimal. -/
def Forest.measurement : Forest where
  roots := [{
    name := "measurement"
    properties := [{ name := "amount", type := some (.scalar .decimal) }] }]

/-- A measurement on a stream. -/
def Token.measurement (amount : Token) : List Token :=
  [.startObject, .fieldName "amount", amount, .endObject]

theorem Forest.measurement_compiles : ∃ catalog, measurement.compile {} = .ok catalog ∧
    ((match catalog.decode "Measurement" (Token.measurement (.number "1e-9223372036854775808")) with
      | .ok _ => false
      | .error stop => stop.error.endsRun) &&
    (match catalog.decode "Measurement" (Token.measurement (.string "٣e-1")) with
      | .ok (r, _) => !r.toValue.isWritable
      | .error _ => false)) = true :=
  exists_catalog (by decide +kernel)

/-- The least exponent overflows, and the point of three tenths, in Arabic digits, falls inside
the digit. -/
theorem Forest.measurement_decodes : ∃ catalog, measurement.compile {} = .ok catalog ∧
    (∃ stop, catalog.decode "Measurement"
      (Token.measurement (.number "1e-9223372036854775808")) = .error stop ∧
        stop.error.endsRun = true) ∧
    ∃ r rest, catalog.decode "Measurement" (Token.measurement (.string "٣e-1")) = .ok (r, rest) ∧
      r.toValue.isWritable = false := by
  obtain ⟨catalog, hc, htest⟩ := measurement_compiles
  obtain ⟨hends, hpoint⟩ := Bool.and_eq_true_iff.1 htest
  refine ⟨catalog, hc, ?_, ?_⟩
  · split at hends
    · cases hends
    · rename_i stop hstop
      exact ⟨stop, hstop, hends⟩
  · split at hpoint
    · rename_i r rest hr
      exact ⟨r, rest, hr, Bool.not_eq_true' _ ▸ hpoint⟩
    · cases hpoint

/-- A stream of tokens that ends the run. -/
theorem Forest.measurement_endsRun : ∃ catalog, measurement.compile {} = .ok catalog ∧
    ∃ stop, catalog.decode "Measurement"
      (Token.measurement (.number "1e-9223372036854775808")) = .error stop ∧
        stop.error.endsRun = true := by
  obtain ⟨catalog, hc, hends, _⟩ := measurement_decodes
  exact ⟨catalog, hc, hends⟩

theorem Forest.measurement_meetsOverflow : ∃ catalog, measurement.compile {} = .ok catalog ∧
    MeetsOverflow (catalog.decode "Measurement")
      (Token.measurement (.number "1e-9223372036854775808")) ∧
    ∃ a, catalog.Decoded a ∧ (catalog.encode a).error ≠ none ∧ a.deepCopy catalog.methods = a ∧
      (∃ t, a.equals catalog.methods a = .ok t) ∧
      ∃ o : Ordering, a.compare catalog.methods a = .ok o := by
  obtain ⟨catalog, hc, hends, a, rest, ha, hpoint⟩ := measurement_decodes
  obtain ⟨_, _, hcatalog⟩ := endsRun_at_decimals {} measurement
  obtain ⟨hdecode, hrecords⟩ := hcatalog catalog hc
  have ha : catalog.Decoded a := ⟨_, _, rest, ha⟩
  obtain ⟨hwritten, _, hcopy, hothers⟩ := hrecords a ha
  refine ⟨catalog, hc, (hdecode _ _).1 hends, a, ha, fun hnone => ?_, hcopy, hothers a ha⟩
  have hwritable := hwritten.1 hnone
  rw [hpoint] at hwritable
  cases hwritable

end RecordCodec
