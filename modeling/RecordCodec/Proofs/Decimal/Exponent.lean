import RecordCodec.Proofs.Decimal.Text

/-!
The literals that overflow: digits, an optional fraction, and the least 64-bit integer as the
exponent. No other literal has an exponent without a magnitude.
-/

namespace RecordCodec.Decimal

open Text

/-! ### The parts of a literal -/

/-- At least one digit, of any script. -/
def Digits (ds : List Char) : Prop := ds ≠ [] ∧ ∀ c ∈ ds, isDecimalDigit c = true

/-- A point with digits behind it, or nothing. -/
def Fraction (cs : List Char) : Prop := cs = [] ∨ ∃ ds, cs = '.' :: ds ∧ Digits ds

/-- A mark with the least 64-bit integer behind it. -/
def LeastExponent (cs : List Char) : Prop :=
  ∃ mark r, cs = mark :: r ∧ (mark = 'e' ∨ mark = 'E') ∧ readInt? r = some Int64.minValue.toInt

/-- The literal overflows: when its blanks and its sign are off, it is a number with the least
64-bit integer as its exponent. -/
def Overflowing (literal : String) : Prop :=
  ∃ whole fraction exponent, (takeSign (trim literal.toList)).2 = whole ++ (fraction ++ exponent) ∧
    Digits whole ∧ Fraction fraction ∧ LeastExponent exponent

theorem fraction_iff {cs : List Char} :
    Fraction cs ↔ ∃ ds, (∀ c ∈ ds, isDecimalDigit c = true) ∧ cs = Numeral.fractionChars ds := by
  constructor
  · rintro (rfl | ⟨ds, rfl, hds⟩)
    · exact ⟨[], nofun, rfl⟩
    · exact ⟨ds, hds.2, by rw [Numeral.fractionChars, if_neg (by simpa using hds.1)]⟩
  · rintro ⟨ds, hds, rfl⟩
    unfold Numeral.fractionChars
    split
    · exact .inl rfl
    · rename_i hne
      exact .inr ⟨ds, rfl, by simpa using hne, hds⟩

theorem LeastExponent.head {cs : List Char} (h : LeastExponent cs) {c : Char}
    (hc : cs.head? = some c) : c = 'e' ∨ c = 'E' := by
  obtain ⟨mark, r, rfl, hmark, _⟩ := h
  exact Option.some.inj hc ▸ hmark

/-! ### Reading the parts -/

theorem readExponent_overflow_iff {cs : List Char} :
    readExponent cs = .error .exponentOverflow ↔ LeastExponent cs := by
  constructor
  · intro h
    unfold readExponent at h
    split at h
    · cases h
    · rename_i mark r
      split at h
      · rename_i hmark
        split at h
        · cases h
        · rename_i e he
          split at h
          · rename_i hleast
            exact ⟨mark, r, rfl, hmark, hleast ▸ he⟩
          · split at h
            · cases h
            · cases h
      · cases h
  · rintro ⟨mark, r, rfl, hmark, hr⟩
    rw [readExponent, if_pos hmark, hr]
    exact if_pos rfl

/-! ### Reading literals -/

theorem readUnsigned_overflow_iff {negative : Bool} {cs : List Char} :
    readUnsigned negative cs = .error .exponentOverflow ↔
      ∃ whole fraction exponent, cs = whole ++ (fraction ++ exponent) ∧
        Digits whole ∧ Fraction fraction ∧ LeastExponent exponent := by
  constructor
  · intro h
    unfold readUnsigned at h
    simp only at h
    split at h
    · cases h
    · rename_i hne
      split at h
      · cases h
      · rename_i digits rest hfraction
        obtain ⟨hchars, hdigits⟩ := takeFraction?_eq_some hfraction
        have hrest := readExponent_overflow_iff.1 (map_eq_error_iff.1 h)
        refine ⟨_, _, rest, ?_, ⟨hne, fun c hc => List.mem_takeWhile_imp hc⟩,
          fraction_iff.2 ⟨digits, hdigits, rfl⟩, hrest⟩
        rw [← hchars, List.takeWhile_append_dropWhile]
  · rintro ⟨whole, fraction, exponent, rfl, hw, hf, he⟩
    obtain ⟨ds, hds, rfl⟩ := fraction_iff.1 hf
    rw [readUnsigned_parts hw.2 hw.1 hds fun _ => he.head]
    exact map_eq_error_iff.2 (readExponent_overflow_iff.2 he)

/-- Reading overflows at the literals with the least 64-bit integer as their exponent. -/
theorem read_overflow_iff {literal : String} :
    read literal = .error .exponentOverflow ↔ Overflowing literal :=
  readUnsigned_overflow_iff

end RecordCodec.Decimal
