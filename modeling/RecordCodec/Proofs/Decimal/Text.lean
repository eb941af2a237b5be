import RecordCodec.Error
import RecordCodec.Json.Numeral
import RecordCodec.Proofs.Decimal.Normal

/-!
Texts of decimals. A plain decimal can be written, and its text is read as the same decimal; the
text of an integer is read as that integer. In the other direction, what is read from a text of
ASCII characters is plain.
-/

namespace RecordCodec.Decimal

open Text

/-! ### Reading rows of digits -/

theorem takeFraction?_fractionChars {fraction rest : List Char}
    (hf : ∀ c ∈ fraction, isDecimalDigit c = true)
    (hrest : ∀ c, rest.head? = some c → c = 'e' ∨ c = 'E') :
    takeFraction? (Numeral.fractionChars fraction ++ rest) = some (fraction, rest) := by
  have hstop : ∀ c, rest.head? = some c → isDecimalDigit c = false := by
    intro c hc
    rcases hrest c hc with rfl | rfl <;> decide
  obtain ⟨htake, hdrop⟩ := takeWhile_front hf hstop
  cases hcs : fraction with
  | nil =>
      show takeFraction? rest = _
      unfold takeFraction?
      split
      · rcases hrest '.' rfl with h | h <;> cases h
      · rfl
  | cons c cs =>
      rw [hcs] at htake hdrop
      rw [Numeral.fractionChars, if_neg (by simp), List.cons_append, takeFraction?]
      simp only [htake, hdrop, if_neg (List.cons_ne_nil c cs)]

/-- The fraction that is taken off is a row of digits behind a point, or nothing. -/
theorem takeFraction?_eq_some {cs digits rest : List Char}
    (h : takeFraction? cs = some (digits, rest)) :
    cs = Numeral.fractionChars digits ++ rest ∧ ∀ c ∈ digits, isDecimalDigit c = true := by
  unfold takeFraction? at h
  split at h
  · simp only at h
    split at h
    · cases h
    · rename_i hne
      obtain ⟨rfl, rfl⟩ := Prod.mk.inj (Option.some.inj h)
      refine ⟨?_, fun c hc => List.mem_takeWhile_imp hc⟩
      rw [Numeral.fractionChars, if_neg (by simpa using hne), List.cons_append,
        List.takeWhile_append_dropWhile]
  · obtain ⟨rfl, rfl⟩ := Prod.mk.inj (Option.some.inj h)
    exact ⟨rfl, fun c hc => absurd hc List.not_mem_nil⟩

/-- A whole part, a fraction and what spells the exponent are read as the row of their digits, with
the point moved by the exponent. -/
theorem readUnsigned_parts {whole fraction rest : List Char}
    (hw : ∀ c ∈ whole, isDecimalDigit c = true) (hwne : whole ≠ [])
    (hf : ∀ c ∈ fraction, isDecimalDigit c = true)
    (hrest : ∀ c, rest.head? = some c → c = 'e' ∨ c = 'E') (negative : Bool) :
    readUnsigned negative (whole ++ (Numeral.fractionChars fraction ++ rest)) =
      (readExponent rest).map fun e =>
        normalize negative (whole ++ fraction) (byteLength fraction - e) := by
  have hstop : ∀ c, (Numeral.fractionChars fraction ++ rest).head? = some c →
      isDecimalDigit c = false := by
    intro c hc
    cases fraction with
    | nil => rcases hrest c hc with rfl | rfl <;> decide
    | cons d ds =>
        obtain rfl : '.' = c := Option.some.inj hc
        rfl
  obtain ⟨htake, hdrop⟩ := takeWhile_front hw hstop
  simp only [readUnsigned, htake, hdrop, if_neg hwne, takeFraction?_fractionChars hf hrest]

theorem readUnsigned_whole {whole : List Char} (h : ∀ c ∈ whole, isDecimalDigit c = true)
    (hne : whole ≠ []) (negative : Bool) :
    readUnsigned negative whole = .ok (normalize negative whole 0) := by
  have hparts := @readUnsigned_parts whole [] [] h hne nofun nofun negative
  simpa [Numeral.fractionChars, readExponent, Except.map, byteLength] using hparts

theorem readUnsigned_point {whole fraction : List Char}
    (hw : ∀ c ∈ whole, isDecimalDigit c = true) (hwne : whole ≠ [])
    (hf : ∀ c ∈ fraction, isDecimalDigit c = true) (hfne : fraction ≠ []) (negative : Bool) :
    readUnsigned negative (whole ++ '.' :: fraction) =
      .ok (normalize negative (whole ++ fraction) (byteLength fraction)) := by
  have hparts := @readUnsigned_parts whole fraction [] hw hwne hf nofun negative
  simpa [Numeral.fractionChars, hfne, readExponent, Except.map] using hparts

theorem takeSign_digits {cs : List Char} (h : ∀ c, cs.head? = some c → isDecimalDigit c = true)
    (negative : Bool) : takeSign (if negative then '-' :: cs else cs) = (negative, cs) := by
  cases negative with
  | true => rfl
  | false =>
      rw [if_neg (by decide)]
      unfold takeSign
      split
      · exact absurd (h '+' rfl) (by decide)
      · exact absurd (h '-' rfl) (by decide)
      · rfl

/-- A text that begins with a digit, behind a minus if there is one, is read without its sign. -/
theorem read_signed {cs : List Char} (hhead : ∀ c, cs.head? = some c → isDecimalDigit c = true)
    (hblank : ∀ c ∈ cs, isBlank c = false) (negative : Bool) :
    read (String.ofList (if negative then '-' :: cs else cs)) = readUnsigned negative cs := by
  have htrim : trim (if negative then '-' :: cs else cs) = if negative then '-' :: cs else cs := by
    apply trim_eq_self
    intro c hc
    cases negative with
    | true =>
        rcases List.mem_cons.1 hc with rfl | hc
        · rfl
        · exact hblank c hc
    | false => exact hblank c hc
  simp only [read, String.toList_ofList, htrim, takeSign_digits hhead]

/-! ### Writing -/

@[simp] theorem byteLength_nil : byteLength [] = 0 := rfl

theorem byteLength_append (xs ys : List Char) :
    byteLength (xs ++ ys) = byteLength xs + byteLength ys := by
  induction xs with
  | nil => simp [byteLength]
  | cons c xs ih =>
      simp only [byteLength, List.cons_append, List.foldr_cons] at ih ⊢
      omega

theorem splitBytes_append (n : Nat) (cs : List Char) :
    (splitBytes n cs).1 ++ (splitBytes n cs).2 = cs := by
  induction cs generalizing n with
  | nil => rfl
  | cons c cs ih =>
      unfold splitBytes
      split
      · rfl
      · simpa using ih (n - c.utf8Size)

theorem splitBytes_of_ascii {cs : List Char} (h : ∀ c ∈ cs, isAsciiDigit c = true) (n : Nat) :
    splitBytes n cs = (cs.take n, cs.drop n) := by
  induction cs generalizing n with
  | nil => simp [splitBytes]
  | cons c cs ih =>
      obtain ⟨hc, hcs⟩ := List.forall_mem_cons.1 h
      cases n with
      | zero => simp [splitBytes]
      | succ n => simp [splitBytes, utf8Size_of_ascii hc, ih hcs]

theorem isWritable_of_ascii {d : Decimal} (h : ∀ c ∈ d.digits, isAsciiDigit c = true) :
    d.isWritable = true := by
  have htake : ∀ n, byteLength (d.digits.take n) = min n d.digits.length := by
    intro n
    rw [byteLength_of_ascii fun c hc => h c (List.mem_of_mem_take hc), List.length_take]
  simp only [isWritable, splitBytes_of_ascii h, htake, byteLength_of_ascii h, Bool.or_eq_true,
    decide_eq_true_eq, wholeBytes]
  omega

theorem isWritable_of_plain {d : Decimal} (h : Plain d) : d.isWritable = true := by
  cases h with
  | zero => decide
  | row hds => exact isWritable_of_ascii hds.ascii

theorem ascii_zeros (n : Nat) : ∀ c ∈ List.replicate n '0', isAsciiDigit c = true := by
  intro c hc
  rw [List.eq_of_mem_replicate hc]
  decide

theorem digits_zeros (n : Nat) : ∀ c ∈ List.replicate n '0', isDecimalDigit c = true := by
  intro c hc
  rw [List.eq_of_mem_replicate hc]
  decide

theorem digits_append {xs ys : List Char} (hx : ∀ c ∈ xs, isDecimalDigit c = true)
    (hy : ∀ c ∈ ys, isDecimalDigit c = true) : ∀ c ∈ xs ++ ys, isDecimalDigit c = true :=
  List.forall_mem_append.2 ⟨hx, hy⟩

/-- Where the point of a row falls that can be written: after it, before it or in it. -/
theorem magnitudeChars_cases {d : Decimal} (hne : d.digits ≠ []) (hw : d.isWritable = true) :
    (∃ b : Nat, d.scale = -b ∧ d.magnitudeChars = d.digits ++ List.replicate b '0') ∨
    ∃ whole fraction a, whole ≠ [] ∧ fraction ≠ [] ∧ (whole = ['0'] ∨ a = 0) ∧
      whole ++ fraction = List.replicate a '0' ++ d.digits ∧
      (byteLength fraction : Int) = d.scale ∧ d.magnitudeChars = whole ++ '.' :: fraction := by
  by_cases hscale : d.scale ≤ 0
  · left
    refine ⟨(-d.scale).toNat, by omega, ?_⟩
    simp only [magnitudeChars, if_pos hscale]
  · right
    by_cases hlong : (byteLength d.digits : Int) ≤ d.scale
    · refine ⟨['0'], List.replicate (d.scale - byteLength d.digits).toNat '0' ++ d.digits,
        (d.scale - byteLength d.digits).toNat + 1, by simp, by simp [hne], .inl rfl, ?_, ?_, ?_⟩
      · rw [List.replicate_succ]
        rfl
      · rw [byteLength_append, byteLength_of_ascii (ascii_zeros _), List.length_replicate]
        omega
      · simp only [magnitudeChars, if_neg hscale, if_pos hlong]
        rfl
    · have hfront : byteLength (splitBytes d.wholeBytes d.digits).1 = d.wholeBytes := by
        simpa [isWritable, hscale, hlong] using hw
      have hsplit := splitBytes_append d.wholeBytes d.digits
      have hbytes := congrArg byteLength hsplit
      rw [byteLength_append, hfront] at hbytes
      have hwhole : (d.wholeBytes : Int) = byteLength d.digits - d.scale := by
        simp only [wholeBytes]
        omega
      refine ⟨_, _, 0, ?_, ?_, .inr rfl, hsplit, by omega, ?_⟩
      · intro hnil
        rw [hnil, byteLength_nil] at hfront
        omega
      · intro hnil
        rw [hnil, byteLength_nil] at hbytes
        omega
      · simp only [magnitudeChars, if_neg hscale, if_neg hlong]

theorem mem_magnitudeChars {d : Decimal} {c : Char} (h : c ∈ d.magnitudeChars) :
    c = '0' ∨ c = '.' ∨ c ∈ d.digits := by
  unfold magnitudeChars at h
  split at h
  · simp only [List.mem_append, List.mem_replicate] at h
    tauto
  · split at h
    · simp only [List.mem_cons, List.mem_append, List.mem_replicate] at h
      tauto
    · have hsplit := splitBytes_append d.wholeBytes d.digits
      rw [← hsplit]
      simp only [List.mem_append, List.mem_cons] at h ⊢
      tauto

/-- A normal decimal that can be written is told by its sign and what is written behind it. -/
theorem readUnsigned_magnitudeChars {d : Decimal} (h : Normal d) (hw : d.isWritable = true) :
    readUnsigned d.negative d.magnitudeChars = .ok d := by
  cases h with
  | zero => decide
  | @row negative ds scale hdigits hds =>
      rcases magnitudeChars_cases hds.ne_nil hw with
        ⟨b, hscale, hchars⟩ | ⟨whole, fraction, a, hwne, hfne, _, hrow, hscale, hchars⟩
      · have hzeros := digits_append hdigits (digits_zeros b)
        have hnormal := normalize_row hds negative 0 b 0
        rw [List.replicate_zero, List.nil_append] at hnormal
        simp only at hscale hchars ⊢
        rw [hchars, readUnsigned_whole hzeros (by simp [hds.ne_nil]), hnormal, hscale, Int.zero_sub]
      · obtain ⟨hwhole, hfraction⟩ : (∀ c ∈ whole, isDecimalDigit c = true) ∧
            ∀ c ∈ fraction, isDecimalDigit c = true := by
          rw [← List.forall_mem_append, hrow]
          exact digits_append (digits_zeros a) hdigits
        have hnormal := normalize_row hds negative a 0 scale
        rw [List.replicate_zero, List.append_nil] at hnormal
        simp only at hscale hrow ⊢
        rw [hchars, readUnsigned_point hwhole hwne hfraction hfne, hrow, hscale, hnormal]
        simp

theorem head_magnitudeChars {d : Decimal} (h : Normal d) (hw : d.isWritable = true) :
    ∀ c, d.magnitudeChars.head? = some c → isDecimalDigit c = true := by
  intro c hc
  -- what begins with anything else is not read as an unsigned number
  have hread := readUnsigned_magnitudeChars h hw
  by_contra hdigit
  obtain ⟨cs, hcs⟩ := List.head?_eq_some_iff.1 hc
  rw [hcs] at hread
  simp [readUnsigned, hdigit] at hread

/-- Normal decimals that can be written are told apart by their texts. -/
theorem text_injective {a b : Decimal} (ha : Normal a) (hb : Normal b)
    (hwa : a.isWritable = true) (hwb : b.isWritable = true) (h : a.text = b.text) : a = b := by
  have hchars : a.chars = b.chars := String.ofList_injective h
  have hsign := congrArg takeSign hchars
  rw [chars, chars, takeSign_digits (head_magnitudeChars ha hwa),
    takeSign_digits (head_magnitudeChars hb hwb), Prod.mk.injEq] at hsign
  have hread := readUnsigned_magnitudeChars ha hwa
  rw [hsign.1, hsign.2, readUnsigned_magnitudeChars hb hwb] at hread
  exact (Except.ok.inj hread).symm

/-- The text of a plain decimal is read as the same decimal. -/
theorem read_text {d : Decimal} (h : Plain d) : read d.text = .ok d := by
  have hw := isWritable_of_plain h
  rw [text, chars, read_signed (head_magnitudeChars h.normal hw),
    readUnsigned_magnitudeChars h.normal hw]
  intro c hc
  rcases mem_magnitudeChars hc with rfl | rfl | hc
  · decide
  · decide
  · cases h with
    | zero =>
        obtain rfl : c = '0' := by simpa [zero] using hc
        decide
    | row hds => exact isBlank_of_ascii (hds.ascii c hc)

theorem read_intText (i : Int) : read (intText i) = .ok (ofInt i) := by
  have hascii := ascii_natDigits i.natAbs
  have hdigits : ∀ c ∈ natDigits i.natAbs, isDecimalDigit c = true :=
    fun c hc => isDecimalDigit_of_ascii (hascii c hc)
  have hchars : intDigits i = if decide (i < 0) then '-' :: natDigits i.natAbs
      else natDigits i.natAbs := by
    simp only [intDigits, decide_eq_true_eq]
  rw [intText, hchars, read_signed, readUnsigned_whole hdigits (natDigits_ne_nil _), ofInt]
  · exact fun c hc => hdigits c (List.mem_of_mem_head? hc)
  · exact fun c hc => isBlank_of_ascii (hascii c hc)

theorem natDigits_eq_bare {n : Nat} (h : n ≠ 0) :
    ∃ ds b, Bare ds ∧ natDigits n = ds ++ List.replicate b '0' := by
  have hhead := head?_natDigits h
  rcases bare_cases (natDigits n) with ⟨a, ha⟩ | ⟨a, ds, b, hds, hrow⟩
  · cases a with
    | zero => exact absurd ha (natDigits_ne_nil n)
    | succ a => exact absurd (congrArg List.head? ha) hhead
  · cases a with
    | zero => exact ⟨ds, b, hds, hrow⟩
    | succ a => exact absurd (congrArg List.head? hrow) hhead

/-- An integer has one text, as an integer and as a decimal. -/
theorem text_ofInt (i : Int) : (ofInt i).text = intText i := by
  by_cases hi : i = 0
  · subst hi
    decide +kernel
  · obtain ⟨ds, b, hds, hrow⟩ := natDigits_eq_bare (n := i.natAbs) (by omega)
    have hof : ofInt i = ⟨decide (i < 0), ds, -b⟩ := by
      rw [ofInt, hrow]
      simpa using normalize_row hds (decide (i < 0)) 0 b 0
    have hscale : -(b : Int) ≤ 0 := by omega
    rw [text, intText, hof]
    simp [chars, magnitudeChars, intDigits, hscale, hrow]

/-! ### What texts denote -/

/-- What is read is the normal form of a row of digits from the text. -/
theorem digits_of_readUnsigned {negative : Bool} {cs : List Char} {d : Decimal}
    (h : readUnsigned negative cs = .ok d) :
    ∃ ds scale, d = normalize negative ds scale ∧ ∀ c ∈ ds, c ∈ cs ∧ isDecimalDigit c = true := by
  unfold readUnsigned at h
  simp only at h
  split at h
  · cases h
  · split at h
    · cases h
    · rename_i fraction rest hfraction
      obtain ⟨e, _, rfl⟩ := map_eq_ok_iff.1 h
      obtain ⟨hchars, hdigits⟩ := takeFraction?_eq_some hfraction
      have hmem : ∀ c ∈ fraction, c ∈ Numeral.fractionChars fraction ++ rest := by
        intro c hc
        rw [Numeral.fractionChars, if_neg (by simpa using List.ne_nil_of_mem hc)]
        simp [hc]
      refine ⟨_, _, rfl, List.forall_mem_append.2
        ⟨fun c hc => ⟨List.takeWhile_subset _ hc, List.mem_takeWhile_imp hc⟩, fun c hc => ?_⟩⟩
      exact ⟨List.dropWhile_subset _ (hchars ▸ hmem c hc), hdigits c hc⟩

theorem normal_of_read {literal : String} {d : Decimal} (h : read literal = .ok d) : Normal d := by
  obtain ⟨ds, scale, rfl, hds⟩ := digits_of_readUnsigned h
  exact normal_normalize (fun c hc => (hds c hc).2) _ _

theorem mem_of_mem_trim {cs : List Char} {c : Char} (h : c ∈ trim cs) : c ∈ cs := by
  rw [trim, List.mem_reverse] at h
  have hmiddle := List.dropWhile_subset _ h
  rw [List.mem_reverse] at hmiddle
  exact List.dropWhile_subset _ hmiddle

theorem mem_of_mem_takeSign {cs : List Char} {c : Char} (h : c ∈ (takeSign cs).2) : c ∈ cs := by
  unfold takeSign at h
  split at h
  · exact List.mem_cons_of_mem _ h
  · exact List.mem_cons_of_mem _ h
  · exact h

/-- What is read from a text whose digits are ASCII digits is plain. -/
theorem plain_of_read_digits {literal : String} {d : Decimal}
    (ha : ∀ c ∈ literal.toList, isDecimalDigit c = true → isAsciiDigit c = true)
    (h : read literal = .ok d) : Plain d := by
  obtain ⟨ds, scale, rfl, hds⟩ := digits_of_readUnsigned h
  apply plain_normalize
  intro c hc
  obtain ⟨hmem, hdigit⟩ := hds c hc
  exact ha c (mem_of_mem_trim (mem_of_mem_takeSign hmem)) hdigit

theorem plain_of_read {literal : String} {d : Decimal} (ha : ∀ c ∈ literal.toList, c.toNat < 128)
    (h : read literal = .ok d) : Plain d :=
  plain_of_read_digits (fun c hc => isAsciiDigit_of_isDecimalDigit (ha c hc)) h

/-- The decimal was read from a text or made from a 64-bit integer. -/
def Made (d : Decimal) : Prop :=
  (∃ literal : String, read literal = .ok d) ∨ ∃ i : Int64, d = ofInt i.toInt

theorem Made.normal {d : Decimal} (h : d.Made) : Normal d := by
  rcases h with ⟨literal, hread⟩ | ⟨i, rfl⟩
  · exact normal_of_read hread
  · exact (plain_ofInt _).normal

/-- The decimal was read from a text of ASCII characters or made from an integer. -/
def OfAscii (d : Decimal) : Prop :=
  (∃ literal : String, (∀ c ∈ literal.toList, c.toNat < 128) ∧ read literal = .ok d) ∨
    ∃ i : Int, d = ofInt i

theorem OfAscii.plain {d : Decimal} (h : d.OfAscii) : Plain d := by
  rcases h with ⟨literal, ha, hread⟩ | ⟨i, rfl⟩
  · exact plain_of_read ha hread
  · exact plain_ofInt i

end RecordCodec.Decimal
