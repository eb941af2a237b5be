import RecordCodec.Json.Numeral
import RecordCodec.Proofs.Decimal.Text

/-!
Number literals and the numbers they write. A literal is a sign, a whole part, a fraction and a
tail, which spells the exponent. Normal form changes nothing but the spelling of the exponent, and
neither the reader of integers nor that of decimals makes anything of the change. Integers and plain
decimals, in turn, are written as literals.
-/

namespace RecordCodec

open Text

namespace Text

/-- A text that begins with a digit has no sign to take off. -/
theorem readInt?_of_digit {d : Char} {cs : List Char} (h : isAsciiDigit d = true) :
    readInt? (d :: cs) = (natOfDigits? (d :: cs)).map Int.ofNat := by
  unfold readInt?
  split
  · rename_i heq
    obtain ⟨rfl, _⟩ := List.cons.inj heq
    exact absurd h (by decide)
  · rename_i heq
    obtain ⟨rfl, _⟩ := List.cons.inj heq
    exact absurd h (by decide)
  · rfl

theorem natOfDigits?_append {cs tail : List Char} (hne : cs ≠ [])
    (hcs : ∀ c ∈ cs, isAsciiDigit c = true)
    (htail : ∀ c, tail.head? = some c → isAsciiDigit c = false) :
    natOfDigits? (cs ++ tail) = if tail = [] then some (digitsValue cs) else none := by
  cases tail with
  | nil =>
      rw [List.append_nil, natOfDigits?, if_pos ⟨hne, List.all_eq_true.2 hcs⟩, if_pos rfl]
  | cons c tail =>
      rw [natOfDigits?, if_neg, if_neg (List.cons_ne_nil c tail)]
      rintro ⟨_, hall⟩
      have hc := List.all_eq_true.1 hall c (by simp)
      rw [htail c rfl] at hc
      cases hc

/-- The integer with a sign and a magnitude. -/
def signed (negative : Bool) (n : Nat) : Int := if negative then -Int.ofNat n else Int.ofNat n

end Text

namespace Numeral

/-! ### Tails -/

/-- The tail of a literal, whichever way it spells the exponent. -/
def Tail (exponent : Option (Bool × List Char)) (tail : List Char) : Prop :=
  scanTail? tail = some (exponent, [])

/-- Digits of an exponent behind their sign, which may be left out when it is a plus. -/
inductive SignedDigits : Bool → List Char → List Char → Prop
  | plus (ds : List Char) : SignedDigits false ds ('+' :: ds)
  | minus (ds : List Char) : SignedDigits true ds ('-' :: ds)
  | bare (ds : List Char) : SignedDigits false ds ds

theorem signedDigits_takeSign (r : List Char) : SignedDigits (takeSign r).1 (takeSign r).2 r := by
  unfold takeSign
  split
  · exact .plus _
  · unfold takeMinus
    split
    · exact .minus _
    · exact .bare r

/-- A tail is empty, or it is a mark with the digits of an exponent behind it. -/
theorem Tail.cases {exponent : Option (Bool × List Char)} {tail : List Char}
    (h : Tail exponent tail) :
    (exponent = none ∧ tail = []) ∨
      ∃ mark r negative ds, exponent = some (negative, ds) ∧ tail = mark :: r ∧
        (mark = 'e' ∨ mark = 'E') ∧ ds ≠ [] ∧ (∀ c ∈ ds, isAsciiDigit c = true) ∧
        SignedDigits negative ds r := by
  have behind : ∀ mark r, mark = 'e' ∨ mark = 'E' → tail = mark :: r →
      (scanExponent? r).map (fun p => (some p.1, p.2)) = some (exponent, []) →
      ∃ mark r negative ds, exponent = some (negative, ds) ∧ tail = mark :: r ∧
        (mark = 'e' ∨ mark = 'E') ∧ ds ≠ [] ∧ (∀ c ∈ ds, isAsciiDigit c = true) ∧
        SignedDigits negative ds r := by
    intro mark r hmark htail h
    obtain ⟨⟨⟨negative, ds⟩, rest⟩, hscan, heq⟩ := Option.map_eq_some_iff.1 h
    cases heq
    obtain ⟨hne, hdigits⟩ := scanExponent?_digits hscan
    refine ⟨mark, r, negative, ds, rfl, htail, hmark, hne, hdigits, ?_⟩
    -- all that stands behind the sign was taken as digits
    unfold scanExponent? scanExponentDigits? at hscan
    simp only at hscan
    split at hscan
    · cases hscan
    · obtain ⟨hpair, hrest⟩ := Prod.mk.inj (Option.some.inj hscan)
      obtain ⟨hnegative, hds⟩ := Prod.mk.inj hpair
      have hall := List.takeWhile_append_dropWhile (p := isAsciiDigit) (l := (takeSign r).2)
      rw [hds, hrest, List.append_nil] at hall
      rw [← hnegative, hall]
      exact signedDigits_takeSign r
  unfold Tail scanTail? at h
  split at h
  · exact .inr (behind _ _ (.inl rfl) rfl h)
  · exact .inr (behind _ _ (.inr rfl) rfl h)
  · obtain ⟨hexponent, hrest⟩ := Prod.mk.inj (Option.some.inj h)
    exact .inl ⟨hexponent.symm, hrest⟩

theorem SignedDigits.readInt? {negative : Bool} {ds r : List Char}
    (h : SignedDigits negative ds r) (hne : ds ≠ []) (hds : ∀ c ∈ ds, isAsciiDigit c = true) :
    Text.readInt? r = some (signed negative (digitsValue ds)) := by
  have hvalue : natOfDigits? ds = some (digitsValue ds) := by
    rw [natOfDigits?, if_pos ⟨hne, List.all_eq_true.2 hds⟩]
  cases h with
  | plus => rw [Text.readInt?, hvalue, Option.map_some]; rfl
  | minus => rw [Text.readInt?, hvalue, Option.map_some]; rfl
  | bare => rw [readInt?_of_ascii hds, hvalue, Option.map_some]; rfl

theorem SignedDigits.mem {negative : Bool} {ds r : List Char} (h : SignedDigits negative ds r)
    {c : Char} (hc : c ∈ r) : c = '+' ∨ c = '-' ∨ c ∈ ds := by
  cases h with
  | plus => exact (List.mem_cons.1 hc).imp_right .inr
  | minus => exact .inr (List.mem_cons.1 hc)
  | bare => exact .inr (.inr hc)

section

variable {exponent : Option (Bool × List Char)} {tail : List Char}

theorem Tail.eq_nil_iff (h : Tail exponent tail) : tail = [] ↔ exponent = none := by
  rcases h.cases with ⟨rfl, rfl⟩ | ⟨mark, r, negative, ds, rfl, rfl, _⟩
  · exact ⟨fun _ => rfl, fun _ => rfl⟩
  · exact ⟨nofun, nofun⟩

theorem Tail.head (h : Tail exponent tail) {c : Char} (hc : tail.head? = some c) :
    c = 'e' ∨ c = 'E' := by
  rcases h.cases with ⟨rfl, rfl⟩ | ⟨mark, r, negative, ds, rfl, rfl, hmark, _⟩
  · cases hc
  · obtain rfl := Option.some.inj hc
    exact hmark

theorem Tail.not_blank (h : Tail exponent tail) : ∀ c ∈ tail, isBlank c = false := by
  rcases h.cases with ⟨rfl, rfl⟩ | ⟨mark, r, negative, ds, rfl, rfl, hmark, _, hds, hr⟩
  · exact nofun
  · refine List.forall_mem_cons.2 ⟨?_, fun c hc => ?_⟩
    · rcases hmark with rfl | rfl <;> decide
    · rcases hr.mem hc with rfl | rfl | hc
      · decide
      · decide
      · exact isBlank_of_ascii (hds c hc)

/-- How an exponent is spelled makes no difference to the reader of decimals. -/
theorem Tail.readExponent {tail' : List Char} (h : Tail exponent tail) (h' : Tail exponent tail') :
    Decimal.readExponent tail = Decimal.readExponent tail' := by
  rcases h.cases with ⟨rfl, rfl⟩ | ⟨mark, r, negative, ds, rfl, rfl, hmark, hne, hds, hr⟩
  · rw [h'.eq_nil_iff.2 rfl]
  · rcases h'.cases with ⟨hnone, _⟩ | ⟨mark', r', negative', ds', heq, rfl, hmark', _, _, hr'⟩
    · cases hnone
    · cases heq
      rw [Decimal.readExponent, if_pos hmark, hr.readInt? hne hds, Decimal.readExponent,
        if_pos hmark', hr'.readInt? hne hds]

end

/-! ### Literals -/

/-- The literal with these pieces whose exponent is spelled by the tail. -/
def Parts.charsWith (p : Parts) (tail : List Char) : List Char :=
  (if p.negative then ['-'] else []) ++ (p.whole ++ (fractionChars p.fraction ++ tail))

theorem scanFraction?_eq_some {cs fraction rest : List Char}
    (h : scanFraction? cs = some (fraction, rest)) : cs = fractionChars fraction ++ rest := by
  unfold scanFraction? at h
  split at h
  · simp only at h
    split at h
    · cases h
    · rename_i r hne
      obtain ⟨rfl, rfl⟩ := Prod.mk.inj (Option.some.inj h)
      rw [fractionChars, if_neg hne, List.cons_append, List.takeWhile_append_dropWhile]
  · obtain ⟨rfl, rfl⟩ := Prod.mk.inj (Option.some.inj h)
    rfl

theorem takeMinus_append (cs : List Char) :
    (if (takeMinus cs).1 then ['-'] else []) ++ (takeMinus cs).2 = cs := by
  unfold takeMinus
  split <;> rfl

theorem exists_tail_of_scan? {cs : List Char} {p : Parts} (h : scan? cs = some (p, [])) :
    ∃ tail, cs = p.charsWith tail ∧ Tail p.exponent tail := by
  unfold scan? scanUnsigned? at h
  simp only at h
  split at h
  · obtain ⟨⟨fraction, tail⟩, hfraction, h⟩ := Option.bind_eq_some_iff.1 h
    obtain ⟨⟨exponent, rest⟩, htail, h⟩ := Option.map_eq_some_iff.1 h
    obtain ⟨rfl, rfl⟩ := Prod.mk.inj h
    refine ⟨tail, ?_, htail⟩
    rw [Parts.charsWith, ← scanFraction?_eq_some hfraction, List.takeWhile_append_dropWhile,
      takeMinus_append]
  · cases h

/-- A literal and its normal form differ in the spelling of the exponent. -/
theorem exists_tails {literal : String} {n : Numeral} (h : ofText? literal = some n) :
    ∃ (p : Parts) (tail tail' : List Char), p.WellFormed ∧ Tail p.exponent tail ∧
      Tail p.exponent tail' ∧ literal.toList = p.charsWith tail ∧
      n.text.toList = p.charsWith tail' := by
  unfold ofText? at h
  split at h
  · rename_i p hread
    cases h
    have hp := wellFormed_of_read? hread
    obtain ⟨tail, hchars, htail⟩ : ∃ tail, literal.toList = p.charsWith tail ∧
        Tail p.exponent tail := by
      unfold read? at hread
      split at hread
      · rename_i q hscan
        obtain rfl := Option.some.inj hread
        exact exists_tail_of_scan? hscan
      · cases hread
    refine ⟨p, tail, exponentChars p.exponent, hp, htail,
      scanTail?_exponentChars hp.exponent_digits, hchars, ?_⟩
    rw [ofParts, String.toList_ofList, p.chars_eq, Parts.charsWith]
  · cases h

/-! ### Reading numbers from literals -/

theorem Parts.WellFormed.exists_digit {p : Parts} (h : p.WellFormed) :
    ∃ d ds, p.whole = d :: ds ∧ isAsciiDigit d = true := by
  cases hwhole : p.whole with
  | nil =>
      have hok := h.whole_ok
      rw [hwhole] at hok
      cases hok
  | cons d ds => exact ⟨d, ds, rfl, h.whole_digits d (hwhole ▸ List.mem_cons_self)⟩

section

variable {p : Parts} {tail : List Char}

/-- What stands behind the whole part begins with a mark. -/
theorem Tail.head_behind (h : Tail p.exponent tail) {c : Char}
    (hc : (fractionChars p.fraction ++ tail).head? = some c) : c = '.' ∨ c = 'e' ∨ c = 'E' := by
  cases hfraction : p.fraction with
  | nil =>
      rw [hfraction] at hc
      exact .inr (h.head hc)
  | cons d ds =>
      rw [hfraction] at hc
      exact .inl (Option.some.inj hc).symm

theorem behind_eq_nil_iff (h : Tail p.exponent tail) :
    fractionChars p.fraction ++ tail = [] ↔ p.fraction = [] ∧ p.exponent = none := by
  rw [List.append_eq_nil_iff, h.eq_nil_iff]
  cases p.fraction with
  | nil => simp [fractionChars]
  | cons d ds => simp [fractionChars]

/-- Literals without fraction and exponent are read as integers. -/
theorem readInt?_charsWith (hp : p.WellFormed) (h : Tail p.exponent tail) :
    Text.readInt? (p.charsWith tail) = if p.fraction = [] ∧ p.exponent = none
      then some (signed p.negative (digitsValue p.whole)) else none := by
  obtain ⟨d, ds, hwhole, hd⟩ := hp.exists_digit
  have hbehind : ∀ c, (fractionChars p.fraction ++ tail).head? = some c →
      isAsciiDigit c = false := by
    intro c hc
    rcases h.head_behind hc with rfl | rfl | rfl <;> decide
  have hdigits := natOfDigits?_append (hwhole ▸ List.cons_ne_nil d ds) hp.whole_digits hbehind
  have hsign : Text.readInt? (p.charsWith tail) =
      (natOfDigits? (p.whole ++ (fractionChars p.fraction ++ tail))).map (signed p.negative) := by
    rw [Parts.charsWith, hwhole]
    cases p.negative with
    | true => rfl
    | false => exact readInt?_of_digit hd
  rw [hsign, hdigits]
  simp only [behind_eq_nil_iff h]
  split <;> rfl

/-- The decimal that a literal writes: its digits, with the point moved by the exponent. -/
theorem read_charsWith (hp : p.WellFormed) (h : Tail p.exponent tail) :
    Decimal.read (String.ofList (p.charsWith tail)) = (Decimal.readExponent tail).map fun e =>
      Decimal.normalize p.negative (p.whole ++ p.fraction)
        (Decimal.byteLength p.fraction - e) := by
  obtain ⟨d, ds, hwhole, hd⟩ := hp.exists_digit
  have hdigits : ∀ c ∈ p.whole, isDecimalDigit c = true :=
    fun c hc => isDecimalDigit_of_ascii (hp.whole_digits c hc)
  have hchars : p.charsWith tail = if p.negative
      then '-' :: (p.whole ++ (fractionChars p.fraction ++ tail))
      else p.whole ++ (fractionChars p.fraction ++ tail) := by
    unfold Parts.charsWith
    cases p.negative <;> rfl
  have hblank : ∀ c ∈ fractionChars p.fraction, isBlank c = false := by
    unfold fractionChars
    split
    · exact nofun
    · refine List.forall_mem_cons.2 ⟨by decide, fun c hc => ?_⟩
      exact isBlank_of_ascii (hp.fraction_digits c hc)
  rw [hchars, Decimal.read_signed]
  · have hne : p.whole ≠ [] := hwhole ▸ List.cons_ne_nil d ds
    have hfraction : ∀ c ∈ p.fraction, isDecimalDigit c = true :=
      fun c hc => isDecimalDigit_of_ascii (hp.fraction_digits c hc)
    exact Decimal.readUnsigned_parts hdigits hne hfraction (fun c hc => h.head hc) p.negative
  · intro c hc
    rw [hwhole] at hc
    obtain rfl := Option.some.inj hc
    exact isDecimalDigit_of_ascii hd
  · refine List.forall_mem_append.2 ⟨fun c hc => isBlank_of_ascii (hp.whole_digits c hc), ?_⟩
    exact List.forall_mem_append.2 ⟨hblank, h.not_blank⟩

end

section

variable {literal : String} {n : Numeral}

/-- A literal is read as the integer that its normal form is read as. -/
theorem readInt?_eq_of_ofText? (h : ofText? literal = some n) :
    Text.readInt? literal.toList = Text.readInt? n.text.toList := by
  obtain ⟨p, tail, tail', hp, htail, htail', hliteral, htext⟩ := exists_tails h
  rw [hliteral, htext, readInt?_charsWith hp htail, readInt?_charsWith hp htail']

/-- A literal is read as the decimal that its normal form is read as. -/
theorem read_eq_of_ofText? (h : ofText? literal = some n) :
    Decimal.read literal = Decimal.read n.text := by
  obtain ⟨p, tail, tail', hp, htail, htail', hliteral, htext⟩ := exists_tails h
  calc Decimal.read literal = Decimal.read (String.ofList (p.charsWith tail)) := by
        rw [← hliteral, String.ofList_toList]
    _ = Decimal.read (String.ofList (p.charsWith tail')) := by
        rw [read_charsWith hp htail, read_charsWith hp htail', htail.readExponent htail']
    _ = Decimal.read n.text := by
        rw [← htext, String.ofList_toList]

end

/-! ### Numbers that are written as literals -/

theorem wholeOk_of_head {ds : List Char} (hne : ds ≠ []) (h : ds.head? ≠ some '0') :
    wholeOk ds = true := by
  simp [wholeOk, hne, h]

/-- Digits that can be the whole part of a literal. -/
theorem wholeOk_natDigits (n : Nat) : wholeOk (natDigits n) = true := by
  by_cases hn : n = 0
  · subst hn
    decide
  · exact wholeOk_of_head (natDigits_ne_nil n) (head?_natDigits hn)

/-- The text of an integer is a literal in normal form. -/
theorem exists_intText (i : Int) : ∃ n : Numeral, n.text = intText i := by
  have hp : Parts.WellFormed ⟨decide (i < 0), natDigits i.natAbs, [], none⟩ :=
    ⟨ascii_natDigits _, wholeOk_natDigits _, nofun, nofun⟩
  refine ⟨ofParts _ hp, congrArg String.ofList ?_⟩
  by_cases hi : i < 0 <;> simp [Parts.chars, intDigits, hi]

end Numeral

/-- A plain decimal is written as a literal without an exponent. -/
theorem Decimal.Plain.exists_parts {d : Decimal} (h : Plain d) :
    ∃ p : Numeral.Parts, p.WellFormed ∧ p.exponent = none ∧ d.chars = p.chars := by
  have literal : ∀ whole fraction : List Char, Numeral.wholeOk whole = true →
      (∀ c ∈ whole ++ fraction, isAsciiDigit c = true) →
      d.magnitudeChars = whole ++ Numeral.fractionChars fraction →
      ∃ p : Numeral.Parts, p.WellFormed ∧ p.exponent = none ∧ d.chars = p.chars := by
    intro whole fraction hok hdigits hchars
    obtain ⟨hwhole, hfraction⟩ := List.forall_mem_append.1 hdigits
    refine ⟨⟨d.negative, whole, fraction, none⟩, ⟨hwhole, hok, hfraction, nofun⟩, rfl, ?_⟩
    rw [Numeral.Parts.chars_eq, chars, hchars]
    cases d.negative <;> simp [Numeral.exponentChars]
  cases h with
  | zero => exact literal ['0'] [] (by decide) (List.forall_mem_singleton.2 rfl) rfl
  | @row negative ds scale hds =>
      have hw := isWritable_of_ascii (d := ⟨negative, ds, scale⟩) hds.ascii
      rcases magnitudeChars_cases hds.ne_nil hw with
        ⟨b, _, hchars⟩ | ⟨whole, fraction, a, hwne, hfne, hzero, hrow, _, hchars⟩
      · refine literal (ds ++ List.replicate b '0') [] ?_ ?_ (hchars.trans (List.append_nil _).symm)
        · refine Numeral.wholeOk_of_head (by simp [hds.ne_nil]) ?_
          rw [List.head?_append_of_ne_nil _ hds.ne_nil]
          exact hds.head
        · rw [List.append_nil]
          exact List.forall_mem_append.2 ⟨hds.ascii, ascii_zeros b⟩
      · have hpoint : Numeral.fractionChars fraction = '.' :: fraction := by
          rw [Numeral.fractionChars, if_neg (by simpa using hfne)]
        refine literal whole fraction ?_ ?_ (by rw [hchars, hpoint])
        · rcases hzero with rfl | rfl
          · decide
          · -- the row begins with the whole part, and not with a zero
            refine Numeral.wholeOk_of_head hwne ?_
            have hhead := congrArg List.head? hrow
            rw [List.head?_append_of_ne_nil _ hwne] at hhead
            exact hhead ▸ hds.head
        · rw [hrow]
          exact List.forall_mem_append.2 ⟨ascii_zeros a, hds.ascii⟩

/-- The text of a plain decimal is a literal in normal form. -/
theorem Decimal.Plain.exists_numeral {d : Decimal} (h : Plain d) :
    ∃ n : Numeral, n.text = d.text := by
  obtain ⟨p, hp, _, hchars⟩ := h.exists_parts
  exact ⟨Numeral.ofParts p hp, congrArg String.ofList hchars.symm⟩

end RecordCodec
