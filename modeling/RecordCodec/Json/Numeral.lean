import RecordCodec.Text.Digits

/-!
Number literals. A literal is kept as text, so no digit is ever lost; the one freedom taken is to
write the exponent with a small `e` and an explicit sign. `Parts` is a literal taken apart,
`scan?` reads one from the front of a text and `Parts.chars` writes it back in normal form.
-/

namespace RecordCodec

namespace Numeral

open Text (isAsciiDigit)

/-- The pieces of a number literal. An empty fraction means that there is none. -/
structure Parts where
  negative : Bool
  whole : List Char
  fraction : List Char
  exponent : Option (Bool × List Char)
deriving DecidableEq, Repr

def wholeOk (digits : List Char) : Bool :=
  !digits.isEmpty && (digits.length == 1 || digits.head? != some '0')

def takeMinus : List Char → Bool × List Char
  | '-' :: r => (true, r)
  | r => (false, r)

def takeSign : List Char → Bool × List Char
  | '+' :: r => (false, r)
  | r => takeMinus r

/-- Reads the digits of an exponent, once its mark and sign are off. -/
def scanExponentDigits? (negative : Bool) (cs : List Char) :
    Option ((Bool × List Char) × List Char) :=
  let digits := cs.takeWhile isAsciiDigit
  if digits.isEmpty then none else some ((negative, digits), cs.dropWhile isAsciiDigit)

def scanExponent? (cs : List Char) : Option ((Bool × List Char) × List Char) :=
  scanExponentDigits? (takeSign cs).1 (takeSign cs).2

/-- Reads an exponent, if one begins here. -/
def scanTail? (cs : List Char) : Option (Option (Bool × List Char) × List Char) :=
  match cs with
  | 'e' :: r => (scanExponent? r).map fun p => (some p.1, p.2)
  | 'E' :: r => (scanExponent? r).map fun p => (some p.1, p.2)
  | r => some (none, r)

/-- Reads a fraction, if one begins here. -/
def scanFraction? (cs : List Char) : Option (List Char × List Char) :=
  match cs with
  | '.' :: r =>
      let digits := r.takeWhile isAsciiDigit
      if digits.isEmpty then none else some (digits, r.dropWhile isAsciiDigit)
  | r => some ([], r)

/-- Reads a literal whose sign is off. -/
def scanUnsigned? (negative : Bool) (cs : List Char) : Option (Parts × List Char) :=
  let whole := cs.takeWhile isAsciiDigit
  if wholeOk whole then
    (scanFraction? (cs.dropWhile isAsciiDigit)).bind fun f =>
      (scanTail? f.2).map fun e => (⟨negative, whole, f.1, e.1⟩, e.2)
  else none

/-- Reads the longest number literal at the front of a text. -/
def scan? (cs : List Char) : Option (Parts × List Char) :=
  scanUnsigned? (takeMinus cs).1 (takeMinus cs).2

/-- The literal in normal form. -/
def Parts.chars (p : Parts) : List Char :=
  (if p.negative then ['-'] else []) ++ p.whole ++
    (if p.fraction.isEmpty then [] else '.' :: p.fraction) ++
    (match p.exponent with
    | none => []
    | some (negative, digits) => 'e' :: (if negative then '-' else '+') :: digits)

/-- Reads a text that is a number literal and nothing else. -/
def read? (cs : List Char) : Option Parts :=
  match scan? cs with
  | some (p, []) => some p
  | _ => none

def normalForm? (text : String) : Option String :=
  (read? text.toList).map fun p => String.ofList p.chars

end Numeral

/-- A number literal in normal form. -/
structure Numeral where
  text : String
  normal : Numeral.normalForm? text = some text
deriving DecidableEq

namespace Numeral

open Text (isAsciiDigit)

/-! ### Normal forms are fixed

Reading a written literal gives back its pieces, so normalising twice is normalising once. The
pieces that a reader finds are rows of digits, and each row ends where the next mark begins. -/

/-- Pieces that a literal can be made of. -/
structure Parts.WellFormed (p : Parts) : Prop where
  whole_digits : ∀ c ∈ p.whole, isAsciiDigit c = true
  whole_ok : wholeOk p.whole = true
  fraction_digits : ∀ c ∈ p.fraction, isAsciiDigit c = true
  exponent_digits : ∀ e, p.exponent = some e → e.2 ≠ [] ∧ ∀ c ∈ e.2, isAsciiDigit c = true

def exponentChars : Option (Bool × List Char) → List Char
  | none => []
  | some (negative, digits) => 'e' :: (if negative then '-' else '+') :: digits

def fractionChars (fraction : List Char) : List Char :=
  if fraction.isEmpty then [] else '.' :: fraction

theorem span_digits {ds : List Char} (h : ∀ c ∈ ds, isAsciiDigit c = true)
    (rest : List Char) (hr : ∀ c, rest.head? = some c → isAsciiDigit c = false) :
    (ds ++ rest).takeWhile isAsciiDigit = ds ∧ (ds ++ rest).dropWhile isAsciiDigit = rest := by
  induction ds with
  | nil =>
      cases rest with
      | nil => simp
      | cons c rest => simp [hr c rfl]
  | cons d ds ih =>
      have hd := h d (by simp)
      have := ih fun c hc => h c (by simp [hc])
      simp [hd, this.1, this.2]

theorem scanTail?_exponentChars {e : Option (Bool × List Char)}
    (h : ∀ x, e = some x → x.2 ≠ [] ∧ ∀ c ∈ x.2, isAsciiDigit c = true) :
    scanTail? (exponentChars e) = some (e, []) := by
  cases e with
  | none => rfl
  | some e =>
      obtain ⟨negative, digits⟩ := e
      obtain ⟨hne, hd⟩ := h _ rfl
      have key := span_digits hd [] (by simp)
      simp only [List.append_nil] at key
      have hd' : scanExponentDigits? negative digits = some ((negative, digits), []) := by
        simp [scanExponentDigits?, key.1, key.2, show digits ≠ [] from hne]
      have hsign : takeSign ((if negative then '-' else '+') :: digits) = (negative, digits) := by
        cases negative <;> rfl
      simp only [exponentChars, scanTail?, scanExponent?, hsign, hd', Option.map_some]

theorem head_exponentChars (e : Option (Bool × List Char)) (c : Char)
    (h : (exponentChars e).head? = some c) : c = 'e' := by
  cases e with
  | none => cases h
  | some e => cases h; rfl

theorem scanFraction?_chars {fraction : List Char}
    (h : ∀ c ∈ fraction, isAsciiDigit c = true) (e : Option (Bool × List Char)) :
    scanFraction? (fractionChars fraction ++ exponentChars e) =
      some (fraction, exponentChars e) := by
  cases fraction with
  | nil =>
      cases e with
      | none => rfl
      | some e => simp [fractionChars, exponentChars, scanFraction?]
  | cons d ds =>
      have key := span_digits h (exponentChars e) fun c hc => by
        rw [head_exponentChars e c hc]; decide
      simp only [fractionChars, List.isEmpty_cons, Bool.false_eq_true, if_false]
      rw [List.cons_append, scanFraction?, key.1, key.2]
      rfl

theorem Parts.chars_eq (p : Parts) :
    p.chars = (if p.negative then ['-'] else []) ++
      (p.whole ++ (fractionChars p.fraction ++ exponentChars p.exponent)) := by
  cases p with
  | mk n w f e => cases e <;> simp [Parts.chars, fractionChars, exponentChars]

theorem not_digit_head_tail (fraction : List Char) (e : Option (Bool × List Char)) (c : Char)
    (h : (fractionChars fraction ++ exponentChars e).head? = some c) :
    isAsciiDigit c = false := by
  cases fraction with
  | nil => rw [head_exponentChars e c (by simpa [fractionChars] using h)]; decide
  | cons d ds =>
      obtain rfl : '.' = c := by simpa [fractionChars] using h
      decide

theorem takeMinus_chars {p : Parts} (h : p.WellFormed) (rest : List Char) :
    takeMinus ((if p.negative then ['-'] else []) ++ (p.whole ++ rest)) =
      (p.negative, p.whole ++ rest) := by
  cases hn : p.negative with
  | true => rfl
  | false =>
      cases hwhole : p.whole with
      | nil => simpa [hwhole, wholeOk] using h.whole_ok
      | cons d ds =>
          have hd := h.whole_digits d (by simp [hwhole])
          simp only [Bool.false_eq_true, if_false, List.nil_append, List.cons_append]
          unfold takeMinus
          split
          · rename_i r heq
            simp only [List.cons.injEq] at heq
            rw [heq.1] at hd
            exact absurd hd (by decide)
          · rfl

theorem scan?_chars {p : Parts} (h : p.WellFormed) : scan? p.chars = some (p, []) := by
  have hw := span_digits h.whole_digits (fractionChars p.fraction ++ exponentChars p.exponent)
    (not_digit_head_tail _ _)
  have hf := scanFraction?_chars h.fraction_digits p.exponent
  have ht := scanTail?_exponentChars h.exponent_digits
  rw [p.chars_eq, scan?, takeMinus_chars h]
  simp [scanUnsigned?, hw.1, hw.2, h.whole_ok, hf, ht]

theorem digits_of_takeWhile (cs : List Char) :
    ∀ c ∈ cs.takeWhile isAsciiDigit, isAsciiDigit c = true := by
  induction cs with
  | nil => simp
  | cons d ds ih =>
      intro c hc
      by_cases hd : isAsciiDigit d = true
      · rw [List.takeWhile_cons_of_pos hd] at hc
        rcases List.mem_cons.1 hc with rfl | hc
        · exact hd
        · exact ih c hc
      · rw [List.takeWhile_cons_of_neg hd] at hc
        simp at hc

theorem scanFraction?_digits {cs rest f : List Char} (h : scanFraction? cs = some (f, rest)) :
    ∀ c ∈ f, isAsciiDigit c = true := by
  unfold scanFraction? at h
  split at h
  · simp only at h
    split at h
    · cases h
    · cases h
      exact digits_of_takeWhile _
  · cases h
    simp

theorem scanExponent?_digits {cs rest : List Char} {e : Bool × List Char}
    (h : scanExponent? cs = some (e, rest)) :
    e.2 ≠ [] ∧ ∀ c ∈ e.2, isAsciiDigit c = true := by
  unfold scanExponent? scanExponentDigits? at h
  simp only at h
  split at h
  · cases h
  · rename_i hne
    cases h
    exact ⟨by simpa using hne, digits_of_takeWhile _⟩

theorem scanTail?_digits {cs rest : List Char} {e : Option (Bool × List Char)}
    (h : scanTail? cs = some (e, rest)) :
    ∀ x, e = some x → x.2 ≠ [] ∧ ∀ c ∈ x.2, isAsciiDigit c = true := by
  rintro x rfl
  unfold scanTail? at h
  split at h
  · obtain ⟨q, hq, hq'⟩ := Option.map_eq_some_iff.1 h
    cases hq'
    exact scanExponent?_digits hq
  · obtain ⟨q, hq, hq'⟩ := Option.map_eq_some_iff.1 h
    cases hq'
    exact scanExponent?_digits hq
  · cases h

theorem wellFormed_of_scan? {cs rest : List Char} {p : Parts} (h : scan? cs = some (p, rest)) :
    p.WellFormed := by
  unfold scan? scanUnsigned? at h
  simp only at h
  split at h
  · rename_i hwhole
    obtain ⟨⟨f, cs'⟩, hf, h⟩ := Option.bind_eq_some_iff.1 h
    obtain ⟨⟨e, rest'⟩, ht, h⟩ := Option.map_eq_some_iff.1 h
    cases h
    exact ⟨digits_of_takeWhile _, hwhole, scanFraction?_digits hf, scanTail?_digits ht⟩
  · cases h

theorem scanTail?_length {cs rest : List Char} {e : Option (Bool × List Char)}
    (h : scanTail? cs = some (e, rest)) : rest.length ≤ cs.length := by
  have sign (r : List Char) : (takeSign r).2.length ≤ r.length := by
    unfold takeSign
    split
    · simp
    · unfold takeMinus
      split <;> simp
  have digits {r : List Char} {x : Bool × List Char} (hx : scanExponent? r = some (x, rest)) :
      rest.length ≤ r.length := by
    unfold scanExponent? scanExponentDigits? at hx
    simp only at hx
    split at hx
    · cases hx
    · cases hx
      exact Nat.le_trans (List.dropWhile_suffix _).length_le (sign r)
  unfold scanTail? at h
  split at h
  · obtain ⟨q, hq, hq'⟩ := Option.map_eq_some_iff.1 h
    cases hq'
    exact Nat.le_succ_of_le (digits hq)
  · obtain ⟨q, hq, hq'⟩ := Option.map_eq_some_iff.1 h
    cases hq'
    exact Nat.le_succ_of_le (digits hq)
  · cases h
    exact Nat.le_refl _

theorem scanFraction?_length {cs rest f : List Char} (h : scanFraction? cs = some (f, rest)) :
    rest.length ≤ cs.length := by
  unfold scanFraction? at h
  split at h
  · simp only at h
    split at h
    · cases h
    · cases h
      exact Nat.le_succ_of_le (List.dropWhile_suffix _).length_le
  · cases h
    exact Nat.le_refl _

/-- A literal takes at least one character. -/
theorem scan?_length {cs rest : List Char} {p : Parts} (h : scan? cs = some (p, rest)) :
    rest.length < cs.length := by
  have minus : (takeMinus cs).2.length ≤ cs.length := by
    unfold takeMinus
    split <;> simp
  unfold scan? scanUnsigned? at h
  simp only at h
  split at h
  · rename_i hwhole
    obtain ⟨⟨f, cs'⟩, hf, h⟩ := Option.bind_eq_some_iff.1 h
    obtain ⟨⟨e, rest'⟩, ht, h⟩ := Option.map_eq_some_iff.1 h
    cases h
    have hf := scanFraction?_length hf
    have ht := scanTail?_length ht
    have hsplit := congrArg List.length
      (List.takeWhile_append_dropWhile (p := isAsciiDigit) (l := (takeMinus cs).2))
    have hpos : 0 < ((takeMinus cs).2.takeWhile isAsciiDigit).length := by
      cases hd : (takeMinus cs).2.takeWhile isAsciiDigit with
      | nil => simp [hd, wholeOk] at hwhole
      | cons d ds => simp
    simp only [List.length_append] at hsplit ht hf ⊢
    omega
  · cases h

theorem wellFormed_of_read? {cs : List Char} {p : Parts} (h : read? cs = some p) :
    p.WellFormed := by
  unfold read? at h
  split at h
  · rename_i _ q hq
    simp only [Option.some.injEq] at h
    exact h ▸ wellFormed_of_scan? hq
  · simp at h

theorem read?_chars {p : Parts} (h : p.WellFormed) : read? p.chars = some p := by
  simp [read?, scan?_chars h]

/-- The number literal with these pieces. -/
def ofParts (p : Parts) (h : p.WellFormed) : Numeral where
  text := String.ofList p.chars
  normal := by simp [normalForm?, read?_chars h]

/-- Reads a text as a number literal. -/
def ofText? (text : String) : Option Numeral :=
  match h : read? text.toList with
  | some p => some (ofParts p (wellFormed_of_read? h))
  | none => none

/-- Reads the number literal at the front of a text. -/
def ofChars? (cs : List Char) : Option (Numeral × List Char) :=
  match h : scan? cs with
  | some (p, rest) => some (ofParts p (wellFormed_of_scan? h), rest)
  | none => none

/-- A literal without fraction or exponent. -/
def isInteger (n : Numeral) : Bool :=
  match read? n.text.toList with
  | some p => p.fraction.isEmpty && p.exponent.isNone
  | none => false

theorem ofChars?_length {cs rest : List Char} {n : Numeral}
    (h : ofChars? cs = some (n, rest)) : rest.length < cs.length := by
  unfold ofChars? at h
  split at h
  · rename_i hscan
    cases h
    exact scan?_length hscan
  · cases h

theorem text_injective {a b : Numeral} (h : a.text = b.text) : a = b := by
  cases a
  cases b
  simp_all

end Numeral
end RecordCodec
