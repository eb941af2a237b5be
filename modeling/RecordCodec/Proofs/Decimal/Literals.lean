import RecordCodec.Json.Parser
import RecordCodec.Proofs.Json.Literals
import RecordCodec.Proofs.Record.Order

/-!
Literals of ASCII digits and the numbers they write. A literal is an optional sign, digits, an
optional fraction and an optional exponent; digits before the point count from the point to the
left, digits behind it to the right, and the exponent moves the point. Every literal is read, as a
plain decimal that denotes its number, so decimals are equal and ordered as these numbers are.
-/

namespace RecordCodec

open Text

namespace Decimal

/-! ### Literals -/

/-- A sign that may be left out. -/
inductive Sign where
  | absent
  | plus
  | minus
deriving DecidableEq, Repr

namespace Sign

def chars : Sign → List Char
  | .absent => []
  | .plus => ['+']
  | .minus => ['-']

def isNegative : Sign → Bool
  | .absent => false
  | .plus => false
  | .minus => true

end Sign

/-- One ASCII digit or more. -/
structure Row where
  digits : List Char
  ne_nil : digits ≠ []
  ascii : ∀ c ∈ digits, isAsciiDigit c = true

/-- A mark with an integer behind it, of magnitude 4096 at most. -/
structure Exponent where
  mark : Char
  sign : Sign
  row : Row
  isMark : mark = 'e' ∨ mark = 'E'
  magnitude_le : digitsValue row.digits ≤ 4096

structure Literal where
  sign : Sign
  whole : Row
  fraction : Option Row
  exponent : Option Exponent

def Exponent.chars (e : Exponent) : List Char := e.mark :: (e.sign.chars ++ e.row.digits)

def Exponent.power (e : Exponent) : Int := signed e.sign.isNegative (digitsValue e.row.digits)

namespace Literal

/-- The digits behind the point. -/
def fractionDigits (l : Literal) : List Char := (l.fraction.map Row.digits).getD []

def exponentChars (l : Literal) : List Char := (l.exponent.map Exponent.chars).getD []

/-- The number of places by which the point is moved. -/
def power (l : Literal) : Int := (l.exponent.map Exponent.power).getD 0

def chars (l : Literal) : List Char :=
  l.sign.chars ++ (l.whole.digits ++ (Numeral.fractionChars l.fractionDigits ++ l.exponentChars))

/-- The number that the literal writes. -/
def value (l : Literal) : ℚ :=
  (if l.sign.isNegative then -1 else 1) *
    (digitsValue l.whole.digits + fractionValue l.fractionDigits) * (10 : ℚ) ^ l.power

/-- The text is the literal with blanks around it. -/
def Spells (l : Literal) (text : String) : Prop :=
  ∃ before after, (∀ c ∈ before, isBlank c = true) ∧ (∀ c ∈ after, isBlank c = true) ∧
    text.toList = before ++ (l.chars ++ after)

theorem ascii_fractionDigits (l : Literal) : ∀ c ∈ l.fractionDigits, isAsciiDigit c = true := by
  unfold fractionDigits
  cases l.fraction with
  | none => exact nofun
  | some row => exact row.ascii

theorem not_blank_chars (l : Literal) : ∀ c ∈ l.chars, isBlank c = false := by
  have row : ∀ {cs : List Char}, (∀ c ∈ cs, isAsciiDigit c = true) → ∀ c ∈ cs, isBlank c = false :=
    fun h c hc => isBlank_of_ascii (h c hc)
  have sign : ∀ s : Sign, ∀ c ∈ s.chars, isBlank c = false := by
    intro s
    cases s with
    | absent => exact nofun
    | plus => exact List.forall_mem_singleton.2 rfl
    | minus => exact List.forall_mem_singleton.2 rfl
  have fraction : ∀ c ∈ Numeral.fractionChars l.fractionDigits, isBlank c = false := by
    unfold Numeral.fractionChars
    split
    · exact nofun
    · exact List.forall_mem_cons.2 ⟨by decide, row l.ascii_fractionDigits⟩
  have exponent : ∀ c ∈ l.exponentChars, isBlank c = false := by
    unfold exponentChars
    cases l.exponent with
    | none => exact nofun
    | some e =>
        refine List.forall_mem_cons.2 ⟨?_, List.forall_mem_append.2 ⟨sign _, row e.row.ascii⟩⟩
        rcases e.isMark with h | h <;> rw [h] <;> decide
  simp only [chars, List.forall_mem_append]
  exact ⟨sign _, row l.whole.ascii, fraction, exponent⟩

/-! ### Reading literals -/

theorem takeSign_chars (s : Sign) (row : Row) (rest : List Char) :
    takeSign (s.chars ++ (row.digits ++ rest)) = (s.isNegative, row.digits ++ rest) := by
  cases s with
  | absent =>
      refine @takeSign_digits (row.digits ++ rest) (fun c hc => ?_) false
      rw [List.head?_append_of_ne_nil _ row.ne_nil] at hc
      exact isDecimalDigit_of_ascii (row.ascii c (List.mem_of_mem_head? hc))
  | plus => rfl
  | minus => rfl

theorem signedDigits_chars (s : Sign) (ds : List Char) :
    Numeral.SignedDigits s.isNegative ds (s.chars ++ ds) := by
  cases s with
  | absent => exact .bare ds
  | plus => exact .plus ds
  | minus => exact .minus ds

theorem readExponent_chars (e : Exponent) : readExponent e.chars = .ok e.power := by
  have hread := (signedDigits_chars e.sign e.row.digits).readInt? e.row.ne_nil e.row.ascii
  have habs : e.power.natAbs = digitsValue e.row.digits := by
    unfold Exponent.power signed
    split <;> simp
  have hle := e.magnitude_le
  have hne : e.power ≠ Int64.minValue.toInt := by
    intro heq
    rw [heq] at habs
    have hmin : Int64.minValue.toInt.natAbs = 2 ^ 63 := by decide
    omega
  have hmax : (e.power.natAbs : Int) ≤ maxExponent := by
    rw [maxExponent]
    omega
  rw [Exponent.chars, readExponent, if_pos e.isMark, hread]
  exact (if_neg hne).trans (if_pos hmax)

theorem readExponent_exponentChars (l : Literal) : readExponent l.exponentChars = .ok l.power := by
  unfold exponentChars power
  cases l.exponent with
  | none => rfl
  | some e => exact readExponent_chars e

theorem head_exponentChars (l : Literal) {c : Char} (h : l.exponentChars.head? = some c) :
    c = 'e' ∨ c = 'E' := by
  unfold exponentChars at h
  cases he : l.exponent with
  | none =>
      rw [he] at h
      cases h
  | some e =>
      rw [he] at h
      obtain rfl := Option.some.inj h
      exact e.isMark

/-- The decimal that the literal is read as. -/
def decimal (l : Literal) : Decimal :=
  normalize l.sign.isNegative (l.whole.digits ++ l.fractionDigits)
    (l.fractionDigits.length - l.power)

theorem ascii_digits (l : Literal) :
    ∀ c ∈ l.whole.digits ++ l.fractionDigits, isAsciiDigit c = true :=
  List.forall_mem_append.2 ⟨l.whole.ascii, l.ascii_fractionDigits⟩

theorem read_of_spells {l : Literal} {text : String} (h : l.Spells text) :
    read text = .ok l.decimal := by
  obtain ⟨before, after, hbefore, hafter, htext⟩ := h
  have hdigits : ∀ {cs : List Char}, (∀ c ∈ cs, isAsciiDigit c = true) →
      ∀ c ∈ cs, isDecimalDigit c = true := fun h c hc => isDecimalDigit_of_ascii (h c hc)
  have hparts := readUnsigned_parts (hdigits l.whole.ascii) l.whole.ne_nil
    (hdigits l.ascii_fractionDigits) (fun _ => l.head_exponentChars) l.sign.isNegative
  rw [l.readExponent_exponentChars, byteLength_of_ascii l.ascii_fractionDigits] at hparts
  have hsign : takeSign (trim text.toList) = (l.sign.isNegative,
      l.whole.digits ++ (Numeral.fractionChars l.fractionDigits ++ l.exponentChars)) := by
    rw [htext, trim_around hbefore l.not_blank_chars hafter, chars, takeSign_chars]
  rw [read, hsign]
  exact hparts

theorem plain_decimal (l : Literal) : Plain l.decimal := plain_normalize l.ascii_digits _ _

/-- The decimal denotes the number that the literal writes. -/
theorem value_decimal (l : Literal) : l.decimal.value = l.value := by
  have hpower : (10 : ℚ) ^ (-((l.fractionDigits.length : Int) - l.power)) *
      10 ^ l.fractionDigits.length = 10 ^ l.power := by
    rw [← zpow_natCast, ← zpow_add₀ (by norm_num : (10 : ℚ) ≠ 0)]
    congr 1
    omega
  rw [decimal, value_normalize l.ascii_digits, Decimal.value, value, ← hpower]
  simp only [digitsValue_append]
  push_cast
  rw [digitsValue_eq_fraction l.fractionDigits]
  ring

end Literal

/-! ### The numbers of literals -/

theorem eq_iff_value_eq {a b : Decimal} (ha : Plain a) (hb : Plain b) :
    a = b ↔ a.value = b.value := by
  rw [← compare_eq_iff ha.normal hb.normal, compare_eq_value ha hb, compare_eq_iff_eq]

end Decimal

/-- The value is this number: an integer, or a decimal read from a literal. -/
inductive Value.IsNumber : Value → ℚ → Prop
  | int (i : Int32) : IsNumber (.int i) i.toInt
  | long (i : Int64) : IsNumber (.long i) i.toInt
  | decimal {l : Decimal.Literal} {text : String} {d : Decimal} :
      l.Spells text → Decimal.read text = .ok d → IsNumber (.decimal d) l.value

theorem Value.IsNumber.asDecimal? {v : Value} {q : ℚ} (h : v.IsNumber q) :
    ∃ d, v.asDecimal? = some d ∧ d.Plain ∧ d.value = q := by
  cases h with
  | int i => exact ⟨_, rfl, Decimal.plain_ofInt _, Decimal.value_ofInt _⟩
  | long i => exact ⟨_, rfl, Decimal.plain_ofInt _, Decimal.value_ofInt _⟩
  | @decimal l text d hspells hread =>
      rw [Decimal.Literal.read_of_spells hspells] at hread
      obtain rfl := Except.ok.inj hread
      exact ⟨_, rfl, l.plain_decimal, l.value_decimal⟩

/-- Numbers of any kinds are ordered as the numbers they are. -/
theorem compareScalars_of_isNumber {x y : Value} {p q : ℚ} (hx : x.IsNumber p)
    (hy : y.IsNumber q) : compareScalars x y = .ok (compare p q) := by
  obtain ⟨a, ha, hplain, rfl⟩ := hx.asDecimal?
  obtain ⟨b, hb, hplain', rfl⟩ := hy.asDecimal?
  rw [compareScalars_numbers ha hb, Decimal.compare_eq_value hplain hplain']

namespace Decimal

/-- Literals are read as the numbers they write, in normal form: the decimals are equal exactly if
the numbers are, and they and the integers are ordered as numbers. -/
theorem reads_literals {l m : Literal} {s t : String} (hs : l.Spells s) (ht : m.Spells t) :
    ∃ a b, read s = .ok a ∧ read t = .ok b ∧ Plain a ∧ Plain b ∧
      a.value = l.value ∧ b.value = m.value ∧ (a = b ↔ l.value = m.value) ∧
      a.compare b = Ord.compare l.value m.value ∧
      ∀ x y p q, Value.IsNumber x p → Value.IsNumber y q →
        compareScalars x y = .ok (Ord.compare p q) := by
  refine ⟨l.decimal, m.decimal, l.read_of_spells hs, m.read_of_spells ht, l.plain_decimal,
    m.plain_decimal, l.value_decimal, m.value_decimal, ?_, ?_,
    fun x y p q => compareScalars_of_isNumber⟩
  · rw [eq_iff_value_eq l.plain_decimal m.plain_decimal, l.value_decimal, m.value_decimal]
  · rw [compare_eq_value l.plain_decimal m.plain_decimal, l.value_decimal, m.value_decimal]

/-- `+007.250E-1` -/
def Literal.padded : Literal where
  sign := .plus
  whole := ⟨['0', '0', '7'], nofun, List.all_eq_true.1 rfl⟩
  fraction := some ⟨['2', '5', '0'], nofun, List.all_eq_true.1 rfl⟩
  exponent := some ⟨'E', .minus, ⟨['1'], nofun, List.all_eq_true.1 rfl⟩, .inr rfl, by decide⟩

/-- `-725e+0004096` -/
def Literal.vast : Literal where
  sign := .minus
  whole := ⟨['7', '2', '5'], nofun, List.all_eq_true.1 rfl⟩
  fraction := none
  exponent := some ⟨'e', .plus, ⟨['0', '0', '0', '4', '0', '9', '6'], nofun, List.all_eq_true.1 rfl⟩,
    .inl rfl, by decide⟩

theorem reads_padded_and_vast :
    Literal.padded.Spells "\t+007.250E-1 " ∧ Literal.vast.Spells "-725e+0004096" ∧
    ∃ a b, read "\t+007.250E-1 " = .ok a ∧ read "-725e+0004096" = .ok b ∧ Plain a ∧ Plain b ∧
      a.value = Literal.padded.value ∧ b.value = Literal.vast.value ∧
      (a = b ↔ Literal.padded.value = Literal.vast.value) ∧
      a.compare b = Ord.compare Literal.padded.value Literal.vast.value ∧
      ∀ x y p q, Value.IsNumber x p → Value.IsNumber y q →
        compareScalars x y = .ok (Ord.compare p q) := by
  have hpadded : Literal.padded.Spells "\t+007.250E-1 " :=
    ⟨['\t'], [' '], List.forall_mem_singleton.2 rfl, List.forall_mem_singleton.2 rfl,
      by decide +kernel⟩
  have hvast : Literal.vast.Spells "-725e+0004096" := ⟨[], [], nofun, nofun, by decide +kernel⟩
  exact ⟨hpadded, hvast, reads_literals hpadded hvast⟩

end Decimal
end RecordCodec
