import Mathlib.Algebra.Order.Field.Power
import Mathlib.Algebra.Order.Field.Rat
import Mathlib.Tactic.FieldSimp
import Mathlib.Tactic.Linarith
import Mathlib.Tactic.Positivity
import Mathlib.Tactic.Ring
import RecordCodec.Proofs.Decimal.Normal

/-!
The number that a decimal denotes, as a rational. Read as digits behind a point, a row of digits
is a number from zero up to one, and rows without zeros at their ends are ordered as these numbers
are; the place of the leading digit decides first because such a number is at least a tenth. So the
order of plain decimals is the order of the rationals, and normalising does not change the number.
-/

namespace RecordCodec.Decimal

open Text

/-- The number that a row of digits writes behind the point. -/
def fractionValue : List Char → ℚ
  | [] => 0
  | c :: cs => (((c.toNat - 48 : Nat) : ℚ) + fractionValue cs) / 10

/-- The rational number that a decimal denotes. -/
def value (d : Decimal) : ℚ :=
  (if d.negative then -1 else 1) * ((digitsValue d.digits : ℚ) * (10 : ℚ) ^ (-d.scale))

/-! ### Rows of digits -/

theorem digitsValue_append (xs ys : List Char) :
    digitsValue (xs ++ ys) = 10 ^ ys.length * digitsValue xs + digitsValue ys := by
  rw [digitsValue_eq, Nat.ofDigitChars_append, Nat.ofDigitChars_eq_ofDigitChars_zero]
  rfl

@[simp] theorem digitsValue_zeros (n : Nat) : digitsValue (List.replicate n '0') = 0 := by
  rw [digitsValue_eq, Nat.ofDigitChars_replicate_zero, Nat.mul_zero]

theorem digitsValue_cons (c : Char) (cs : List Char) :
    digitsValue (c :: cs) = 10 ^ cs.length * (c.toNat - 48) + digitsValue cs := by
  have h := digitsValue_append [c] cs
  rw [List.singleton_append] at h
  rw [h]
  simp [digitsValue]

theorem digitsValue_eq_fraction (cs : List Char) :
    (digitsValue cs : ℚ) = fractionValue cs * 10 ^ cs.length := by
  induction cs with
  | nil => simp [digitsValue, fractionValue]
  | cons c cs ih =>
      rw [digitsValue_cons, Nat.cast_add, Nat.cast_mul, ih, fractionValue, List.length_cons,
        pow_succ]
      push_cast
      ring

theorem digit_le_nine {c : Char} (h : isAsciiDigit c = true) :
    ((c.toNat - 48 : Nat) : ℚ) ≤ 9 := by
  have hc := isAsciiDigit_iff.1 h
  have hle : c.toNat - 48 ≤ 9 := by omega
  exact_mod_cast hle

theorem fractionValue_nonneg (cs : List Char) : 0 ≤ fractionValue cs := by
  induction cs with
  | nil => exact le_refl 0
  | cons c cs ih =>
      have hc : (0 : ℚ) ≤ ((c.toNat - 48 : Nat) : ℚ) := Nat.cast_nonneg _
      rw [fractionValue]
      positivity

theorem fractionValue_lt_one {cs : List Char} (h : ∀ c ∈ cs, isAsciiDigit c = true) :
    fractionValue cs < 1 := by
  induction cs with
  | nil => exact zero_lt_one
  | cons c cs ih =>
      obtain ⟨hc, hcs⟩ := List.forall_mem_cons.1 h
      have hdigit := digit_le_nine hc
      have hrest := ih hcs
      rw [fractionValue]
      linarith

theorem tenth_le_fractionValue {ds : List Char} (h : Trimmed ds) : 1 / 10 ≤ fractionValue ds := by
  have hascii := h.ascii
  have hhead := h.head
  cases ds with
  | nil => exact absurd rfl h.ne_nil
  | cons c cs =>
      have hc := isAsciiDigit_iff.1 (hascii c List.mem_cons_self)
      have hne : c.toNat ≠ 48 := fun heq => hhead (congrArg some (Char.toNat_inj.1 heq))
      have hone : (1 : ℚ) ≤ ((c.toNat - 48 : Nat) : ℚ) := by
        have hle : 1 ≤ c.toNat - 48 := by omega
        exact_mod_cast hle
      have hrest := fractionValue_nonneg cs
      rw [fractionValue]
      linarith

/-- A row that does not end with a zero has a digit that counts. -/
theorem fractionValue_pos {cs : List Char} (h : ∀ c ∈ cs, isAsciiDigit c = true) (hne : cs ≠ [])
    (hlast : cs.getLast? ≠ some '0') : 0 < fractionValue cs := by
  induction cs with
  | nil => exact absurd rfl hne
  | cons c cs ih =>
      obtain ⟨hc, hcs⟩ := List.forall_mem_cons.1 h
      have hdigit : (0 : ℚ) ≤ ((c.toNat - 48 : Nat) : ℚ) := Nat.cast_nonneg _
      rw [fractionValue]
      cases hcs' : cs with
      | nil =>
          have hrange := isAsciiDigit_iff.1 hc
          have hzero : c.toNat ≠ 48 := by
            intro heq
            rw [hcs'] at hlast
            exact hlast (congrArg some (Char.toNat_inj.1 heq))
          have hpos : (0 : ℚ) < ((c.toNat - 48 : Nat) : ℚ) := by
            have hlt : 0 < c.toNat - 48 := by omega
            exact_mod_cast hlt
          simp only [fractionValue]
          linarith
      | cons d ds =>
          have hrest := ih hcs (by simp [hcs']) (by simpa [hcs'] using hlast)
          rw [hcs'] at hrest
          linarith

theorem compare_char (c d : Char) : Ord.compare c d = Ord.compare c.toNat d.toNat := by
  show compareOfLessAndEq c d = compareOfLessAndEq c.toNat d.toNat
  simp only [compareOfLessAndEq, ← Char.toNat_inj]
  rfl

/-- Of two numbers with different digits before the point the digits decide. -/
theorem digit_decides {m n : Nat} {x y : ℚ} (hx : x < 1) (hy : 0 ≤ y) (h : m < n) :
    ((m : ℚ) + x) / 10 < ((n : ℚ) + y) / 10 := by
  have hle : (m : ℚ) + 1 ≤ n := by exact_mod_cast h
  linarith

/-- Of two numbers with the same digits before the point the rest decides. -/
theorem rest_decides (q x y : ℚ) :
    Ord.compare ((q + x) / 10) ((q + y) / 10) = Ord.compare x y := by
  rcases lt_trichotomy x y with h | h | h
  · rw [compare_lt_iff_lt.2 h, compare_lt_iff_lt]
    linarith
  · rw [h, compare_eq_iff_eq.2 rfl, compare_eq_iff_eq.2 rfl]
  · rw [compare_gt_iff_gt.2 h, compare_gt_iff_gt]
    linarith

theorem getLast?_tail {c : Char} {cs : List Char} (h : (c :: cs).getLast? ≠ some '0') :
    cs.getLast? ≠ some '0' := by
  cases cs with
  | nil => simp
  | cons d ds => simpa using h

/-- Rows that do not end with a zero are ordered as the numbers behind the point are. -/
theorem compare_digits {xs ys : List Char} (hx : ∀ c ∈ xs, isAsciiDigit c = true)
    (hy : ∀ c ∈ ys, isAsciiDigit c = true) (hxl : xs.getLast? ≠ some '0')
    (hyl : ys.getLast? ≠ some '0') :
    Ord.compare xs ys = Ord.compare (fractionValue xs) (fractionValue ys) := by
  induction xs generalizing ys with
  | nil =>
      cases ys with
      | nil => exact (compare_eq_iff_eq.2 rfl).symm
      | cons d ds =>
          have hpos := fractionValue_pos hy (by simp) hyl
          exact (compare_lt_iff_lt.2 hpos).symm
  | cons c cs ih =>
      cases ys with
      | nil =>
          have hpos := fractionValue_pos hx (by simp) hxl
          exact (compare_gt_iff_gt.2 hpos).symm
      | cons d ds =>
          obtain ⟨hc, hcs⟩ := List.forall_mem_cons.1 hx
          obtain ⟨hd, hds⟩ := List.forall_mem_cons.1 hy
          have hcr := isAsciiDigit_iff.1 hc
          have hdr := isAsciiDigit_iff.1 hd
          rw [List.compare_cons_cons, compare_char, fractionValue, fractionValue]
          rcases lt_trichotomy c.toNat d.toNat with hlt | heq | hgt
          · have hdigit : c.toNat - 48 < d.toNat - 48 := by omega
            rw [compare_lt_iff_lt.2 hlt, Ordering.lt_then, eq_comm, compare_lt_iff_lt]
            exact digit_decides (fractionValue_lt_one hcs) (fractionValue_nonneg ds) hdigit
          · rw [compare_eq_iff_eq.2 heq, Ordering.eq_then,
              ih hcs hds (getLast?_tail hxl) (getLast?_tail hyl), heq, rest_decides]
          · have hdigit : d.toNat - 48 < c.toNat - 48 := by omega
            rw [compare_gt_iff_gt.2 hgt, Ordering.gt_then, eq_comm, compare_gt_iff_gt]
            exact digit_decides (fractionValue_lt_one hds) (fractionValue_nonneg cs) hdigit

/-! ### Magnitudes -/

/-- The distance from zero. -/
def magnitude (d : Decimal) : ℚ := (digitsValue d.digits : ℚ) * (10 : ℚ) ^ (-d.scale)

theorem value_eq (d : Decimal) :
    d.value = if d.negative then -d.magnitude else d.magnitude := by
  unfold value
  split
  · rw [neg_one_mul, magnitude]
  · rw [one_mul, magnitude]

@[simp] theorem magnitude_zero : zero.magnitude = 0 := by
  have hdigits : digitsValue zero.digits = 0 := rfl
  rw [magnitude, hdigits, Nat.cast_zero, zero_mul]

section

variable {m n : Bool} {xs ys : List Char} {s t : Int}

/-- The leading digit stands at the place that length and scale give. -/
theorem magnitude_row (m : Bool) (xs : List Char) (s : Int) :
    magnitude ⟨m, xs, s⟩ = fractionValue xs * (10 : ℚ) ^ ((xs.length : Int) - s) := by
  rw [magnitude, digitsValue_eq_fraction, mul_assoc, sub_eq_add_neg,
    zpow_add₀ (by norm_num : (10 : ℚ) ≠ 0), zpow_natCast]

theorem magnitude_pos (h : Trimmed xs) : 0 < magnitude ⟨m, xs, s⟩ := by
  have htenth := tenth_le_fractionValue h
  rw [magnitude_row]
  have hpos : (0 : ℚ) < fractionValue xs := by linarith
  positivity

theorem magnitude_lt_of_place (hx : ∀ c ∈ xs, isAsciiDigit c = true) (hy : Trimmed ys)
    (h : (xs.length : Int) - s < (ys.length : Int) - t) :
    magnitude ⟨m, xs, s⟩ < magnitude ⟨n, ys, t⟩ := by
  rw [magnitude_row, magnitude_row]
  have hone := fractionValue_lt_one hx
  have htenth := tenth_le_fractionValue hy
  have hpower : (10 : ℚ) ^ ((xs.length : Int) - s) * 10 ≤ (10 : ℚ) ^ ((ys.length : Int) - t) := by
    rw [← zpow_add_one₀ (by norm_num : (10 : ℚ) ≠ 0)]
    exact zpow_le_zpow_right₀ (by norm_num) h
  have hx0 : (0 : ℚ) < (10 : ℚ) ^ ((xs.length : Int) - s) := by positivity
  calc fractionValue xs * (10 : ℚ) ^ ((xs.length : Int) - s)
      < 1 * (10 : ℚ) ^ ((xs.length : Int) - s) := mul_lt_mul_of_pos_right hone hx0
    _ = 1 / 10 * ((10 : ℚ) ^ ((xs.length : Int) - s) * 10) := by ring
    _ ≤ 1 / 10 * (10 : ℚ) ^ ((ys.length : Int) - t) :=
        mul_le_mul_of_nonneg_left hpower (by norm_num)
    _ ≤ fractionValue ys * (10 : ℚ) ^ ((ys.length : Int) - t) :=
        mul_le_mul_of_nonneg_right htenth (by positivity)

theorem compare_mul_right {x y p : ℚ} (hp : 0 < p) :
    Ord.compare (x * p) (y * p) = Ord.compare x y := by
  rcases lt_trichotomy x y with h | h | h
  · rw [compare_lt_iff_lt.2 h, compare_lt_iff_lt]
    exact mul_lt_mul_of_pos_right h hp
  · rw [h, compare_eq_iff_eq.2 rfl, compare_eq_iff_eq.2 rfl]
  · rw [compare_gt_iff_gt.2 h, compare_gt_iff_gt]
    exact mul_lt_mul_of_pos_right h hp

theorem compareMagnitude_row (hx : Trimmed xs) (hy : Trimmed ys) :
    compareMagnitude ⟨m, xs, s⟩ ⟨n, ys, t⟩ =
      Ord.compare (magnitude ⟨m, xs, s⟩) (magnitude ⟨n, ys, t⟩) := by
  simp only [compareMagnitude, isZero_bare hx.bare, isZero_bare hy.bare, byteLength_of_ascii hx.ascii,
    byteLength_of_ascii hy.ascii]
  -- the place of the leading digit decides, then the digits behind a common point
  rcases lt_trichotomy ((xs.length : Int) - s) ((ys.length : Int) - t) with hlt | heq | hgt
  · rw [compare_lt_iff_lt.2 hlt, Ordering.lt_then, eq_comm, compare_lt_iff_lt]
    exact magnitude_lt_of_place hx.ascii hy hlt
  · rw [compare_eq_iff_eq.2 heq, Ordering.eq_then, magnitude_row, magnitude_row, heq,
      compare_mul_right (by positivity), compare_digits hx.ascii hy.ascii hx.last hy.last]
  · rw [compare_gt_iff_gt.2 hgt, Ordering.gt_then, eq_comm, compare_gt_iff_gt]
    exact magnitude_lt_of_place hy.ascii hx hgt

end

theorem compareMagnitude_eq {a b : Decimal} (ha : Plain a) (hb : Plain b) :
    a.compareMagnitude b = Ord.compare a.magnitude b.magnitude := by
  cases ha with
  | zero =>
      cases hb with
      | zero => exact (compare_eq_iff_eq.2 rfl).symm
      | @row n ys t hy =>
          have hpos : zero.magnitude < magnitude ⟨n, ys, t⟩ := magnitude_zero ▸ magnitude_pos hy
          rw [compare_lt_iff_lt.2 hpos]
          simp only [compareMagnitude, isZero_bare hy.bare]
          rfl
  | @row m xs s hx =>
      cases hb with
      | zero =>
          have hpos : zero.magnitude < magnitude ⟨m, xs, s⟩ := magnitude_zero ▸ magnitude_pos hx
          rw [compare_gt_iff_gt.2 hpos]
          simp only [compareMagnitude, isZero_bare hx.bare]
          rfl
      | row hy => exact compareMagnitude_row hx hy

/-! ### The order of numbers -/

theorem magnitude_nonneg (d : Decimal) : 0 ≤ d.magnitude := by
  unfold magnitude
  positivity

theorem magnitude_pos_of_negative {d : Decimal} (h : Plain d) (hn : d.negative = true) :
    0 < d.magnitude := by
  cases h with
  | zero => cases hn
  | row hds => exact magnitude_pos hds

theorem compare_neg (x y : ℚ) : Ord.compare (-x) (-y) = Ord.compare y x := by
  rcases lt_trichotomy x y with h | h | h
  · rw [compare_gt_iff_gt.2 h, compare_gt_iff_gt]
    linarith
  · rw [h, compare_eq_iff_eq.2 rfl, compare_eq_iff_eq.2 rfl]
  · rw [compare_lt_iff_lt.2 h, compare_lt_iff_lt]
    linarith

/-- Plain decimals are ordered as the numbers they denote. -/
theorem compare_eq_value {a b : Decimal} (ha : Plain a) (hb : Plain b) :
    a.compare b = Ord.compare a.value b.value := by
  have ha0 := magnitude_nonneg a
  have hb0 := magnitude_nonneg b
  rw [value_eq, value_eq, compare]
  cases hna : a.negative with
  | false =>
      cases hnb : b.negative with
      | false => exact compareMagnitude_eq ha hb
      | true =>
          have hpos := magnitude_pos_of_negative hb hnb
          rw [eq_comm, if_neg (by decide), if_pos rfl, compare_gt_iff_gt]
          linarith
  | true =>
      cases hnb : b.negative with
      | false =>
          have hpos := magnitude_pos_of_negative ha hna
          rw [eq_comm, if_pos rfl, if_neg (by decide), compare_lt_iff_lt]
          linarith
      | true =>
          rw [if_pos rfl, if_pos rfl, compare_neg]
          exact compareMagnitude_eq hb ha

/-! ### Normalising -/

/-- Normalising keeps the number. -/
theorem value_normalize {cs : List Char} (h : ∀ c ∈ cs, isAsciiDigit c = true) (negative : Bool)
    (scale : Int) : (normalize negative cs scale).value = value ⟨negative, cs, scale⟩ := by
  rcases row_cases h with ⟨a, rfl⟩ | ⟨a, ds, b, hds, rfl⟩
  · have hdigits : digitsValue zero.digits = 0 := rfl
    rw [normalize_zeros, value, value]
    simp only [hdigits, digitsValue_zeros, Nat.cast_zero, zero_mul, mul_zero]
  · have hdigits : digitsValue (List.replicate a '0' ++ (ds ++ List.replicate b '0')) =
        10 ^ b * digitsValue ds := by
      rw [digitsValue_append, digitsValue_append, digitsValue_zeros, digitsValue_zeros,
        List.length_replicate, Nat.mul_zero, Nat.zero_add, Nat.add_zero]
    have hpower : (10 : ℚ) ^ (-(scale - (b : Int))) = 10 ^ (-scale) * 10 ^ b := by
      rw [neg_sub, sub_eq_add_neg, add_comm, zpow_add₀ (by norm_num : (10 : ℚ) ≠ 0), zpow_natCast]
    rw [normalize_row hds.bare, value, value]
    simp only [hdigits, hpower]
    push_cast
    ring

@[simp] theorem value_ofInt (i : Int) : (ofInt i).value = i := by
  rw [ofInt, value_normalize (ascii_natDigits _), value]
  simp only [digitsValue_natDigits, Int.neg_zero, zpow_zero, mul_one, decide_eq_true_eq]
  have habs : ((i.natAbs : Nat) : ℚ) = |(i : ℚ)| := by
    rw [← Int.cast_abs, Int.abs_eq_natAbs, Int.cast_natCast]
  split
  · rename_i hneg
    have hneg' : (i : ℚ) < 0 := by exact_mod_cast hneg
    rw [habs, abs_of_neg hneg']
    ring
  · rename_i hneg
    have hpos : (0 : ℚ) ≤ i := by exact_mod_cast not_lt.1 hneg
    rw [habs, abs_of_nonneg hpos, one_mul]

theorem compare_ofInt (i j : Int) : (ofInt i).compare (ofInt j) = Ord.compare i j := by
  rw [compare_eq_value (plain_ofInt i) (plain_ofInt j), value_ofInt, value_ofInt]
  rcases lt_trichotomy i j with h | h | h
  · rw [compare_lt_iff_lt.2 h, compare_lt_iff_lt]
    exact_mod_cast h
  · rw [h, compare_eq_iff_eq.2 rfl, compare_eq_iff_eq.2 rfl]
  · rw [compare_gt_iff_gt.2 h, compare_gt_iff_gt]
    exact_mod_cast h

end RecordCodec.Decimal
