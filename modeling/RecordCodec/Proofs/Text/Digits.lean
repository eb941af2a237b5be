import Mathlib.Data.List.Basic
import RecordCodec.Text.Blank
import RecordCodec.Text.Digits

/-!
Reading back what was written. The digits of a number are ASCII digits and have its value, so the
text of an integer is read as that integer; integers of 32 and 64 bits are in the range that is
checked when they are read.
-/

namespace RecordCodec.Text

/-! ### ASCII digits -/

theorem isAsciiDigit_iff {c : Char} : isAsciiDigit c = true ↔ 48 ≤ c.toNat ∧ c.toNat ≤ 57 := by
  simp only [isAsciiDigit, Bool.and_eq_true, decide_eq_true_eq]
  rfl

theorem isDecimalDigit_of_ascii {c : Char} (h : isAsciiDigit c = true) :
    isDecimalDigit c = true := by
  have hc := isAsciiDigit_iff.1 h
  rw [isDecimalDigit, if_pos (by omega)]
  exact h

theorem isAsciiDigit_of_isDecimalDigit {c : Char} (ha : c.toNat < 128)
    (h : isDecimalDigit c = true) : isAsciiDigit c = true := by
  rw [isDecimalDigit, if_pos ha] at h
  exact h

theorem isBlank_of_ascii {c : Char} (h : isAsciiDigit c = true) : isBlank c = false := by
  have hc := isAsciiDigit_iff.1 h
  simp only [isBlank, Bool.or_eq_false_iff, Bool.and_eq_false_iff, decide_eq_false_iff_not,
    beq_eq_false_iff_ne]
  omega

theorem utf8Size_of_lt {c : Char} (h : c.toNat < 128) : c.utf8Size = 1 := by
  rw [Char.utf8Size_eq_one_iff, UInt32.le_iff_toNat_le]
  exact Nat.le_of_lt_succ h

theorem utf8Size_of_ascii {c : Char} (h : isAsciiDigit c = true) : c.utf8Size = 1 := by
  have hc := isAsciiDigit_iff.1 h
  exact utf8Size_of_lt (by omega)

/-- A row of characters of one sort is taken off whole when none of the sort stands behind it. -/
theorem takeWhile_front {p : Char → Bool} {cs rest : List Char} (h : ∀ c ∈ cs, p c = true)
    (hr : ∀ c, rest.head? = some c → p c = false) :
    (cs ++ rest).takeWhile p = cs ∧ (cs ++ rest).dropWhile p = rest := by
  rw [List.takeWhile_append_of_pos h, List.dropWhile_append_of_pos h]
  cases rest with
  | nil => simp
  | cons c rest => simp [hr c rfl]

/-- Blanks around a text without blanks are trimmed off. -/
theorem trim_around {before cs after : List Char} (hb : ∀ c ∈ before, isBlank c = true)
    (hcs : ∀ c ∈ cs, isBlank c = false) (ha : ∀ c ∈ after, isBlank c = true) :
    trim (before ++ (cs ++ after)) = cs := by
  cases cs with
  | nil =>
      have hall : ∀ c ∈ before ++ after, isBlank c = true := List.forall_mem_append.2 ⟨hb, ha⟩
      have hdrop := (@takeWhile_front _ _ [] hall nofun).2
      rw [List.append_nil] at hdrop
      simp [trim, hdrop]
  | cons c rest =>
      obtain ⟨hc, _⟩ := List.forall_mem_cons.1 hcs
      have hfront : ((c :: rest) ++ after).dropWhile isBlank = (c :: rest) ++ after := by
        rw [List.cons_append, List.dropWhile_cons_of_neg (by simp [hc])]
      have hback : ∀ b, (c :: rest).reverse.head? = some b → isBlank b = false :=
        fun b hb => hcs b (List.mem_reverse.1 (List.mem_of_mem_head? hb))
      rw [trim, List.dropWhile_append_of_pos hb, hfront, List.reverse_append,
        (takeWhile_front (by simpa using ha) hback).2, List.reverse_reverse]

/-! ### Numbers -/

theorem digitsValue_eq (cs : List Char) : digitsValue cs = Nat.ofDigitChars 10 cs 0 := rfl

theorem ascii_natDigits (n : Nat) : ∀ c ∈ natDigits n, isAsciiDigit c = true := by
  intro c hc
  have hd := Nat.isDigit_of_mem_toDigits (by decide) (by decide) hc
  simp only [Char.isDigit, ge_iff_le, Bool.and_eq_true, decide_eq_true_eq,
    UInt32.le_iff_toNat_le] at hd
  exact isAsciiDigit_iff.2 hd

theorem natDigits_ne_nil (n : Nat) : natDigits n ≠ [] := Nat.toDigits_ne_nil

/-- The digits of a number other than zero do not begin with a zero. -/
theorem head?_natDigits {n : Nat} (h : n ≠ 0) : (natDigits n).head? ≠ some '0' := by
  induction n using Nat.strongRecOn with
  | ind n ih =>
      unfold natDigits
      by_cases hlt : n < 10
      · have hall : ∀ m : Fin 10, m.1 ≠ 0 → Nat.digitChar m.1 ≠ '0' := by decide
        rw [Nat.toDigits_of_lt_base hlt]
        simpa using hall ⟨n, hlt⟩ h
      · rw [Nat.toDigits_of_base_le (by decide) (by omega),
          List.head?_append_of_ne_nil _ Nat.toDigits_ne_nil]
        exact ih (n / 10) (by omega) (by omega)

@[simp] theorem digitsValue_natDigits (n : Nat) : digitsValue (natDigits n) = n := by
  rw [digitsValue_eq, natDigits, Nat.ofDigitChars_ten_toDigits]

@[simp] theorem natOfDigits?_natDigits (n : Nat) : natOfDigits? (natDigits n) = some n := by
  rw [natOfDigits?, if_pos ⟨natDigits_ne_nil n, List.all_eq_true.2 (ascii_natDigits n)⟩,
    digitsValue_natDigits]

/-- Digits come without a sign, so reading them takes none off. -/
theorem readInt?_of_ascii {cs : List Char} (h : ∀ c ∈ cs, isAsciiDigit c = true) :
    readInt? cs = (natOfDigits? cs).map Int.ofNat := by
  unfold readInt?
  split
  · exact absurd (h '+' List.mem_cons_self) (by decide)
  · exact absurd (h '-' List.mem_cons_self) (by decide)
  · rfl

@[simp] theorem readInt?_intDigits (i : Int) : readInt? (intDigits i) = some i := by
  unfold intDigits
  split
  · rw [readInt?, natOfDigits?_natDigits, Option.map_some]
    congr 1
    simp only [Int.ofNat_eq_natCast]
    omega
  · rw [readInt?_of_ascii (ascii_natDigits _), natOfDigits?_natDigits, Option.map_some]
    congr 1
    simp only [Int.ofNat_eq_natCast]
    omega

@[simp] theorem readInt32?_intText (i : Int32) : readInt32? (intText i.toInt) = some i := by
  have hmin := Int32.minValue_le_toInt i
  have hmax := Int32.toInt_le i
  simp only [readInt32?, intText, String.toList_ofList, readInt?_intDigits]
  rw [if_pos ⟨hmin, hmax⟩, Int32.ofInt_toInt]

@[simp] theorem readInt64?_intText (i : Int64) : readInt64? (intText i.toInt) = some i := by
  have hmin := Int64.minValue_le_toInt i
  have hmax := Int64.toInt_le i
  simp only [readInt64?, intText, String.toList_ofList, readInt?_intDigits]
  rw [if_pos ⟨hmin, hmax⟩, Int64.ofInt_toInt]

/-- The 64-bit integer that a 32-bit one is. -/
theorem readInt64?_intText_of_int32 (i : Int32) :
    readInt64? (intText i.toInt) = some i.toInt64 := by
  rw [← Int32.toInt_toInt64 i]
  exact readInt64?_intText i.toInt64

end RecordCodec.Text
