import RecordCodec.Decimal

/-!
The order of decimals is a total preorder on all of them, in normal form or not: magnitudes are
ordered by what leads them, and the sign turns that order around.
-/

namespace RecordCodec.Decimal

/-- Orders by the place of the leading digit, then digit by digit. -/
def compareLeading : Decimal → Decimal → Ordering :=
  compareLex (compareOn fun d => (byteLength d.digits : Int) - d.scale)
    (compareOn fun d => d.digits)

theorem compareMagnitude_eq_leading (a b : Decimal) :
    a.compareMagnitude b =
      (Ord.compare (!a.isZero) (!b.isZero)).then
        (if a.isZero then .eq else a.compareLeading b) := by
  unfold compareMagnitude
  cases ha : a.isZero with
  | true => cases hb : b.isZero <;> rfl
  | false => cases hb : b.isZero <;> rfl

instance : Std.TransCmp compareLeading := by
  unfold compareLeading
  infer_instance

instance : Std.OrientedCmp compareMagnitude where
  eq_swap := by
    intro a b
    rw [compareMagnitude_eq_leading, compareMagnitude_eq_leading b a, Ordering.swap_then,
      ← Std.OrientedCmp.eq_swap]
    cases ha : a.isZero with
    | true => cases hb : b.isZero <;> rfl
    | false =>
        cases hb : b.isZero with
        | true => rfl
        | false =>
            rw [if_neg (by decide), if_neg (by decide), ← Std.OrientedCmp.eq_swap]

instance : Std.TransCmp compareMagnitude where
  isLE_trans := by
    intro a b c hab hbc
    have hgt : Ord.compare true false = .gt := rfl
    have hlt : Ord.compare false true = .lt := rfl
    rw [compareMagnitude_eq_leading] at hab hbc ⊢
    cases ha : a.isZero with
    | true => cases hc : c.isZero <;> simp [hlt]
    | false =>
        cases hb : b.isZero with
        | true => simp [ha, hb, hgt] at hab
        | false =>
            cases hc : c.isZero with
            | true => simp [hb, hc, hgt] at hbc
            | false =>
                simp only [ha, hb, hc, Bool.not_false, Std.ReflCmp.compare_self,
                  Ordering.eq_then, Bool.false_eq_true, if_false] at hab hbc ⊢
                exact Std.TransCmp.isLE_trans hab hbc

/-! ### Signs -/

theorem compare_of_signs (a b : Decimal) :
    a.compare b = (Ord.compare b.negative a.negative).then
      (if a.negative then b.compareMagnitude a else a.compareMagnitude b) := by
  unfold compare
  cases a.negative with
  | true => cases b.negative <;> rfl
  | false => cases b.negative <;> rfl

instance : Std.OrientedCmp compare where
  eq_swap := by
    intro a b
    rw [compare_of_signs, compare_of_signs b a, Ordering.swap_then, ← Std.OrientedCmp.eq_swap]
    cases ha : a.negative with
    | true =>
        cases hb : b.negative with
        | true =>
            rw [if_pos rfl, if_pos rfl, ← Std.OrientedCmp.eq_swap]
        | false => rfl
    | false =>
        cases hb : b.negative with
        | true => rfl
        | false =>
            rw [if_neg (by decide), if_neg (by decide), ← Std.OrientedCmp.eq_swap]

instance : Std.TransCmp compare where
  isLE_trans := by
    intro a b c hab hbc
    have hgt : Ord.compare true false = .gt := rfl
    have hlt : Ord.compare false true = .lt := rfl
    rw [compare_of_signs] at hab hbc ⊢
    cases ha : a.negative with
    | true =>
        cases hc : c.negative with
        | false => simp [hlt]
        | true =>
            cases hb : b.negative with
            | false => simp [hb, hc, hgt] at hbc
            | true =>
                simp only [ha, hb, hc, Std.ReflCmp.compare_self, Ordering.eq_then,
                  if_true] at hab hbc ⊢
                exact Std.TransCmp.isLE_trans hbc hab
    | false =>
        cases hb : b.negative with
        | true => simp [ha, hb, hgt] at hab
        | false =>
            cases hc : c.negative with
            | true => simp [hb, hc, hgt] at hbc
            | false =>
                simp only [ha, hb, hc, Std.ReflCmp.compare_self, Ordering.eq_then,
                  Bool.false_eq_true, if_false] at hab hbc ⊢
                exact Std.TransCmp.isLE_trans hab hbc

end RecordCodec.Decimal
