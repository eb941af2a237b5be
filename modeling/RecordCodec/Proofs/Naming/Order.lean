import Mathlib.Data.List.Perm.Basic
import RecordCodec.QualifiedName

/-!
The order of names. Qualified names are linearly ordered, so that putting names in order depends
only on which names there are. In one scope a name is determined by its dotted spelling.
-/

namespace RecordCodec

namespace QualifiedName

instance : Std.TransCmp QualifiedName.compare :=
  inferInstanceAs (Std.TransCmp (compareLex (compareOn QualifiedName.scope)
    (compareOn QualifiedName.name)))

instance : Std.LawfulEqCmp QualifiedName.compare where
  eq_of_compare {a b} h := by
    obtain ⟨hscope, hname⟩ := Ordering.then_eq_eq.1 h
    cases a
    cases b
    obtain rfl := Std.LawfulEqCmp.eq_of_compare hscope
    obtain rfl := Std.LawfulEqCmp.eq_of_compare hname
    rfl

theorem eq_of_text {a b : QualifiedName} (hscope : a.scope = b.scope) (htext : a.text = b.text) :
    a = b := by
  obtain ⟨scope, name⟩ := a
  obtain ⟨_, name'⟩ := b
  obtain rfl : scope = _ := hscope
  unfold text at htext
  split at htext
  · exact congrArg _ htext
  · rw [String.append_right_inj] at htext
    exact congrArg _ htext

end QualifiedName

/-- Lists of the same items are sorted alike. -/
theorem mergeSort_eq_of_perm {α : Type} {cmp : α → α → Ordering} [Std.TransCmp cmp]
    [Std.LawfulEqCmp cmp] {xs ys : List α} (h : xs.Perm ys) :
    (xs.mergeSort fun a b => cmp a b != .gt) = ys.mergeSort fun a b => cmp a b != .gt := by
  have hle : ∀ o : Ordering, (o != .gt) = o.isLE := by decide
  simp only [hle]
  have htotal : ∀ o : Ordering, (o.isLE || o.swap.isLE) = true := by decide
  have hsorted : ∀ zs : List α, (zs.mergeSort fun a b => (cmp a b).isLE).Pairwise
      fun a b => (cmp a b).isLE = true := by
    refine List.pairwise_mergeSort (fun a b c => Std.TransCmp.isLE_trans) fun a b => ?_
    rw [show cmp b a = (cmp a b).swap from Std.OrientedCmp.eq_swap]
    exact htotal _
  refine List.Perm.eq_of_pairwise (fun a b _ _ hab hba => ?_) (hsorted xs) (hsorted ys) ?_
  · exact Std.LawfulEqCmp.eq_of_compare (Std.OrientedCmp.isLE_antisymm hab hba)
  · exact (List.mergeSort_perm _ _).trans (h.trans (List.mergeSort_perm _ _).symm)

end RecordCodec
