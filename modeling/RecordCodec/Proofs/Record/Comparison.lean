import Mathlib.Data.List.Forall2
import Mathlib.Data.List.Sort
import RecordCodec.Proofs.Lookup
import RecordCodec.Record.Methods

/-!
Comparisons that fit together. Of three things `x`, `y` and `z` the comparisons are coherent when
`y` with `x` mirrors `x` with `y`, and when a descent nowhere on the way from `x` over `y` to `z`
makes the direct comparison what the two on the way come to. This is antisymmetry and transitivity
in the form that one comparison after another keeps, so it passes from the parts of lists, maps
and records to the whole.
-/

namespace RecordCodec

/-! ### Coherence -/

/-- The comparisons of `x` with `y`, `y` with `x`, `y` with `z` and `x` with `z` fit together. -/
structure Coherent (xy yx yz xz : Comparison) : Prop where
  mirrored : ∃ o : Ordering, xy = .ok o ∧ yx = .ok o.swap
  chained : ∀ o p : Ordering, xy = .ok o → yz = .ok p → o ≠ .gt → p ≠ .gt → xz = .ok (o.then p)

namespace Comparison

@[simp] theorem eq_thenBy (c : Comparison) : thenBy (.ok .eq) c = c := rfl

end Comparison

section

variable {α : Type} {cmp : α → α → Ordering}

/-- A total order that never fails is coherent. -/
theorem coherent_of_cmp [Std.TransCmp cmp] (x y z : α) :
    Coherent (.ok (cmp x y)) (.ok (cmp y x)) (.ok (cmp y z)) (.ok (cmp x z)) where
  mirrored := ⟨cmp x y, rfl, congrArg Except.ok Std.OrientedCmp.eq_swap⟩
  chained := by
    rintro o p ho hp hog hpg
    obtain rfl := Except.ok.inj ho
    obtain rfl := Except.ok.inj hp
    congr 1
    cases hxy : cmp x y with
    | lt =>
        cases hyz : cmp y z with
        | lt => exact Std.TransCmp.lt_trans hxy hyz
        | eq => exact Std.TransCmp.lt_of_lt_of_eq hxy hyz
        | gt => exact absurd hyz hpg
    | eq => exact Std.TransCmp.congr_left hxy
    | gt => exact absurd hxy hog

end

namespace Coherent

variable {a b c d a' b' c' d' : Comparison}

/-- What is compared coherently is compared without failing. -/
theorem total (h : Coherent a b c d) : ∃ o : Ordering, a = .ok o := by
  obtain ⟨o, ho, _⟩ := h.mirrored
  exact ⟨o, ho⟩

/-- What decides first and what decides then are coherent together; the second need be coherent
only where the first decides nothing. -/
theorem thenBy (h : Coherent a b c d)
    (hm : a = .ok .eq → ∃ o : Ordering, a' = .ok o ∧ b' = .ok o.swap)
    (hc : a = .ok .eq → c = .ok .eq → ∀ o p : Ordering, a' = .ok o → c' = .ok p → o ≠ .gt →
      p ≠ .gt → d' = .ok (o.then p)) :
    Coherent (a.thenBy a') (b.thenBy b') (c.thenBy c') (d.thenBy d') := by
  obtain ⟨q, rfl, rfl⟩ := h.mirrored
  refine ⟨?_, ?_⟩
  · cases q with
    | lt => exact ⟨.lt, rfl, rfl⟩
    | eq => exact hm rfl
    | gt => exact ⟨.gt, rfl, rfl⟩
  · intro o p ho hp hog hpg
    cases c with
    | error e => cases hp
    | ok r =>
        have hqg : q ≠ .gt := by
          rintro rfl
          exact hog (Except.ok.inj ho).symm
        have hrg : r ≠ .gt := by
          rintro rfl
          exact hpg (Except.ok.inj hp).symm
        have hd := h.chained q r rfl rfl hqg hrg
        subst hd
        cases q with
        | gt => exact absurd rfl hqg
        | lt =>
            obtain rfl := Except.ok.inj ho
            rfl
        | eq =>
            rw [Comparison.eq_thenBy] at ho
            cases r with
            | gt => exact absurd rfl hrg
            | lt =>
                obtain rfl := Except.ok.inj hp
                cases o with
                | gt => exact absurd rfl hog
                | _ => rfl
            | eq => exact hc rfl rfl o p ho hp hog hpg

theorem thenBy' (h : Coherent a b c d) (h' : Coherent a' b' c' d') :
    Coherent (a.thenBy a') (b.thenBy b') (c.thenBy c') (d.thenBy d') :=
  h.thenBy (fun _ => h'.mirrored) (fun _ _ => h'.chained)

end Coherent

/-! ### Nulls -/

section

variable {methods : MethodTable} {plan : Plan QualifiedName}

theorem compareValue_nulls : compareValue methods .null plan .null = .ok .eq := rfl

theorem compareValue_null {y : Value} (h : y ≠ .null) :
    compareValue methods .null plan y = .ok .lt := by
  have hnull : y.isNull = false := Bool.eq_false_iff.2 fun hn => h (Value.isNull_iff.1 hn)
  show Except.ok (if y.isNull then Ordering.eq else .lt) = .ok .lt
  rw [hnull]
  rfl

theorem compareValue_of_null {x : Value} (h : x ≠ .null) :
    compareValue methods x plan .null = .ok .gt := by
  cases x with
  | null => exact absurd rfl h
  | _ => cases plan <;> rfl

/-- Null comes first, so only values that are not null need to be compared with care. -/
theorem coherent_nullsFirst {P : Value → Prop} {x y z : Value} (hy : P y) (hz : P z)
    (h : x ≠ .null → y ≠ .null → ∀ w, P w → w ≠ .null →
      Coherent (compareValue methods x plan y) (compareValue methods y plan x)
        (compareValue methods y plan w) (compareValue methods x plan w)) :
    Coherent (compareValue methods x plan y) (compareValue methods y plan x)
      (compareValue methods y plan z) (compareValue methods x plan z) := by
  by_cases hxn : x = .null
  · subst hxn
    by_cases hyn : y = .null
    · subst hyn
      refine ⟨⟨.eq, compareValue_nulls, compareValue_nulls⟩, ?_⟩
      intro o p ho hp _ _
      obtain rfl := Except.ok.inj ho
      exact hp
    · refine ⟨⟨.lt, compareValue_null hyn, compareValue_of_null hyn⟩, ?_⟩
      intro o p ho hp _ hpg
      rw [compareValue_null hyn] at ho
      obtain rfl := Except.ok.inj ho
      by_cases hzn : z = .null
      · subst hzn
        rw [compareValue_of_null hyn] at hp
        exact absurd (Except.ok.inj hp).symm hpg
      · exact compareValue_null hzn
  · by_cases hyn : y = .null
    · subst hyn
      refine ⟨⟨.gt, compareValue_of_null hxn, compareValue_null hxn⟩, ?_⟩
      intro o p ho _ hog _
      rw [compareValue_of_null hxn] at ho
      exact absurd (Except.ok.inj ho).symm hog
    · by_cases hzn : z = .null
      · subst hzn
        refine ⟨(h hxn hyn y hy hyn).mirrored, ?_⟩
        intro o p _ hp _ hpg
        rw [compareValue_of_null hyn] at hp
        exact absurd (Except.ok.inj hp).symm hpg
      · exact h hxn hyn z hz hzn

end

/-! ### Lists -/

/-- Lists are compared coherently when their items are. -/
theorem coherent_compareItems {methods : MethodTable} {item : Plan QualifiedName}
    {P : Value → Prop} {xs ys zs : List Value}
    (ih : ∀ x ∈ xs, ∀ y z : Value, P y → P z →
      Coherent (compareValue methods x item y) (compareValue methods y item x)
        (compareValue methods y item z) (compareValue methods x item z))
    (hy : ∀ y ∈ ys, P y) (hz : ∀ z ∈ zs, P z) :
    Coherent (compareItems item (itemComparers methods xs) ys)
      (compareItems item (itemComparers methods ys) xs)
      (compareItems item (itemComparers methods ys) zs)
      (compareItems item (itemComparers methods xs) zs) := by
  induction xs generalizing ys zs with
  | nil =>
      cases ys with
      | nil =>
          refine ⟨⟨.eq, rfl, rfl⟩, ?_⟩
          intro o p ho hp _ _
          obtain rfl := Except.ok.inj ho
          exact hp
      | cons y ys =>
          refine ⟨⟨.lt, rfl, rfl⟩, ?_⟩
          intro o p ho hp _ hpg
          obtain rfl := Except.ok.inj ho
          cases zs with
          | nil => exact absurd (Except.ok.inj hp).symm hpg
          | cons z zs => rfl
  | cons x xs ihxs =>
      cases ys with
      | nil =>
          refine ⟨⟨.gt, rfl, rfl⟩, ?_⟩
          intro o p ho _ hog _
          exact absurd (Except.ok.inj ho).symm hog
      | cons y ys =>
          obtain ⟨hx, hxs⟩ := List.forall_mem_cons.1 ih
          obtain ⟨hy0, hys⟩ := List.forall_mem_cons.1 hy
          cases zs with
          | nil =>
              have hrest := ihxs hxs hys hys
              refine ⟨((hx y y hy0 hy0).thenBy' hrest).mirrored, ?_⟩
              intro o p _ hp _ hpg
              exact absurd (Except.ok.inj hp).symm hpg
          | cons z zs =>
              obtain ⟨hz0, hzs⟩ := List.forall_mem_cons.1 hz
              exact (hx y z hy0 hz0).thenBy' (ihxs hxs hys hzs)

/-! ### Entries -/

/-- The value under a key, null if there is none. -/
def Entries.getD (key : String) (entries : List (String × Value)) : Value :=
  (Entries.get? key entries).getD .null

theorem comparer_getD (methods : MethodTable) (key : String) (entries : List (String × Value)) :
    (Entries.get? key (entryComparers methods entries)).getD compareNull =
      compareValue methods (Entries.getD key entries) := by
  rw [entryComparers_eq_map, Entries.get?_map (compareValue methods) key, Entries.getD]
  cases Entries.get? key entries with
  | none => rfl
  | some v => rfl

section

variable {methods : MethodTable} {xs ys zs : List (String × Value)}

theorem compareMethods_cons (m : FieldMethod) (rest : List FieldMethod) :
    compareMethods (entryComparers methods xs) ys (m :: rest) =
      (compareValue methods (Entries.getD m.field xs) m.comparator
        (Entries.getD m.field ys)).thenBy
          (compareMethods (entryComparers methods xs) ys rest) := by
  rw [compareMethods, comparer_getD]
  rfl

/-- Entries are compared coherently by methods for which their values are. -/
theorem coherent_compareMethods {ms : List FieldMethod}
    (h : ∀ m ∈ ms, Coherent
      (compareValue methods (Entries.getD m.field xs) m.comparator (Entries.getD m.field ys))
      (compareValue methods (Entries.getD m.field ys) m.comparator (Entries.getD m.field xs))
      (compareValue methods (Entries.getD m.field ys) m.comparator (Entries.getD m.field zs))
      (compareValue methods (Entries.getD m.field xs) m.comparator (Entries.getD m.field zs))) :
    Coherent (compareMethods (entryComparers methods xs) ys ms)
      (compareMethods (entryComparers methods ys) xs ms)
      (compareMethods (entryComparers methods ys) zs ms)
      (compareMethods (entryComparers methods xs) zs ms) := by
  induction ms with
  | nil =>
      refine ⟨⟨.eq, rfl, rfl⟩, ?_⟩
      intro o p ho hp _ _
      obtain rfl := Except.ok.inj ho
      exact hp
  | cons m rest ih =>
      obtain ⟨hm, hrest⟩ := List.forall_mem_cons.1 h
      rw [compareMethods_cons, compareMethods_cons, compareMethods_cons, compareMethods_cons]
      exact hm.thenBy' (ih hrest)

/-- The entries of a map are compared as fields of one plan. -/
def entryMethod (value : Plan QualifiedName) (key : String) : FieldMethod :=
  ⟨key, "", value, value⟩

theorem compareKeys_eq_methods (value : Plan QualifiedName) (cs : List (String × Comparer))
    (ys : List (String × Value)) (ks : List String) :
    compareKeys value cs ys ks = compareMethods cs ys (ks.map (entryMethod value)) := by
  induction ks with
  | nil => rfl
  | cons k rest ih =>
      rw [compareKeys, List.map_cons, compareMethods, ih]
      rfl

/-! ### Keys that neither map has -/

theorem getD_of_not_mem {key : String} (h : key ∉ Entries.keys xs) :
    Entries.getD key xs = .null := by
  rw [Entries.getD, Entries.get?_eq_none_iff.2 h]
  rfl

theorem compareKeys_filter (value : Plan QualifiedName) {p : String → Bool} {ks : List String}
    (h : ∀ k ∈ ks, p k = false → k ∉ Entries.keys xs ∧ k ∉ Entries.keys ys) :
    compareKeys value (entryComparers methods xs) ys (ks.filter p) =
      compareKeys value (entryComparers methods xs) ys ks := by
  induction ks with
  | nil => rfl
  | cons k rest ih =>
      obtain ⟨hk, hrest⟩ := List.forall_mem_cons.1 h
      have hrest := ih hrest
      cases hp : p k with
      | true =>
          rw [List.filter_cons_of_pos hp, compareKeys, compareKeys, hrest]
      | false =>
          obtain ⟨hx, hy⟩ := hk hp
          rw [List.filter_cons_of_neg (by simp [hp]), hrest, compareKeys_eq_methods value _ ys
            (k :: rest), List.map_cons, compareMethods_cons, ← compareKeys_eq_methods, entryMethod,
            getD_of_not_mem hx, getD_of_not_mem hy, compareValue_nulls,
            Comparison.eq_thenBy]

/-- Maps may be compared over any keys in order among which theirs are. -/
theorem compareKeys_unionKeys (value : Plan QualifiedName) {ks : List String}
    (hs : ks.Pairwise (· < ·)) (hx : ∀ k ∈ Entries.keys xs, k ∈ ks)
    (hy : ∀ k ∈ Entries.keys ys, k ∈ ks) :
    compareKeys value (entryComparers methods xs) ys (Entries.unionKeys xs ys) =
      compareKeys value (entryComparers methods xs) ys ks := by
  have hfilter : Entries.unionKeys xs ys =
      ks.filter (fun k => decide (k ∈ Entries.unionKeys xs ys)) := by
    refine List.Pairwise.eq_of_mem_iff (Entries.pairwise_unionKeys xs ys)
      (hs.sublist List.filter_sublist) fun k => ?_
    rw [List.mem_filter, decide_eq_true_eq, and_iff_right_of_imp]
    intro hk
    rcases Entries.mem_unionKeys.1 hk with hk | hk
    · exact hx k hk
    · exact hy k hk
  rw [hfilter, compareKeys_filter]
  intro k _ hk
  rw [decide_eq_false_iff_not, Entries.mem_unionKeys, not_or] at hk
  exact hk

end

/-! ### Comparisons that find equality -/

theorem Comparison.thenBy_eq_iff {first second : Comparison} :
    first.thenBy second = .ok .eq ↔ first = .ok .eq ∧ second = .ok .eq := by
  rcases first with e | o
  · exact ⟨nofun, nofun⟩
  · cases o with
    | eq => exact ⟨fun h => ⟨rfl, h⟩, And.right⟩
    | _ => exact ⟨nofun, nofun⟩

section

variable {methods : MethodTable}

theorem compareItems_eq_iff {item : Plan QualifiedName} {xs ys : List Value} :
    compareItems item (itemComparers methods xs) ys = .ok .eq ↔
      List.Forall₂ (fun x y => compareValue methods x item y = .ok .eq) xs ys := by
  induction xs generalizing ys with
  | nil =>
      cases ys with
      | nil => exact ⟨fun _ => .nil, fun _ => rfl⟩
      | cons y ys => exact ⟨nofun, nofun⟩
  | cons x xs ih =>
      cases ys with
      | nil => exact ⟨nofun, nofun⟩
      | cons y ys =>
          rw [List.forall₂_cons, ← ih]
          exact Comparison.thenBy_eq_iff

theorem compareMethods_eq_iff {ms : List FieldMethod} {xs ys : List (String × Value)} :
    compareMethods (entryComparers methods xs) ys ms = .ok .eq ↔
      ∀ m ∈ ms, compareValue methods (Entries.getD m.field xs) m.comparator
        (Entries.getD m.field ys) = .ok .eq := by
  induction ms with
  | nil => exact ⟨fun _ _ hm => absurd hm List.not_mem_nil, fun _ => rfl⟩
  | cons m ms ih =>
      rw [List.forall_mem_cons, ← ih, compareMethods_cons, Comparison.thenBy_eq_iff]

theorem compareValue_map_eq_iff {value : Plan QualifiedName} {xs ys : List (String × Value)} :
    compareValue methods (.map xs) (.map value) (.map ys) = .ok .eq ↔
      (∀ key, compareValue methods (Entries.getD key xs) value (Entries.getD key ys) = .ok .eq) ∧
        xs.length = ys.length := by
  rw [compareValue, Comparison.thenBy_eq_iff, compareKeys_eq_methods, compareMethods_eq_iff,
    List.forall_mem_map]
  refine and_congr ?_ ?_
  · refine ⟨fun h key => ?_, fun h key _ => h key⟩
    by_cases hkey : key ∈ Entries.unionKeys xs ys
    · exact h key hkey
    · rw [Entries.mem_unionKeys, not_or] at hkey
      rw [getD_of_not_mem hkey.1, getD_of_not_mem hkey.2]
      exact compareValue_nulls
  · simp

end

end RecordCodec
