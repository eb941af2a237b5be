import Mathlib.Data.List.Basic
import Mathlib.Data.List.TakeWhile
import RecordCodec.Decimal
import RecordCodec.Proofs.Text.Digits

/-!
Normal form. A row of digits is either zeros only or a bare row with zeros at both ends;
normalising gives zero for the first and keeps the bare row of the second. So what comes out is
normal, plain when the digits are ASCII digits, and normalising a normal decimal's digits with zeros
put around them gives the decimal back.
-/

namespace RecordCodec.Decimal

open Text

/-- A row that neither begins nor ends with a zero. -/
structure Bare (ds : List Char) : Prop where
  ne_nil : ds ≠ []
  head : ds.head? ≠ some '0'
  last : ds.getLast? ≠ some '0'

/-- A row of ASCII digits that neither begins nor ends with a zero. -/
structure Trimmed (ds : List Char) : Prop where
  ascii : ∀ c ∈ ds, isAsciiDigit c = true
  ne_nil : ds ≠ []
  head : ds.head? ≠ some '0'
  last : ds.getLast? ≠ some '0'

theorem Trimmed.bare {ds : List Char} (h : Trimmed ds) : Bare ds := ⟨h.ne_nil, h.head, h.last⟩

/-- A decimal in normal form, with digits of any script. -/
inductive Normal : Decimal → Prop
  | zero : Normal zero
  | row {negative : Bool} {ds : List Char} {scale : Int} :
      (∀ c ∈ ds, isDecimalDigit c = true) → Bare ds → Normal ⟨negative, ds, scale⟩

/-- A decimal in normal form with ASCII digits. -/
inductive Plain : Decimal → Prop
  | zero : Plain zero
  | row {negative : Bool} {ds : List Char} {scale : Int} : Trimmed ds → Plain ⟨negative, ds, scale⟩

/-! ### Zeros at both ends -/

theorem dropWhile_zeros (n : Nat) {ds : List Char} (h : ds.head? ≠ some '0') :
    (List.replicate n '0' ++ ds).dropWhile (· = '0') = ds := by
  induction n with
  | zero =>
      cases ds with
      | nil => rfl
      | cons d ds =>
          have hd : d ≠ '0' := fun heq => h (by rw [heq]; rfl)
          simp [hd]
  | succ n ih => simpa [List.replicate_succ] using ih

theorem takeWhile_zeros (n : Nat) {ds : List Char} (h : ds.head? ≠ some '0') :
    (List.replicate n '0' ++ ds).takeWhile (· = '0') = List.replicate n '0' := by
  induction n with
  | zero =>
      cases ds with
      | nil => rfl
      | cons d ds =>
          have hd : d ≠ '0' := fun heq => h (by rw [heq]; rfl)
          simp [hd]
  | succ n ih => simpa [List.replicate_succ] using ih

theorem trailingZeros_append {ds : List Char} (n : Nat) (h : ds.getLast? ≠ some '0') :
    trailingZeros (ds ++ List.replicate n '0') = n := by
  rw [trailingZeros, List.reverse_append, List.reverse_replicate, takeWhile_zeros n,
    List.length_replicate]
  rw [List.head?_reverse]
  exact h

theorem head?_append_zeros {ds : List Char} (h : Bare ds) (n : Nat) :
    (ds ++ List.replicate n '0').head? ≠ some '0' := by
  rw [List.head?_append_of_ne_nil ds h.ne_nil]
  exact h.head

/-- Zeros around a bare row only move the point. -/
theorem normalize_row {ds : List Char} (h : Bare ds) (negative : Bool) (a b : Nat)
    (scale : Int) :
    normalize negative (List.replicate a '0' ++ (ds ++ List.replicate b '0')) scale =
      ⟨negative, ds, scale - b⟩ := by
  have hne : ds ++ List.replicate b '0' ≠ [] := by simp [h.ne_nil]
  simp only [normalize]
  rw [dropWhile_zeros a (head?_append_zeros h b), if_neg hne, trailingZeros_append b h.last]
  simp

theorem normalize_zeros (negative : Bool) (a : Nat) (scale : Int) :
    normalize negative (List.replicate a '0') scale = zero := by
  have hdrop : (List.replicate a '0').dropWhile (· = '0') = [] := by
    rw [← List.append_nil (List.replicate a '0'), dropWhile_zeros a (by simp)]
  simp only [normalize]
  rw [hdrop, if_pos rfl]

theorem takeWhile_eq_zeros (cs : List Char) :
    ∃ n, cs.takeWhile (· = '0') = List.replicate n '0' := by
  refine ⟨_, List.eq_replicate_iff.2 ⟨rfl, fun c hc => ?_⟩⟩
  simpa using List.mem_takeWhile_imp hc

theorem head?_dropWhile_zeros (cs : List Char) :
    (cs.dropWhile (· = '0')).head? ≠ some '0' := by
  intro h
  have hzero := List.head?_dropWhile_not (fun c : Char => decide (c = '0')) cs
  rw [h] at hzero
  simp at hzero

/-- Every row is zeros only, or a bare row with zeros around it. -/
theorem bare_cases (cs : List Char) :
    (∃ a, cs = List.replicate a '0') ∨
      ∃ a ds b, Bare ds ∧ cs = List.replicate a '0' ++ (ds ++ List.replicate b '0') := by
  obtain ⟨a, ha⟩ := takeWhile_eq_zeros cs
  have hsplit := List.takeWhile_append_dropWhile (p := (· = '0')) (l := cs)
  have hhead := head?_dropWhile_zeros cs
  rw [ha] at hsplit
  generalize cs.dropWhile (· = '0') = tail at hsplit hhead
  obtain ⟨b, hb⟩ := takeWhile_eq_zeros tail.reverse
  have hback := List.takeWhile_append_dropWhile (p := (· = '0')) (l := tail.reverse)
  have hlast := head?_dropWhile_zeros tail.reverse
  rw [hb] at hback
  generalize tail.reverse.dropWhile (· = '0') = front at hback hlast
  have htail : tail = front.reverse ++ List.replicate b '0' := by
    rw [← List.reverse_reverse tail, ← hback, List.reverse_append, List.reverse_replicate]
  by_cases hfront : front = []
  · -- a row that begins with no zero but holds nothing else is empty
    left
    subst hfront
    cases b with
    | zero =>
        refine ⟨a, ?_⟩
        rw [← hsplit, htail]
        simp
    | succ b =>
        rw [htail] at hhead
        simp [List.replicate_succ] at hhead
  · right
    refine ⟨a, front.reverse, b, ⟨?_, ?_, ?_⟩, ?_⟩
    · simpa using hfront
    · rw [htail, List.head?_append_of_ne_nil _ (by simpa using hfront)] at hhead
      exact hhead
    · rw [List.getLast?_reverse]
      exact hlast
    · rw [← htail, hsplit]

/-- Every row of ASCII digits is zeros only, or a trimmed row with zeros around it. -/
theorem row_cases {cs : List Char} (h : ∀ c ∈ cs, isAsciiDigit c = true) :
    (∃ a, cs = List.replicate a '0') ∨
      ∃ a ds b, Trimmed ds ∧ cs = List.replicate a '0' ++ (ds ++ List.replicate b '0') := by
  refine (bare_cases cs).imp_right ?_
  rintro ⟨a, ds, b, hds, rfl⟩
  refine ⟨a, ds, b, ⟨fun c hc => h c ?_, hds.ne_nil, hds.head, hds.last⟩, rfl⟩
  simp [hc]

/-! ### Normal decimals -/

theorem normal_normalize {cs : List Char} (h : ∀ c ∈ cs, isDecimalDigit c = true)
    (negative : Bool) (scale : Int) : Normal (normalize negative cs scale) := by
  rcases bare_cases cs with ⟨a, rfl⟩ | ⟨a, ds, b, hds, rfl⟩
  · rw [normalize_zeros]
    exact .zero
  · rw [normalize_row hds]
    refine .row (fun c hc => h c ?_) hds
    simp [hc]

theorem Plain.normal {d : Decimal} (h : Plain d) : Normal d := by
  cases h with
  | zero => exact .zero
  | row hds => exact .row (fun c hc => isDecimalDigit_of_ascii (hds.ascii c hc)) hds.bare

theorem isZero_bare {negative : Bool} {ds : List Char} {scale : Int} (h : Bare ds) :
    isZero ⟨negative, ds, scale⟩ = false := by
  refine decide_eq_false ?_
  rintro rfl
  exact h.head rfl

theorem compareMagnitude_eq_iff {a b : Decimal} (ha : Normal a) (hb : Normal b) :
    a.compareMagnitude b = .eq ↔ a.digits = b.digits ∧ a.scale = b.scale := by
  have hzero : zero.isZero = true := rfl
  cases ha with
  | zero =>
      cases hb with
      | zero => simp [compareMagnitude, hzero]
      | row _ hds =>
          simp only [compareMagnitude, hzero, isZero_bare hds]
          exact ⟨nofun, fun h => absurd (congrArg List.head? h.1.symm) hds.head⟩
  | row _ hds =>
      cases hb with
      | zero =>
          simp only [compareMagnitude, hzero, isZero_bare hds]
          exact ⟨nofun, fun h => absurd (congrArg List.head? h.1) hds.head⟩
      | row _ hds' =>
          simp only [compareMagnitude, isZero_bare hds, isZero_bare hds', Ordering.then_eq_eq,
            Std.LawfulEqOrd.compare_eq_iff_eq]
          constructor
          · rintro ⟨hplace, rfl⟩
            exact ⟨rfl, by omega⟩
          · rintro ⟨rfl, rfl⟩
            exact ⟨rfl, rfl⟩

/-- Normal decimals compare as equal only if they are. -/
theorem compare_eq_iff {a b : Decimal} (ha : Normal a) (hb : Normal b) :
    a.compare b = .eq ↔ a = b := by
  have hab := compareMagnitude_eq_iff ha hb
  have hba := compareMagnitude_eq_iff hb ha
  obtain ⟨m, xs, s⟩ := a
  obtain ⟨n, ys, t⟩ := b
  cases m <;> cases n <;> simp_all [compare, eq_comm]

/-! ### Plain decimals -/

theorem plain_normalize {cs : List Char} (h : ∀ c ∈ cs, isAsciiDigit c = true) (negative : Bool)
    (scale : Int) : Plain (normalize negative cs scale) := by
  rcases row_cases h with ⟨a, rfl⟩ | ⟨a, ds, b, hds, rfl⟩
  · rw [normalize_zeros]
    exact .zero
  · rw [normalize_row hds.bare]
    exact .row hds

theorem plain_ofInt (i : Int) : Plain (ofInt i) := plain_normalize (ascii_natDigits _) _ _

theorem byteLength_of_ascii {cs : List Char} (h : ∀ c ∈ cs, isAsciiDigit c = true) :
    byteLength cs = cs.length := by
  induction cs with
  | nil => rfl
  | cons c cs ih =>
      obtain ⟨hc, hcs⟩ := List.forall_mem_cons.1 h
      rw [byteLength, List.foldr_cons, ← byteLength, ih hcs, utf8Size_of_ascii hc,
        List.length_cons, Nat.add_comm]

end RecordCodec.Decimal
