import Mathlib.Data.List.Nodup
import Mathlib.Data.List.Perm.Subperm
import Mathlib.Order.Monotone.Basic
import RecordCodec.Naming.UsedNames

/-!
Claimed identifiers are free. Every marker makes the lower-case form of an identifier longer, so
the identifiers tried for one candidate have different lower-case forms, and of more such forms
than there are names in use one is free.
-/

namespace RecordCodec

/-! ### Lengths of lower-case forms -/

namespace Text

theorem length_lowerFrom_append (before cs ds : List Char) :
    ∃ between, (lowerFrom before (cs ++ ds)).length =
      (lowerFrom before cs).length + (lowerFrom between ds).length := by
  induction cs generalizing before with
  | nil => exact ⟨before, by simp [lowerFrom]⟩
  | cons c rest ih =>
      obtain ⟨between, hrest⟩ := ih (c :: before)
      refine ⟨between, ?_⟩
      simp only [List.cons_append, lowerFrom, List.length_append, hrest]
      -- a capital sigma has a lower-case form of one character whatever comes after it
      have hfirst : ∀ after : List Char,
          (if c = 'Σ' then [if leadsToCased before && !leadsToCased after then 'ς' else 'σ']
            else lowerChar c).length = if c = 'Σ' then 1 else (lowerChar c).length := by
        intro after
        split <;> rfl
      rw [hfirst, hfirst]
      omega

theorem lowerFrom_ne_nil (before : List Char) (c : Char) (rest : List Char) :
    lowerFrom before (c :: rest) ≠ [] := by
  intro h
  obtain ⟨hfirst, _⟩ := List.append_eq_nil_iff.1 h
  split at hfirst
  · cases hfirst
  · exact lowerChar_ne_nil c hfirst

theorem length_lower_lt_push (s : String) (c : Char) :
    (lower s).length < (lower (s.push c)).length := by
  obtain ⟨between, h⟩ := length_lowerFrom_append [] s.toList [c]
  have hlast := List.length_pos_iff.2 (lowerFrom_ne_nil between c [])
  simp only [lower, String.toList_push, String.length_ofList]
  omega

end Text

namespace Naming.UsedNames

/-! ### Tried identifiers -/

/-- A candidate with so many markers. -/
def marked (marker : Char) (candidate : String) : Nat → String
  | 0 => candidate
  | n + 1 => (marked marker candidate n).push marker

theorem marked_push (marker : Char) (candidate : String) (n : Nat) :
    marked marker (candidate.push marker) n = marked marker candidate (n + 1) := by
  induction n with
  | zero => rfl
  | succ n ih => exact congrArg (·.push marker) ih

theorem strictMono_length_lower_marked (marker : Char) (candidate : String) :
    StrictMono fun n => (Text.lower (marked marker candidate n)).length :=
  strictMono_nat_of_lt_succ fun _ => Text.length_lower_lt_push _ _

theorem marked_succ_ne_empty (marker : Char) (candidate : String) (n : Nat) :
    marked marker candidate (n + 1) ≠ "" := by
  intro h
  have hlength := congrArg String.length h
  rw [marked, String.length_push] at hlength
  cases hlength

variable {used : UsedNames} {marker : Char}

/-- The search ends at the candidate with some number of markers. What has fewer was empty or in
use, and so may be what it ends at only when no attempt is left. -/
theorem firstFree_eq_marked (used : UsedNames) (marker : Char) (attempts : Nat)
    (candidate : String) :
    ∃ n ≤ attempts, used.firstFree marker attempts candidate = marked marker candidate n ∧
      (∀ m < n, marked marker candidate m = "" ∨
        used.contains (marked marker candidate m) = true) ∧
      (n < attempts → marked marker candidate n ≠ "" ∧
        ¬used.contains (marked marker candidate n) = true) := by
  induction attempts generalizing candidate with
  | zero => exact ⟨0, Nat.le_refl 0, rfl, nofun, nofun⟩
  | succ attempts ih =>
      unfold firstFree
      split
      · rename_i htried
        obtain ⟨n, hn, hends, hbefore, hfree⟩ := ih (candidate.push marker)
        rw [marked_push] at hends hfree
        refine ⟨n + 1, Nat.succ_le_succ hn, hends, fun m hm => ?_,
          fun h => hfree (Nat.lt_of_succ_lt_succ h)⟩
        cases m with
        | zero => exact htried
        | succ m => exact marked_push marker candidate m ▸ hbefore m (Nat.lt_of_succ_lt_succ hm)
      · rename_i hfree
        exact ⟨0, Nat.zero_le _, rfl, nofun, fun _ => not_or.1 hfree⟩

/-- With more attempts than there are names in use the search ends at a free identifier. -/
theorem not_contains_firstFree {attempts : Nat} (h : used.size < attempts)
    (candidate : String) :
    ¬used.contains (used.firstFree marker attempts candidate) = true := by
  intro hused
  obtain ⟨n, hn, hends, hbefore, hfree⟩ := firstFree_eq_marked used marker attempts candidate
  rw [hends] at hused
  obtain rfl : n = attempts :=
    Nat.le_antisymm hn (Nat.not_lt.1 fun hlt => (hfree hlt).2 hused)
  let forms := (List.range n).map fun i => Text.lower (marked marker candidate (i + 1))
  have hforms : forms.Nodup := by
    refine List.nodup_range.map fun i j heq => ?_
    have hlength : (Text.lower (marked marker candidate (i + 1))).length =
        (Text.lower (marked marker candidate (j + 1))).length := congrArg String.length heq
    exact Nat.succ.inj ((strictMono_length_lower_marked marker candidate).injective hlength)
  have hheld : forms ⊆ used.folded := by
    intro form hform
    obtain ⟨i, hi, rfl⟩ := List.mem_map.1 hform
    obtain hlt | rfl := Nat.lt_or_eq_of_le (Nat.succ_le_of_lt (List.mem_range.1 hi))
    · obtain hempty | hcontains := hbefore (i + 1) hlt
      · exact absurd hempty (marked_succ_ne_empty marker candidate i)
      · simpa [contains] using hcontains
    · simpa [contains] using hused
  have hlength := (hforms.subperm hheld).length_le
  rw [List.length_map, List.length_range] at hlength
  exact absurd hlength (Nat.not_le.2 h)

/-! ### Claiming -/

theorem contains_iff {identifier : String} :
    used.contains identifier = true ↔ Text.lower identifier ∈ used.folded := by
  simp [contains]

theorem contains_insert_iff {identifier other : String} :
    (used.insert identifier).contains other = true ↔
      used.contains other = true ∨ Text.lower other = Text.lower identifier := by
  unfold insert
  split
  · rename_i hcontains
    rw [or_iff_left_of_imp]
    intro heq
    rwa [contains_iff, heq, ← contains_iff]
  · simp [contains]

/-- What is known of a claimed identifier: it was free and is the only one that is taken by the
claim. -/
structure Claimed (used : UsedNames) (identifier : String) (after : UsedNames) : Prop where
  free : ¬used.contains identifier = true
  contains_iff {other : String} : after.contains other = true ↔
    used.contains other = true ∨ Text.lower other = Text.lower identifier

theorem claimed_of_claim {candidate identifier : String} {after : UsedNames}
    (h : used.claim candidate marker = (identifier, after)) : Claimed used identifier after := by
  cases h
  exact ⟨not_contains_firstFree (Nat.lt_succ_self _) candidate, contains_insert_iff⟩

end Naming.UsedNames
end RecordCodec
