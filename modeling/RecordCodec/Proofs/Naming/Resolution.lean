import Mathlib.Order.Bounds.Defs
import RecordCodec.Naming.Style
import RecordCodec.Proofs.Naming.Fresh

/-!
Resolving names. Each name gets its candidate with the fewest markers that set it apart from the
names in use and from the identifiers handed out before it. So the identifiers differ in more than
case from each other and from what is reserved, and resolving them again changes none of them.
-/

namespace RecordCodec.Naming.UsedNames

/-- Nonempty, and in more than case different from the names in use and from the identifiers handed
out earlier. -/
structure Free (used : UsedNames) (earlier : List String) (identifier : String) : Prop where
  ne_empty : identifier ≠ ""
  unused : ¬used.contains identifier = true
  differs : ∀ other ∈ earlier, Text.lower identifier ≠ Text.lower other

section

variable {used : UsedNames} {earlier : List String} {identifier : String}

theorem free_nil_iff :
    Free used [] identifier ↔ ¬(identifier = "" ∨ used.contains identifier = true) := by
  rw [not_or]
  exact ⟨fun h => ⟨h.ne_empty, h.unused⟩, fun h => ⟨h.1, h.2, nofun⟩⟩

/-- An identifier may be told apart as one in use or as one handed out earlier. -/
theorem free_insert_iff {first : String} :
    Free (used.insert first) earlier identifier ↔ Free used (first :: earlier) identifier := by
  have hunused : ¬(used.insert first).contains identifier = true ↔
      ¬used.contains identifier = true ∧ Text.lower identifier ≠ Text.lower first := by
    rw [contains_insert_iff, not_or]
  constructor
  · intro h
    obtain ⟨hused, hfirst⟩ := hunused.1 h.unused
    exact ⟨h.ne_empty, hused, List.forall_mem_cons.2 ⟨hfirst, h.differs⟩⟩
  · intro h
    obtain ⟨hfirst, hearlier⟩ := List.forall_mem_cons.1 h.differs
    exact ⟨h.ne_empty, hunused.2 ⟨h.unused, hfirst⟩, hearlier⟩

end

theorem size_insert_le (used : UsedNames) (identifier : String) :
    (used.insert identifier).size ≤ used.size + 1 := by
  unfold insert
  split
  · exact Nat.le_succ _
  · simp [size]

theorem contains_foldl_insert_iff (used : UsedNames) (names : List String) {identifier : String} :
    (names.foldl insert used).contains identifier = true ↔
      used.contains identifier = true ∨
        ∃ name ∈ names, Text.lower identifier = Text.lower name := by
  induction names generalizing used with
  | nil => simp
  | cons name rest ih => simp [ih, contains_insert_iff, or_assoc]

theorem contains_reserving_iff (reserved : List String) {identifier : String} :
    (reserving reserved).contains identifier = true ↔
      ∃ name ∈ reserved, Text.lower identifier = Text.lower name := by
  rw [reserving, contains_foldl_insert_iff, or_iff_right]
  simp [empty, contains]

/-! ### One identifier -/

/-- The claimed identifier is the candidate with the fewest markers that make it free, found in as
many steps. -/
theorem isLeast_claim (used : UsedNames) (candidate : String) (marker : Char) :
    ∃ n ≤ used.size + 1, (used.claim candidate marker).1 = marked marker candidate n ∧
      IsLeast {k | Free used [] (marked marker candidate k)} n := by
  have hunused : ¬used.contains (used.firstFree marker (used.size + 1) candidate) = true :=
    not_contains_firstFree (Nat.lt_succ_self used.size) candidate
  obtain ⟨n, hn, hends, hbefore, hfree⟩ :=
    firstFree_eq_marked used marker (used.size + 1) candidate
  rw [hends] at hunused
  refine ⟨n, hn, hends, ⟨?_, hunused, nofun⟩, fun k hk => ?_⟩
  · -- the search ends early at something nonempty, and at its bound behind a marker
    obtain hlt | rfl := Nat.lt_or_eq_of_le hn
    · exact (hfree hlt).1
    · exact marked_succ_ne_empty marker candidate _
  · by_contra hlt
    exact free_nil_iff.1 hk (hbefore k (Nat.not_le.1 hlt))

theorem free_claim (used : UsedNames) (candidate : String) (marker : Char) :
    Free used [] (used.claim candidate marker).1 := by
  obtain ⟨n, _, hends, hleast⟩ := used.isLeast_claim candidate marker
  exact hends ▸ hleast.1

/-- A free candidate is claimed as it is. -/
theorem claim_of_free {used : UsedNames} {candidate : String} (h : Free used [] candidate)
    (marker : Char) : used.claim candidate marker = (candidate, used.insert candidate) := by
  have hfirst : used.firstFree marker (used.size + 1) candidate = candidate :=
    if_neg (free_nil_iff.1 h)
  rw [claim, hfirst]

/-! ### A row of identifiers -/

theorem claimAll_cons (used : UsedNames) (marker : Char) (candidate : String)
    (rest : List String) : used.claimAll marker (candidate :: rest) =
      (used.claim candidate marker).1 ::
        (used.insert (used.claim candidate marker).1).claimAll marker rest := rfl

theorem isLeast_claimAll (used : UsedNames) (marker : Char) {candidates : List String} {i : Nat}
    {candidate : String} (hi : candidates[i]? = some candidate) :
    ∃ n ≤ used.size + i + 1,
      (used.claimAll marker candidates)[i]? = some (marked marker candidate n) ∧
      IsLeast {k | Free used ((used.claimAll marker candidates).take i)
        (marked marker candidate k)} n := by
  induction candidates generalizing used i with
  | nil => cases hi
  | cons first rest ih =>
      rw [claimAll_cons]
      cases i with
      | zero =>
          obtain rfl := Option.some.inj hi
          obtain ⟨n, hn, hends, hleast⟩ := used.isLeast_claim first marker
          exact ⟨n, hn, congrArg some hends, hleast⟩
      | succ i =>
          -- the identifier of the first name is in use when the others are resolved
          obtain ⟨n, hn, hends, hleast⟩ := ih (used.insert (used.claim first marker).1) hi
          have hsize := size_insert_le used (used.claim first marker).1
          simp only [free_insert_iff] at hleast
          exact ⟨n, by omega, hends, hleast⟩

/-- The identifiers are free and differ from each other in more than case. -/
theorem free_claimAll (used : UsedNames) (marker : Char) (candidates : List String) :
    (used.claimAll marker candidates).Pairwise (fun a b => Text.lower a ≠ Text.lower b) ∧
      ∀ identifier ∈ used.claimAll marker candidates, Free used [] identifier := by
  induction candidates generalizing used with
  | nil => exact ⟨.nil, nofun⟩
  | cons candidate rest ih =>
      obtain ⟨hpairwise, hfree⟩ := ih (used.insert (used.claim candidate marker).1)
      have hfirst : ∀ other ∈ (used.insert (used.claim candidate marker).1).claimAll marker rest,
          Free used [(used.claim candidate marker).1] other :=
        fun other hother => free_insert_iff.1 (hfree other hother)
      rw [claimAll_cons]
      refine ⟨List.pairwise_cons.2 ⟨fun other hother => ?_, hpairwise⟩,
        List.forall_mem_cons.2 ⟨used.free_claim candidate marker, fun other hother => ?_⟩⟩
      · exact ((hfirst other hother).differs _ (List.mem_singleton_self _)).symm
      · exact ⟨(hfirst other hother).ne_empty, (hfirst other hother).unused, nofun⟩

/-- Free identifiers that differ from each other in more than case are resolved to themselves. -/
theorem claimAll_eq_self (used : UsedNames) (marker : Char) {identifiers : List String}
    (hpairwise : identifiers.Pairwise fun a b => Text.lower a ≠ Text.lower b)
    (hfree : ∀ identifier ∈ identifiers, Free used [] identifier) :
    used.claimAll marker identifiers = identifiers := by
  induction identifiers generalizing used with
  | nil => rfl
  | cons first rest ih =>
      obtain ⟨hdiffers, hrest⟩ := List.pairwise_cons.1 hpairwise
      obtain ⟨hfirst, hothers⟩ := List.forall_mem_cons.1 hfree
      rw [claimAll_cons, claim_of_free hfirst]
      refine congrArg (first :: ·) (ih (used.insert first) hrest fun other hother => ?_)
      exact free_insert_iff.2 ⟨(hothers other hother).ne_empty, (hothers other hother).unused,
        List.forall_mem_singleton.2 (hdiffers other hother).symm⟩

/-- Whatever names are in use and however identifiers are derived, each name is resolved to its
identifier with the fewest markers that make it free, after as many steps. The identifiers differ
in more than case from each other and from reserved names, as constants do from that of the
fingerprint, and are resolved to themselves. -/
theorem resolves_least (used : UsedNames) (marker : Char) (derive : String → String)
    (names : List String) :
    let resolved := used.claimAll marker (names.map derive)
    resolved.length = names.length ∧
    (∀ i name, names[i]? = some name → ∃ n ≤ used.size + i + 1,
      resolved[i]? = some (marked marker (derive name) n) ∧
      IsLeast {k | Free used (resolved.take i) (marked marker (derive name) k)} n) ∧
    resolved.Pairwise (fun a b => Text.lower a ≠ Text.lower b) ∧
    (∀ identifier ∈ resolved, ¬used.contains identifier = true) ∧
    empty.claimAll marker (resolved.map id) = resolved ∧
    (∀ reserved identifier, (reserving reserved).contains identifier = true ↔
      ∃ name ∈ reserved, Text.lower identifier = Text.lower name) ∧
    ∀ style : Style, ∀ constant ∈ style.constants names,
      Text.lower constant ≠ Text.lower fingerprintConstant := by
  intro resolved
  obtain ⟨hpairwise, hfree⟩ := used.free_claimAll marker (names.map derive)
  refine ⟨by simp [resolved], fun i name hname => ?_, hpairwise,
    fun identifier hidentifier => (hfree identifier hidentifier).unused, ?_,
    fun reserved _ => contains_reserving_iff reserved, fun style constant hconstant => ?_⟩
  · refine used.isLeast_claimAll marker ?_
    rw [List.getElem?_map, hname, Option.map_some]
  · rw [List.map_id]
    refine claimAll_eq_self empty marker hpairwise fun identifier hidentifier => ?_
    exact ⟨(hfree identifier hidentifier).ne_empty, by simp [empty, contains], nofun⟩
  · obtain ⟨_, hconstants⟩ := (reserving [fingerprintConstant]).free_claimAll style.marker
      (names.map Style.constant)
    have hunused := (hconstants constant hconstant).unused
    rw [contains_reserving_iff] at hunused
    exact fun heq => hunused ⟨_, List.mem_singleton_self _, heq⟩

example : (reserving ["X"]).claimAll '_' ["x__", "x", "x"] = ["x__", "x_", "x___"] := by
  decide +kernel

end RecordCodec.Naming.UsedNames
