import RecordCodec.Proofs.Naming.Separators
import RecordCodec.Proofs.Text.Digits
import RecordCodec.StructCode

/-!
Snake case keeps names apart. It lowers the ASCII letters, which says less about a name than its
whole lower-case form, and puts underscores between words and in place of dashes and blanks. In
the accessors of sibling fields separators are markers and stand at the end, where no boundary
between words can add to them: the letters and the number of markers can be read off the snake
case, so that accessors that differ in more than case differ in it, too.
-/

namespace RecordCodec

/-! ### Lower-case forms of lowered letters -/

namespace Text

/-- A property of characters that does not see whether an ASCII letter is a capital. -/
theorem toLower_invariant {α : Type} {f : Char → α}
    (h : ∀ n < 128, (Char.ofNat n).isUpper = true →
      f (Char.ofNat n).toLower = f (Char.ofNat n)) (c : Char) : f c.toLower = f c := by
  by_cases hupper : c.isUpper = true
  · have hc := isUpper_iff.1 hupper
    exact forall_ascii (P := fun c => c.isUpper = true → f c.toLower = f c) h (by omega) hupper
  · rw [toLower_eq_self hupper]

@[simp] theorem isCaseIgnorable_toLower (c : Char) :
    isCaseIgnorable c.toLower = isCaseIgnorable c :=
  toLower_invariant (by decide +kernel) c

@[simp] theorem isCased_toLower (c : Char) : isCased c.toLower = isCased c :=
  toLower_invariant (by decide +kernel) c

@[simp] theorem lowerChar_toLower (c : Char) : lowerChar c.toLower = lowerChar c :=
  toLower_invariant (by decide +kernel) c

theorem toLower_eq_sigma_iff {c : Char} : c.toLower = 'Σ' ↔ c = 'Σ' :=
  iff_of_eq (toLower_invariant (f := fun c => c = 'Σ') (by decide +kernel) c)

@[simp] theorem leadsToCased_map_toLower (cs : List Char) :
    leadsToCased (cs.map Char.toLower) = leadsToCased cs := by
  induction cs with
  | nil => rfl
  | cons c rest ih =>
      unfold leadsToCased at ih ⊢
      by_cases hc : isCaseIgnorable c = true
      · simpa [hc] using ih
      · simp [hc]

theorem lowerFrom_map_toLower (before cs : List Char) :
    lowerFrom (before.map Char.toLower) (cs.map Char.toLower) = lowerFrom before cs := by
  induction cs generalizing before with
  | nil => rfl
  | cons c rest ih =>
      have hrest := ih (c :: before)
      simp only [List.map_cons] at hrest
      simp only [List.map_cons, lowerFrom, toLower_eq_sigma_iff, leadsToCased_map_toLower,
        lowerChar_toLower, hrest]

/-- The lower-case form of a text follows from the text with its ASCII letters lowered. -/
theorem lower_congr {s t : String} (h : s.toList.map Char.toLower = t.toList.map Char.toLower) :
    lower s = lower t := by
  have hforms := lowerFrom_map_toLower [] s.toList
  rw [h] at hforms
  show String.ofList (lowerFrom [] s.toList) = String.ofList (lowerFrom [] t.toList)
  rw [← hforms, ← lowerFrom_map_toLower [] t.toList]

end Text

/-! ### Snake case -/

namespace StructCode

/-- A character that snake case shows as an underscore. -/
def isGap (c : Char) : Bool := c == '_' || c == '-' || c == ' '

theorem isSeparator_of_isGap {c : Char} (h : isGap c = true) : Naming.isSeparator c = true := by
  rw [Naming.isSeparator]
  rw [isGap] at h
  rw [h, Bool.true_or]

theorem toLower_ne_underscore {c : Char} (h : ¬isGap c = true) : c.toLower ≠ '_' := by
  have hsame : (c.toLower = '_') = (c = '_') :=
    Text.toLower_invariant (f := fun c => c = '_') (by decide +kernel) c
  rw [Ne, hsame]
  rintro rfl
  exact h rfl

theorem snakeFrom_gap {c : Char} (h : isGap c = true) (afterLower : Bool) (rest : List Char) :
    snakeFrom afterLower (c :: rest) = '_' :: snakeFrom false rest := by
  simp only [isGap, Bool.or_eq_true, beq_iff_eq] at h
  obtain (rfl | rfl) | rfl := h
  · rfl
  · rfl
  · rfl

/-- Any other character stays, as a small letter if it is an ASCII one, behind an underscore where
a word begins. -/
theorem snakeFrom_letter {c : Char} (h : ¬isGap c = true) (afterLower : Bool) (rest : List Char) :
    ∃ begins between, (begins = [] ∨ begins = ['_']) ∧
      snakeFrom afterLower (c :: rest) = begins ++ c.toLower :: snakeFrom between rest := by
  rw [snakeFrom]
  split
  · refine ⟨if afterLower then ['_'] else [], false, ?_, rfl⟩
    split
    · exact .inr rfl
    · exact .inl rfl
  · rename_i hupper
    rw [Text.toLower_eq_self hupper, if_neg]
    · exact ⟨[], c.isLower || c.isDigit, .inl rfl, rfl⟩
    · rintro (rfl | rfl)
      · exact h rfl
      · exact h rfl

/-- Without its underscores the snake case of a name has the letters of the name. -/
theorem filter_snakeFrom {cs : List Char} (h : ∀ c ∈ cs, ¬isGap c = true) (afterLower : Bool) :
    (snakeFrom afterLower cs).filter (· ≠ '_') = cs.map Char.toLower := by
  induction cs generalizing afterLower with
  | nil => rfl
  | cons c rest ih =>
      obtain ⟨hc, hrest⟩ := List.forall_mem_cons.1 h
      obtain ⟨begins, between, hbegins, hsnake⟩ := snakeFrom_letter hc afterLower rest
      have hnone : begins.filter (· ≠ '_') = [] := by
        obtain rfl | rfl := hbegins
        · rfl
        · rfl
      rw [hsnake, List.filter_append, hnone, List.nil_append, List.filter_cons_of_pos, ih hrest,
        List.map_cons]
      simpa using toLower_ne_underscore hc

theorem getLast?_snakeFrom {cs : List Char} (h : ∀ c ∈ cs, ¬isGap c = true) (afterLower : Bool) :
    (snakeFrom afterLower cs).getLast? ≠ some '_' := by
  induction cs generalizing afterLower with
  | nil => nofun
  | cons c rest ih =>
      obtain ⟨hc, hrest⟩ := List.forall_mem_cons.1 h
      obtain ⟨begins, between, _, hsnake⟩ := snakeFrom_letter hc afterLower rest
      rw [hsnake, List.getLast?_append, List.getLast?_cons]
      cases hlast : (snakeFrom between rest).getLast? with
      | none => simpa using toLower_ne_underscore hc
      | some last => simpa [hlast] using ih hrest between

/-- Gaps at the end of a name are as many underscores, whatever stands before them. -/
theorem snakeFrom_append_replicate {marker : Char} (hmarker : isGap marker = true)
    (cs : List Char) (n : Nat) (afterLower : Bool) :
    snakeFrom afterLower (cs ++ List.replicate n marker) =
      snakeFrom afterLower cs ++ List.replicate n '_' := by
  induction cs generalizing afterLower with
  | nil =>
      induction n generalizing afterLower with
      | zero => rfl
      | succ n ih =>
          rw [List.nil_append] at ih ⊢
          rw [List.replicate_succ, snakeFrom_gap hmarker, ih]
          rfl
  | cons c rest ih =>
      rw [List.cons_append, snakeFrom, snakeFrom]
      split
      · simp [ih]
      · split <;> simp [ih]

/-! ### Names with markers behind them -/

open Naming (Solid)

theorem not_isGap_of_solid {cs : List Char} (h : Solid cs) : ∀ c ∈ cs, ¬isGap c = true :=
  fun c hc hgap => h c hc (isSeparator_of_isGap hgap)

/-- A row of one character at the end is told apart from what stands before it, which ends
differently. -/
theorem append_replicate_inj {xs ys : List Char} {c : Char} {i j : Nat}
    (hxs : xs.getLast? ≠ some c) (hys : ys.getLast? ≠ some c)
    (h : xs ++ List.replicate i c = ys ++ List.replicate j c) : xs = ys ∧ i = j := by
  have hrow : ∀ {zs : List Char} {n : Nat}, zs.getLast? ≠ some c →
      (List.replicate n c ++ zs.reverse).takeWhile (· == c) = List.replicate n c := by
    intro zs n hzs
    refine (Text.takeWhile_front (fun d hd => ?_) fun d hd => ?_).1
    · exact beq_iff_eq.2 (List.eq_of_mem_replicate hd)
    · rw [List.head?_reverse] at hd
      exact beq_eq_false_iff_ne.2 fun heq => hzs (heq ▸ hd)
  have hreverse := congrArg List.reverse h
  simp only [List.reverse_append, List.reverse_replicate] at hreverse
  have hrows := congrArg (List.takeWhile (· == c)) hreverse
  rw [hrow hxs, hrow hys] at hrows
  have hn : i = j := by simpa using congrArg List.length hrows
  subst hn
  exact ⟨List.append_cancel_right h, rfl⟩

/-- From the snake case of a name without separators and the markers behind it both can be read
off, up to the case of ASCII letters. -/
theorem map_toLower_eq_of_snakeFrom {marker : Char} {cs ds : List Char} {i j : Nat}
    (hcs : Solid cs) (hds : Solid ds)
    (h : snakeFrom false (cs ++ List.replicate i marker) =
      snakeFrom false (ds ++ List.replicate j marker)) :
    (cs ++ List.replicate i marker).map Char.toLower =
      (ds ++ List.replicate j marker).map Char.toLower := by
  have hc := not_isGap_of_solid hcs
  have hd := not_isGap_of_solid hds
  by_cases hmarker : isGap marker = true
  · -- no boundary between words is at the end, so underscores there are markers
    rw [snakeFrom_append_replicate hmarker, snakeFrom_append_replicate hmarker] at h
    obtain ⟨hsnake, rfl⟩ :=
      append_replicate_inj (getLast?_snakeFrom hc false) (getLast?_snakeFrom hd false) h
    have hletters := congrArg (List.filter (· ≠ '_')) hsnake
    rw [filter_snakeFrom hc, filter_snakeFrom hd] at hletters
    rw [List.map_append, List.map_append, hletters]
  · -- other markers are letters of the name
    have hwith : ∀ {es : List Char} {n : Nat}, (∀ e ∈ es, ¬isGap e = true) →
        ∀ e ∈ es ++ List.replicate n marker, ¬isGap e = true := by
      intro es n hes
      refine List.forall_mem_append.2 ⟨hes, fun e he => ?_⟩
      rw [List.eq_of_mem_replicate he]
      exact hmarker
    have hletters := congrArg (List.filter (· ≠ '_')) h
    rwa [filter_snakeFrom (hwith hc), filter_snakeFrom (hwith hd)] at hletters

/-- Identifiers claimed for candidates without separators differ in snake case. -/
theorem nodup_snakeCase_claimAll (used : Naming.UsedNames) (marker : Char)
    {candidates : List String} (h : ∀ candidate ∈ candidates, Solid candidate.toList) :
    ((used.claimAll marker candidates).map snakeCase).Nodup := by
  have hmarked : ∀ identifier ∈ used.claimAll marker candidates, ∃ cs n, Solid cs ∧
      identifier.toList = cs ++ List.replicate n marker := by
    intro identifier hidentifier
    obtain ⟨i, hi, rfl⟩ := List.mem_iff_getElem.1 hidentifier
    have hi' : i < candidates.length := by simpa using hi
    obtain ⟨n, _, hends, _⟩ := used.isLeast_claimAll marker (List.getElem?_eq_getElem hi')
    rw [List.getElem?_eq_getElem hi, Option.some.injEq] at hends
    rw [hends, Naming.UsedNames.toList_marked]
    exact ⟨_, n, h _ (List.getElem_mem hi'), rfl⟩
  obtain ⟨hpairwise, _⟩ := used.free_claimAll marker candidates
  refine List.pairwise_map.2 (hpairwise.imp_of_mem fun {a b} ha hb hlower hsnake => hlower ?_)
  obtain ⟨cs, i, hcs, hca⟩ := hmarked a ha
  obtain ⟨ds, j, hds, hdb⟩ := hmarked b hb
  have hforms := String.ofList_injective hsnake
  rw [hca, hdb] at hforms
  apply Text.lower_congr
  rw [hca, hdb]
  exact map_toLower_eq_of_snakeFrom hcs hds hforms

/-- The accessors of sibling fields, one for each, differ in snake case in every style. -/
theorem snakeCase_accessors_nodup (style : Naming.Style) (raw : List String) :
    (style.accessors raw).length = raw.length ∧
      ((style.accessors raw).map snakeCase).Nodup := by
  refine ⟨style.length_accessors raw, nodup_snakeCase_claimAll _ _ ?_⟩
  exact List.forall_mem_map.2 fun name _ => Naming.solid_accessor style name

end StructCode
end RecordCodec
