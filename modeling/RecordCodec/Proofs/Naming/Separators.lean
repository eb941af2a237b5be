import RecordCodec.Naming.Style
import RecordCodec.Proofs.Naming.Resolution

/-!
Separators in names. Words hold no separators, and changing the case of a character never makes
one, so nothing that is put together from words holds one: neither accessors nor the names of
types. Only markers can add separators to a claimed identifier.
-/

namespace RecordCodec

/-! ### Characters -/

namespace Text

/-- What holds of the first 128 characters, one by one, holds of every ASCII character. -/
theorem forall_ascii {P : Char → Prop} (h : ∀ n < 128, P (Char.ofNat n)) {c : Char}
    (hc : c.toNat < 128) : P c := by
  rw [← Char.ofNat_toNat c]
  exact h c.toNat hc

theorem toNat_ofNat (n : Nat) : (Char.ofNat n).toNat = if n.isValidChar then n else 0 := by
  by_cases hvalid : n.isValidChar
  · rw [Char.ofNat, dif_pos hvalid, if_pos hvalid]
    rfl
  · rw [Char.ofNat, dif_neg hvalid, if_neg hvalid]
    rfl

theorem isUpper_iff {c : Char} : c.isUpper = true ↔ 65 ≤ c.toNat ∧ c.toNat ≤ 90 := by
  show decide (65 ≤ c.val ∧ c.val ≤ 90) = true ↔ _
  simp [UInt32.le_iff_toNat_le, ← Char.toNat_val]

/-- Only ASCII capitals have another lower-case form in ASCII. -/
theorem toLower_eq_self {c : Char} (h : ¬c.isUpper = true) : c.toLower = c :=
  dif_neg fun hupper => h (decide_eq_true hupper)

end Text

namespace Naming

theorem isSeparator_iff {c : Char} : isSeparator c = true ↔
    c.toNat = 95 ∨ c.toNat = 45 ∨ c.toNat = 32 ∨ c.toNat = 46 := by
  simp only [isSeparator, Bool.or_eq_true, beq_iff_eq, ← Char.toNat_inj, or_assoc]
  rfl

/-- No character among these. -/
def Solid (cs : List Char) : Prop := ∀ c ∈ cs, ¬isSeparator c = true

section

variable {c : Char} {cs ds : List Char}

@[simp] theorem solid_nil : Solid [] := nofun

@[simp] theorem solid_cons : Solid (c :: cs) ↔ ¬isSeparator c = true ∧ Solid cs :=
  List.forall_mem_cons

@[simp] theorem solid_append : Solid (cs ++ ds) ↔ Solid cs ∧ Solid ds := List.forall_mem_append

/-! ### Case maps -/

theorem not_isSeparator_toLower (h : ¬isSeparator c = true) : ¬isSeparator c.toLower = true := by
  by_cases hupper : c.isUpper = true
  · have hc := Text.isUpper_iff.1 hupper
    exact Text.forall_ascii (P := fun c => c.isUpper = true → ¬isSeparator c.toLower = true)
      (by decide) (by omega) hupper
  · rwa [Text.toLower_eq_self hupper]

theorem not_isSeparator_toUpper (hc : c.toNat < 128) (h : ¬isSeparator c = true) :
    ¬isSeparator c.toUpper = true := by
  exact Text.forall_ascii (P := fun c => ¬isSeparator c = true → ¬isSeparator c.toUpper = true)
    (by decide) hc h

/-- The images of a run are ASCII capitals or stand behind the underscore, so none of them is a
separator. -/
def Clear (run : Text.ShiftRun) : Prop :=
  (64 < run.first + run.shift ∧ run.last + run.shift < 91) ∨ 95 < run.first + run.shift

instance (run : Text.ShiftRun) : Decidable (Clear run) := inferInstanceAs (Decidable (_ ∨ _))

theorem not_isSeparator_of_shifted? {runs : List Text.ShiftRun} (hclear : ∀ run ∈ runs, Clear run)
    {d : Char} (h : Text.shifted? runs c = some d) : ¬isSeparator d = true := by
  obtain ⟨run, hfind, rfl⟩ := Option.map_eq_some_iff.1 h
  have hcontains := List.find?_some hfind
  have hrun := hclear run (List.mem_of_find?_eq_some hfind)
  simp only [Text.CodeRun.contains, Bool.and_eq_true, decide_eq_true_eq] at hcontains
  rw [isSeparator_iff, Text.toNat_ofNat]
  unfold Clear at hrun
  split
  · omega
  · omega

theorem solid_shifted? {runs : List Text.ShiftRun} (hclear : ∀ run ∈ runs, Clear run)
    (h : ¬isSeparator c = true) : Solid [(Text.shifted? runs c).getD c] := by
  rw [solid_cons]
  refine ⟨?_, solid_nil⟩
  cases hshifted : Text.shifted? runs c with
  | none => exact h
  | some d => exact not_isSeparator_of_shifted? hclear hshifted

theorem clear_lowerRuns : ∀ run ∈ Text.lowerRuns, Clear run := by decide +kernel

theorem clear_upperRuns : ∀ run ∈ Text.upperRuns, Clear run := by decide +kernel

theorem solid_upperExpansions :
    ∀ entry ∈ Text.upperExpansions, Solid (entry.2.map Char.ofNat) := by
  have hall : (Text.upperExpansions.all fun entry =>
      entry.2.all fun n => !isSeparator (Char.ofNat n)) = true := by decide +kernel
  rintro entry hentry _ hc
  obtain ⟨n, hn, rfl⟩ := List.mem_map.1 hc
  have hclear := List.all_eq_true.1 (List.all_eq_true.1 hall entry hentry) n hn
  simpa using hclear

theorem solid_lowerChar (h : ¬isSeparator c = true) : Solid (Text.lowerChar c) := by
  unfold Text.lowerChar
  split
  · simpa using not_isSeparator_toLower h
  · split
    · simp [isSeparator_iff]
    · exact solid_shifted? clear_lowerRuns h

theorem solid_upperChar (h : ¬isSeparator c = true) : Solid (Text.upperChar c) := by
  unfold Text.upperChar
  split
  · rename_i hc
    simpa using not_isSeparator_toUpper hc h
  · split
    · rename_i codes hlookup
      obtain ⟨before, after, htable, _⟩ := List.lookup_eq_some_iff.1 hlookup
      exact solid_upperExpansions (c.toNat, codes) (by simp [htable])
    · exact solid_shifted? clear_upperRuns h

theorem solid_lowerFrom {before : List Char} (h : Solid cs) :
    Solid (Text.lowerFrom before cs) := by
  induction cs generalizing before with
  | nil => exact solid_nil
  | cons c rest ih =>
      obtain ⟨hc, hrest⟩ := solid_cons.1 h
      simp only [Text.lowerFrom, solid_append]
      refine ⟨?_, ih hrest⟩
      split
      · split <;> simp [isSeparator_iff]
      · exact solid_lowerChar hc

theorem solid_upper (h : Solid cs) : Solid (cs.flatMap Text.upperChar) := by
  intro d hd
  obtain ⟨c, hc, hdc⟩ := List.mem_flatMap.1 hd
  exact solid_upperChar (h c hc) d hdc

/-! ### Words -/

theorem solid_of_mem_wordsFrom {current word : List Char} (hcurrent : Solid current)
    (h : word ∈ wordsFrom current cs) : Solid word := by
  -- a word is complete as the characters under way, turned round
  have hended : ∀ {current : List Char}, Solid current →
      word ∈ (if current.isEmpty then [] else [current.reverse]) → Solid word := by
    intro current hcurrent hword c hc
    split at hword
    · cases hword
    · obtain rfl := List.mem_singleton.1 hword
      exact hcurrent c (List.mem_reverse.1 hc)
  induction cs generalizing current with
  | nil => exact hended hcurrent h
  | cons c rest ih =>
      unfold wordsFrom at h
      split at h
      · obtain hword | hword := List.mem_append.1 h
        · exact hended hcurrent hword
        · exact ih solid_nil hword
      · rename_i hc
        split at h
        · exact ih (solid_cons.2 ⟨hc, solid_nil⟩) h
        · rename_i previous earlier
          split at h
          · obtain hword | hword := List.mem_cons.1 h
            · exact hended hcurrent (by simpa using hword)
            · exact ih (solid_cons.2 ⟨hc, solid_nil⟩) hword
          · exact ih (solid_cons.2 ⟨hc, hcurrent⟩) h

theorem solid_of_mem_words {name word : String} (h : word ∈ words name) : Solid word.toList := by
  obtain ⟨cs, hcs, rfl⟩ := List.mem_map.1 h
  rw [String.toList_ofList]
  exact solid_of_mem_wordsFrom solid_nil hcs

theorem solid_join {parts : List String} (h : ∀ part ∈ parts, Solid part.toList) :
    Solid (String.join parts).toList := by
  rw [String.toList_join]
  intro c hc
  obtain ⟨part, hpart, hcpart⟩ := List.mem_flatMap.1 hc
  exact h part hpart c hcpart

/-! ### Names -/

variable (style : Style)

theorem solid_titleWord {word : String} (h : Solid word.toList) :
    Solid (style.titleWord word).toList := by
  have hupper : Solid (Text.upper word).toList := by
    rw [Text.upper, String.toList_ofList]
    exact solid_upper h
  simp only [Style.titleWord]
  split
  · exact hupper
  · split
    · exact solid_nil
    · rename_i c rest hword
      rw [hword, solid_cons] at h
      rw [String.toList_ofList, solid_append]
      refine ⟨solid_upperChar h.1, fun d hd => ?_⟩
      obtain ⟨c, hc, rfl⟩ := List.mem_map.1 hd
      exact not_isSeparator_toLower (h.2 c hc)

theorem solid_titleWords {raw : List String} (h : ∀ word ∈ raw, Solid word.toList) :
    Solid (String.join (raw.map style.titleWord)).toList := by
  refine solid_join (List.forall_mem_map.2 fun word hword => ?_)
  exact solid_titleWord style (h word hword)

/-- The name of a type holds no separator, as what is cut into words loses its separators. -/
theorem solid_typeName (raw : String) : Solid (style.typeName raw).toList := by
  unfold Style.typeName
  split
  · exact solid_titleWords style fun _ => solid_of_mem_words
  · rename_i hnone
    have hraw : Solid raw.toList := fun c hc hsep => hnone (List.any_eq_true.2 ⟨c, hc, hsep⟩)
    unfold Text.capitalize
    split
    · exact solid_nil
    · rename_i c rest hc
      rw [hc, solid_cons] at hraw
      rw [String.toList_ofList, solid_append]
      exact ⟨solid_upperChar hraw.1, hraw.2⟩

theorem solid_accessor (raw : String) : Solid (style.accessor raw).toList := by
  have hwords : ∀ word ∈ words raw, Solid word.toList := fun _ => solid_of_mem_words
  unfold Style.accessor
  split
  · exact solid_nil
  · rename_i first rest hraw
    rw [hraw, List.forall_mem_cons] at hwords
    rw [String.toList_append, solid_append]
    refine ⟨?_, solid_titleWords style hwords.2⟩
    rw [Text.lower, String.toList_ofList]
    exact solid_lowerFrom hwords.1

end

/-! ### Claimed identifiers -/

namespace UsedNames

@[simp] theorem toList_marked (marker : Char) (candidate : String) (n : Nat) :
    (marked marker candidate n).toList = candidate.toList ++ List.replicate n marker := by
  induction n with
  | zero => simp [marked]
  | succ n ih =>
      rw [marked, String.toList_push, ih, List.append_assoc, List.replicate_succ']

end UsedNames

/-- Whatever separates the parts of a name is the marker. -/
def OnlyMarker (marker : Char) (cs : List Char) : Prop :=
  ∀ c ∈ cs, isSeparator c = true → c = marker

theorem Solid.onlyMarker {cs : List Char} (h : Solid cs) (marker : Char) : OnlyMarker marker cs :=
  fun c hc hsep => absurd hsep (h c hc)

theorem OnlyMarker.append {marker : Char} {cs ds : List Char} (hcs : OnlyMarker marker cs)
    (hds : OnlyMarker marker ds) : OnlyMarker marker (cs ++ ds) :=
  List.forall_mem_append.2 ⟨hcs, hds⟩

theorem OnlyMarker.claim {marker : Char} {candidate : String}
    (h : OnlyMarker marker candidate.toList) (used : UsedNames) :
    OnlyMarker marker (used.claim candidate marker).1.toList := by
  obtain ⟨n, _, hends, _⟩ := used.isLeast_claim candidate marker
  rw [hends, UsedNames.toList_marked]
  exact h.append fun c hc _ => List.eq_of_mem_replicate hc

/-- A record inside another one is named behind that one's name, all others by words alone. -/
theorem OnlyMarker.baseName {style : Style} {enclosing : String}
    (h : OnlyMarker style.marker enclosing.toList) (identity : Option String) (field : String) :
    OnlyMarker style.marker (style.baseName identity enclosing field).toList := by
  cases identity with
  | some identity => exact (solid_typeName style identity).onlyMarker style.marker
  | none =>
      show OnlyMarker style.marker (enclosing ++ style.typeName field).toList
      rw [String.toList_append]
      exact h.append ((solid_typeName style field).onlyMarker style.marker)

end Naming
end RecordCodec
