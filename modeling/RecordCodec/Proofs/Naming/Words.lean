import RecordCodec.Proofs.Naming.Separators

/-!
Where a name is cut into words. The words are the name without its separators, none of them is
empty, and two characters with nothing but separators between them stand in different words exactly
if there is a separator or a word starts at the second one.

The words under way are kept turned round, so that the character behind is the first of them.
`scan?` goes over a name by positions instead and reads the character behind from the name, where a
read may fail; since the character behind never is a separator, the two agree and no read fails.
-/

namespace RecordCodec.Naming

open Text (isUppercase isLowercase isAsciiDigit)

/-! ### One step

A separator ends the word under way, if there is one. Any other character either starts a word of
its own, which ends the word under way, or is added to it. -/

/-- The word under way as the last one. -/
def ended (current : List Char) : List (List Char) :=
  if current.isEmpty then [] else [current.reverse]

/-- Does the character end a word under way and start another one? -/
def cuts (current : List Char) (c : Char) (next : Option Char) : Bool :=
  current.head?.any fun previous => startsWord previous c next

@[simp] theorem ended_nil : ended [] = [] := rfl

@[simp] theorem ended_cons (c : Char) (current : List Char) :
    ended (c :: current) = [current.reverse ++ [c]] := by
  simp [ended]

@[simp] theorem flatten_ended (current : List Char) : (ended current).flatten = current.reverse := by
  cases current <;> simp

section

variable {current cs rest : List Char} {c : Char}

theorem wordsFrom_nil (current : List Char) : wordsFrom current [] = ended current := rfl

theorem wordsFrom_separator (h : isSeparator c = true) :
    wordsFrom current (c :: rest) = ended current ++ wordsFrom [] rest := by
  rw [wordsFrom.eq_def]
  exact if_pos h

theorem wordsFrom_letter (h : ¬isSeparator c = true) :
    wordsFrom current (c :: rest) =
      if cuts current c rest.head? then ended current ++ wordsFrom [c] rest
      else wordsFrom (c :: current) rest := by
  rw [wordsFrom.eq_def]
  simp only [h, Bool.false_eq_true, if_false]
  cases current with
  | nil => rfl
  | cons previous earlier => simp [cuts]

theorem wordsFrom_gap {gap : List Char} (h : ∀ g ∈ gap, isSeparator g = true) (cs : List Char) :
    wordsFrom [] (gap ++ cs) = wordsFrom [] cs := by
  induction gap with
  | nil => rfl
  | cons g rest ih =>
      obtain ⟨hg, hrest⟩ := List.forall_mem_cons.1 h
      rw [List.cons_append, wordsFrom_separator hg, ended_nil, List.nil_append, ih hrest]

/-! ### The words as pieces -/

theorem ne_nil_of_mem_ended {word : List Char} (h : word ∈ ended current) : word ≠ [] := by
  cases current with
  | nil => exact absurd h List.not_mem_nil
  | cons c current =>
      rw [ended_cons, List.mem_singleton] at h
      simp [h]

theorem ne_nil_of_mem_wordsFrom {word : List Char} (h : word ∈ wordsFrom current cs) :
    word ≠ [] := by
  induction cs generalizing current with
  | nil => exact ne_nil_of_mem_ended h
  | cons c rest ih =>
      by_cases hc : isSeparator c = true
      · rw [wordsFrom_separator hc, List.mem_append] at h
        exact h.elim ne_nil_of_mem_ended ih
      · rw [wordsFrom_letter hc] at h
        split at h
        · rw [List.mem_append] at h
          exact h.elim ne_nil_of_mem_ended ih
        · exact ih h

/-- Nothing but separators is lost. -/
theorem flatten_wordsFrom (current cs : List Char) :
    (wordsFrom current cs).flatten = current.reverse ++ cs.filter (!isSeparator ·) := by
  induction cs generalizing current with
  | nil => simp [wordsFrom_nil]
  | cons c rest ih =>
      by_cases hc : isSeparator c = true
      · simp [wordsFrom_separator hc, ih, hc]
      · rw [wordsFrom_letter hc]
        split
        · simp [ih, hc]
        · simp [ih, hc]

/-- What is under way becomes the beginning of the first word. -/
theorem exists_wordsFrom_cons (h : current ≠ []) (cs : List Char) :
    ∃ more later, wordsFrom current cs = (current.reverse ++ more) :: later := by
  induction cs generalizing current with
  | nil =>
      refine ⟨[], [], ?_⟩
      simp [wordsFrom_nil, ended, h]
  | cons c rest ih =>
      have hended : ended current = [current.reverse] := by simp [ended, h]
      by_cases hc : isSeparator c = true
      · exact ⟨[], wordsFrom [] rest, by simp [wordsFrom_separator hc, hended]⟩
      · rw [wordsFrom_letter hc]
        split
        · exact ⟨[], wordsFrom [c] rest, by simp [hended]⟩
        · obtain ⟨more, later, hmore⟩ := ih (List.cons_ne_nil c current)
          exact ⟨c :: more, later, by simp [hmore]⟩

/-- Behind a character that is no separator, that character is the last one under way. Everything
before it is in finished words or under way, too. -/
theorem exists_wordsFrom_append {p : Char} (hp : ¬isSeparator p = true) (current before : List Char)
    (rest : List Char) :
    ∃ finished earlier,
      wordsFrom current (before ++ p :: rest) = finished ++ wordsFrom (p :: earlier) rest ∧
      finished.flatten ++ earlier.reverse = current.reverse ++ before.filter (!isSeparator ·) := by
  induction before generalizing current with
  | nil =>
      rw [List.nil_append, wordsFrom_letter hp]
      split
      · exact ⟨ended current, [], rfl, by simp⟩
      · exact ⟨[], current, rfl, by simp⟩
  | cons b before ih =>
      rw [List.cons_append]
      by_cases hb : isSeparator b = true
      · obtain ⟨finished, earlier, hwords, hflatten⟩ := ih []
        refine ⟨ended current ++ finished, earlier, ?_, ?_⟩
        · rw [wordsFrom_separator hb, hwords, List.append_assoc]
        · simp [List.append_assoc, hflatten, hb]
      · rw [wordsFrom_letter hb]
        split
        · obtain ⟨finished, earlier, hwords, hflatten⟩ := ih [b]
          refine ⟨ended current ++ finished, earlier, ?_, ?_⟩
          · rw [hwords, List.append_assoc]
          · simp [List.append_assoc, hflatten, hb]
        · obtain ⟨finished, earlier, hwords, hflatten⟩ := ih (b :: current)
          exact ⟨finished, earlier, hwords, by simp [hflatten, hb]⟩

end

/-! ### The word of a character -/

/-- The number of the piece in which a character of the joined pieces stands. -/
def pieceAt : List (List Char) → Nat → Nat
  | [], _ => 0
  | piece :: rest, place =>
      if place < piece.length then 0 else pieceAt rest (place - piece.length) + 1

theorem pieceAt_append (finished : List (List Char)) (front : List Char) (c : Char)
    (back : List Char) (later : List (List Char)) :
    pieceAt (finished ++ (front ++ c :: back) :: later) (finished.flatten ++ front).length =
      finished.length := by
  induction finished with
  | nil => simp [pieceAt]
  | cons piece rest ih =>
      have hplace : ((piece :: rest).flatten ++ front).length =
          piece.length + (rest.flatten ++ front).length := by
        simp only [List.flatten_cons, List.length_append]
        omega
      rw [hplace, List.cons_append, pieceAt, if_neg (by omega), Nat.add_sub_cancel_left, ih,
        List.length_cons]

/-- Where one piece ends and the next one begins, the number goes up. -/
theorem pieceAt_ne (finished : List (List Char)) (front : List Char) (p c : Char)
    (back : List Char) (later : List (List Char)) :
    pieceAt (finished ++ (front ++ [p]) :: (c :: back) :: later)
        (finished.flatten ++ front).length ≠
      pieceAt (finished ++ (front ++ [p]) :: (c :: back) :: later)
        (finished.flatten ++ front ++ [p]).length := by
  have hsecond := pieceAt_append (finished ++ [front ++ [p]]) [] c back later
  simp only [List.append_assoc, List.singleton_append, List.nil_append, List.append_nil,
    List.flatten_append, List.flatten_cons, List.flatten_nil, List.length_append,
    List.length_singleton] at hsecond
  rw [pieceAt_append, List.append_assoc, List.length_append, List.length_append,
    List.length_singleton, hsecond]
  omega

/-- Two characters that only separators part are in different words exactly if there is a separator
or the second one starts a word. -/
theorem pieceAt_wordsFrom_ne_iff {before gap after : List Char} {p c : Char}
    (hp : ¬isSeparator p = true) (hc : ¬isSeparator c = true)
    (hgap : ∀ g ∈ gap, isSeparator g = true) {place : Nat}
    (hplace : place = (before.filter (!isSeparator ·)).length) :
    pieceAt (wordsFrom [] (before ++ p :: (gap ++ c :: after))) place ≠
        pieceAt (wordsFrom [] (before ++ p :: (gap ++ c :: after))) (place + 1) ↔
      gap ≠ [] ∨ startsWord p c after.head? = true := by
  obtain ⟨finished, earlier, hwords, hflatten⟩ :=
    exists_wordsFrom_append hp [] before (gap ++ c :: after)
  rw [List.reverse_nil, List.nil_append] at hflatten
  have hsecond : place + 1 = (finished.flatten ++ earlier.reverse ++ [p]).length := by
    rw [hplace, ← hflatten, ← List.concat_eq_append, List.length_concat]
  rw [← hflatten] at hplace
  rw [hwords, hsecond, hplace]
  -- the first character ends its word, and the second one begins another
  have hcut : ∀ later, wordsFrom (p :: earlier) (gap ++ c :: after) =
      (earlier.reverse ++ [p]) :: wordsFrom [c] later →
      pieceAt (finished ++ wordsFrom (p :: earlier) (gap ++ c :: after))
          (finished.flatten ++ earlier.reverse).length ≠
        pieceAt (finished ++ wordsFrom (p :: earlier) (gap ++ c :: after))
          (finished.flatten ++ earlier.reverse ++ [p]).length := by
    intro later hlater
    obtain ⟨more, words, hmore⟩ := exists_wordsFrom_cons (List.cons_ne_nil c []) later
    rw [hlater, hmore]
    exact pieceAt_ne finished earlier.reverse p c more words
  cases gap with
  | cons g gap =>
      obtain ⟨hg, hrest⟩ := List.forall_mem_cons.1 hgap
      refine iff_of_true (hcut after ?_) (.inl (List.cons_ne_nil g gap))
      rw [List.cons_append, wordsFrom_separator hg, wordsFrom_gap hrest, wordsFrom_letter hc]
      simp [cuts]
  | nil =>
      by_cases hstarts : startsWord p c after.head? = true
      · refine iff_of_true (hcut after ?_) (.inr hstarts)
        rw [List.nil_append, wordsFrom_letter hc]
        simp [cuts, hstarts]
      · refine iff_of_false ?_ (by simp [hstarts])
        obtain ⟨more, words, hmore⟩ := exists_wordsFrom_cons (List.cons_ne_nil c (p :: earlier)) after
        have htogether : wordsFrom (p :: earlier) ([] ++ c :: after) =
            (earlier.reverse ++ p :: c :: more) :: words := by
          rw [List.nil_append, wordsFrom_letter hc]
          simpa [cuts, hstarts] using hmore
        have hnext := pieceAt_append finished (earlier.reverse ++ [p]) c more words
        rw [List.append_assoc] at hnext
        rw [htogether, pieceAt_append, not_ne_iff]
        simpa using hnext.symm

/-! ### Reading by position -/

/-- The character behind a position; behind the first position there is none. -/
def before? (chars : List Char) (position : Nat) : Option Char :=
  if position = 0 then none else chars[position - 1]?

/-- The words of the characters `chars` from a position on, with `current` under way. The character
behind is looked up only where a capital may start a word, and it has to be there. -/
def scan? (chars : List Char) (position : Nat) (current : List Char) :
    List Char → Option (List (List Char))
  | [] => some (ended current)
  | c :: rest =>
      if isSeparator c then (scan? chars (position + 1) [] rest).map (ended current ++ ·)
      else if isUppercase c && !current.isEmpty then
        match before? chars position with
        | none => none
        | some previous =>
            if startsWord previous c chars[position + 1]? then
              (scan? chars (position + 1) [c] rest).map (ended current ++ ·)
            else scan? chars (position + 1) (c :: current) rest
      else scan? chars (position + 1) (c :: current) rest

/-- While a word is under way, the character behind is its last one, and no separator. -/
theorem scan?_eq_wordsFrom {passed current : List Char}
    (h : ∀ previous ∈ current.head?, passed.getLast? = some previous) (cs : List Char) :
    scan? (passed ++ cs) passed.length current cs = some (wordsFrom current cs) := by
  induction cs generalizing passed current with
  | nil => rfl
  | cons c rest ih =>
      have hpassed : passed ++ c :: rest = (passed ++ [c]) ++ rest := by simp
      have hlength : passed.length + 1 = (passed ++ [c]).length := by simp
      have hnext : (passed ++ c :: rest)[passed.length + 1]? = rest.head? := by
        rw [List.head?_eq_getElem?, List.getElem?_append_right (Nat.le_add_right _ 1),
          Nat.add_sub_cancel_left, List.getElem?_cons_succ]
      have hafter : ∀ current, (∀ previous ∈ current.head?, previous = c) →
          scan? (passed ++ c :: rest) (passed.length + 1) current rest =
            some (wordsFrom current rest) := by
        intro current hcurrent
        rw [hpassed, hlength]
        refine ih fun previous hprevious => ?_
        rw [hcurrent previous hprevious, List.getLast?_concat]
      rw [scan?]
      by_cases hc : isSeparator c = true
      · rw [if_pos hc, hafter [] (by simp), wordsFrom_separator hc]
        rfl
      · rw [if_neg hc, wordsFrom_letter hc, hnext, hafter [c] (by simp),
          hafter (c :: current) (by simp)]
        cases current with
        | nil => simp [cuts]
        | cons previous earlier =>
            have hlast : passed.getLast? = some previous := h previous rfl
            have hbehind : before? (passed ++ c :: rest) passed.length = some previous := by
              obtain ⟨front, rfl⟩ := List.getLast?_eq_some_iff.1 hlast
              simp [before?]
            rw [hbehind]
            by_cases hupper : isUppercase c = true
            · by_cases hstarts : startsWord previous c rest.head? = true
              · simp [cuts, hupper, hstarts]
              · simp [cuts, hupper, hstarts]
            · have hstarts : startsWord previous c rest.head? = false := by
                simp [startsWord, hupper]
              simp [cuts, hupper, hstarts]

/-! ### Names -/

theorem map_toList_words (name : String) :
    (words name).map String.toList = wordsFrom [] name.toList := by
  simp [words, List.map_map, Function.comp_def]

/-- The number of the word in which the character at a position of a name stands. Separators are in
no word, so those before the position do not count. -/
def wordAt (name : String) (position : Nat) : Nat :=
  pieceAt ((words name).map String.toList)
    ((name.toList.take position).filter (!isSeparator ·)).length

theorem wordAt_ne_iff {name : String} {before gap after : List Char} {p c : Char}
    (hname : name.toList = before ++ p :: (gap ++ c :: after)) (hp : ¬isSeparator p = true)
    (hc : ¬isSeparator c = true) (hgap : ∀ g ∈ gap, isSeparator g = true) :
    wordAt name before.length ≠ wordAt name (before.length + gap.length + 1) ↔
      gap ≠ [] ∨ startsWord p c after.head? = true := by
  have hfirst : name.toList.take before.length = before := by
    rw [hname, List.take_left]
  have hsecond : name.toList.take (before.length + gap.length + 1) = before ++ p :: gap := by
    have hfront : name.toList = (before ++ p :: gap) ++ c :: after := by simp [hname]
    rw [hfront]
    exact List.take_left' (by simp [Nat.add_assoc])
  have hnone : gap.filter (!isSeparator ·) = [] := by
    simpa [List.filter_eq_nil_iff] using hgap
  have hplace : ((before ++ p :: gap).filter (!isSeparator ·)).length =
      (before.filter (!isSeparator ·)).length + 1 := by
    rw [List.filter_append, List.filter_cons_of_pos (by simpa using hp), hnone,
      List.length_append, List.length_singleton]
  rw [wordAt, wordAt, map_toList_words, hfirst, hsecond, hplace, hname]
  exact pieceAt_wordsFrom_ne_iff hp hc hgap rfl

theorem startsWord_iff {p c : Char} {next : Option Char} : startsWord p c next = true ↔
    isUppercase c = true ∧ (isLowercase p = true ∨ isAsciiDigit p = true ∨
      isUppercase p = true ∧ ∃ n, next = some n ∧ isLowercase n = true) := by
  simp [startsWord, or_assoc, Option.any_eq_true]

/-- Cutting a name loses nothing but separators and cuts at separators and at changes of case
alone, and reading the name by position never misses it. -/
theorem words_cut (name : String) :
    (∀ word ∈ words name, word ≠ "" ∧ ∀ c ∈ word.toList, ¬isSeparator c = true) ∧
    String.join (words name) = String.ofList (name.toList.filter (!isSeparator ·)) ∧
    (∀ {before gap after p c}, name.toList = before ++ p :: (gap ++ c :: after) →
      ¬isSeparator p = true → ¬isSeparator c = true → (∀ g ∈ gap, isSeparator g = true) →
      (wordAt name before.length ≠ wordAt name (before.length + gap.length + 1) ↔
        gap ≠ [] ∨ isUppercase c = true ∧ (isLowercase p = true ∨ isAsciiDigit p = true ∨
          isUppercase p = true ∧ ∃ n, after.head? = some n ∧ isLowercase n = true))) ∧
    scan? name.toList 0 [] name.toList = some ((words name).map String.toList) := by
  refine ⟨fun word hword => ⟨?_, solid_of_mem_words hword⟩, ?_, ?_, ?_⟩
  · obtain ⟨cs, hcs, rfl⟩ := List.mem_map.1 hword
    intro hempty
    exact ne_nil_of_mem_wordsFrom hcs (String.ofList_eq_empty_iff.1 hempty)
  · rw [← String.toList_inj, String.toList_join, String.toList_ofList, List.flatMap_def,
      map_toList_words, flatten_wordsFrom, List.reverse_nil, List.nil_append]
  · intro before gap after p c hname hp hc hgap
    rw [wordAt_ne_iff hname hp hc hgap, startsWord_iff]
  · rw [map_toList_words]
    exact @scan?_eq_wordsFrom [] [] nofun name.toList

theorem httpServer_cut :
    words "HTTPServer v2X" = ["HTTP", "Server", "v2", "X"] ∧
    wordAt "HTTPServer v2X" 3 ≠ wordAt "HTTPServer v2X" 4 ∧
    wordAt "HTTPServer v2X" 9 ≠ wordAt "HTTPServer v2X" 11 := by
  obtain ⟨_, _, hcut, _⟩ := words_cut "HTTPServer v2X"
  refine ⟨by decide +kernel, ?_, ?_⟩
  · -- the last capital of a row, with a small letter behind it
    refine (@hcut "HTT".toList [] "erver v2X".toList 'P' 'S' (by decide +kernel) (by decide)
      (by decide) nofun).2 (.inr ?_)
    exact ⟨by decide, .inr (.inr ⟨by decide, 'e', by decide +kernel, by decide⟩)⟩
  · have hgap : ∀ g ∈ [' '], isSeparator g = true := List.forall_mem_singleton.2 (by decide)
    exact (@hcut "HTTPServe".toList [' '] "2X".toList 'r' 'v' (by decide +kernel) (by decide)
      (by decide) hgap).2 (.inl (List.cons_ne_nil ' ' []))

end RecordCodec.Naming
