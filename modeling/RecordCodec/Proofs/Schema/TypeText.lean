import Mathlib.Data.List.Basic
import RecordCodec.Error

/-!
The texts of types. A type is written as its leaf with a suffix for every layer, and such a text is
read from its last underscore backwards. Reading accepts exactly the texts that are written, each
as the type it was written for; every other text is refused with the whole of it.
-/

namespace RecordCodec.FieldType

/-- A leaf with any number of layers behind it. -/
inductive Grammatical : String → Prop
  | leaf {token : String} :
      token ∈ ["STRING", "INT", "LONG", "DECIMAL", "BOOLEAN", "STRUCT"] → Grammatical token
  | list {text : String} : Grammatical text → Grammatical (text ++ "_LIST")
  | map {text : String} : Grammatical text → Grammatical (text ++ "_MAP")

theorem grammatical_iff {text : String} :
    Grammatical text ↔ ∃ type : FieldType, text = type.text := by
  constructor
  · intro h
    induction h with
    | @leaf token htoken =>
        simp only [List.mem_cons, List.not_mem_nil, or_false] at htoken
        rcases htoken with rfl | rfl | rfl | rfl | rfl | rfl
        · exact ⟨.scalar .string, rfl⟩
        · exact ⟨.scalar .int, rfl⟩
        · exact ⟨.scalar .long, rfl⟩
        · exact ⟨.scalar .decimal, rfl⟩
        · exact ⟨.scalar .boolean, rfl⟩
        · exact ⟨.struct, rfl⟩
    | list _ ih =>
        obtain ⟨item, rfl⟩ := ih
        exact ⟨.list item, rfl⟩
    | map _ ih =>
        obtain ⟨value, rfl⟩ := ih
        exact ⟨.map value, rfl⟩
  · rintro ⟨type, rfl⟩
    induction type with
    | scalar kind => exact .leaf (by cases kind <;> simp [text, ScalarKind.token])
    | struct => exact .leaf (by simp [text])
    | list item ih => exact .list ih
    | map value ih => exact .map ih

/-! ### The last underscore -/

/-- The words of a text, the last one first. -/
def backwards (cs : List Char) : List String :=
  (((words cs).1 :: (words cs).2).map String.ofList).reverse

theorem words_of_not_mem {cs : List Char} (h : '_' ∉ cs) : words cs = (cs, []) := by
  induction cs with
  | nil => rfl
  | cons c rest ih =>
      rw [List.mem_cons, not_or] at h
      simp [words, ih h.2, Ne.symm h.1]

theorem words_append {front last : List Char} (h : '_' ∉ last) :
    words (front ++ '_' :: last) = ((words front).1, (words front).2 ++ [last]) := by
  induction front with
  | nil => simp [words, words_of_not_mem h]
  | cons c rest ih =>
      simp only [List.cons_append, words, ih]
      split <;> rfl

theorem backwards_of_not_mem {cs : List Char} (h : '_' ∉ cs) :
    backwards cs = [String.ofList cs] := by
  rw [backwards, words_of_not_mem h]
  rfl

theorem backwards_append {front last : List Char} (h : '_' ∉ last) :
    backwards (front ++ '_' :: last) = String.ofList last :: backwards front := by
  rw [backwards, words_append h, backwards]
  simp

theorem backwards_ne_nil (cs : List Char) : backwards cs ≠ [] := by simp [backwards]

/-- A text has no underscore, or it has a last one. -/
theorem underscore_cases (cs : List Char) :
    '_' ∉ cs ∨ ∃ front last, cs = front ++ '_' :: last ∧ '_' ∉ last := by
  by_cases h : '_' ∈ cs
  · obtain ⟨last, front, hcs, hlast⟩ := List.eq_append_cons_of_mem (List.mem_reverse.2 h)
    refine .inr ⟨front.reverse, last.reverse, ?_, by simpa using hlast⟩
    rw [← List.reverse_reverse cs, hcs]
    simp
  · exact .inl h

/-! ### Reading backwards -/

/-- The type that a text names, which may be a part of the whole. -/
def segment (cs : List Char) : Except GrammarFault FieldType :=
  match backwards cs with
  | [] => .error .emptyName
  | last :: before => ofWords? last before

theorem segment_of_not_mem {cs : List Char} (h : '_' ∉ cs) :
    segment cs = ofWord? (String.ofList cs) := by
  rw [segment, backwards_of_not_mem h]
  rfl

/-- The word behind the last underscore names the outermost layer. -/
theorem segment_append {front last : List Char} (h : '_' ∉ last) :
    segment (front ++ '_' :: last) =
      if String.ofList last = "LIST" then (segment front).map .list
      else if String.ofList last = "MAP" then (segment front).map .map
      else if String.ofList last = "" then .error .emptySegment
      else if (ScalarKind.ofToken? (String.ofList last)).isSome ∨ String.ofList last = "STRUCT" then
        .error (.terminalAfterSubtype (String.ofList last))
      else .error (.unknownToken (String.ofList last)) := by
  rw [segment, segment, backwards_append h]
  cases hfront : backwards front with
  | nil => exact absurd hfront (backwards_ne_nil front)
  | cons previous before => rfl

theorem ofText?_eq_segment {text : String} (h : text ≠ "") :
    ofText? text = segment text.toList := if_neg h

theorem ofWord?_eq_ok {word : String} {type : FieldType} (h : ofWord? word = .ok type) :
    word = type.text := by
  unfold ofWord? at h
  split at h
  · cases h
  · split at h
    · rename_i kind hkind
      obtain rfl := Except.ok.inj h
      have htoken := List.find?_some hkind
      exact (of_decide_eq_true htoken).symm
    · split at h
      · rename_i hstruct
        obtain rfl := Except.ok.inj h
        exact hstruct
      · split at h
        · cases h
        · cases h

theorem ofList_underscore (front last : List Char) :
    String.ofList (front ++ '_' :: last) = String.ofList front ++ ("_" ++ String.ofList last) := by
  apply String.toList_injective
  simp

/-- Only a layer is read behind an underscore. -/
theorem segment_append_eq_ok {front last : List Char} {type : FieldType} (hlast : '_' ∉ last)
    (h : segment (front ++ '_' :: last) = .ok type) :
    (String.ofList last = "LIST" ∧ ∃ item, segment front = .ok item ∧ FieldType.list item = type) ∨
      (String.ofList last = "MAP" ∧ ∃ value, segment front = .ok value ∧
        FieldType.map value = type) := by
  rw [segment_append hlast] at h
  split at h
  · rename_i hword
    exact .inl ⟨hword, map_eq_ok_iff.1 h⟩
  · split at h
    · rename_i hword
      exact .inr ⟨hword, map_eq_ok_iff.1 h⟩
    · split at h
      · cases h
      · split at h
        · cases h
        · cases h

/-- A text that is read is the text of the type it is read as. -/
theorem eq_text_of_segment {cs : List Char} {type : FieldType} (h : segment cs = .ok type) :
    String.ofList cs = type.text := by
  rcases underscore_cases cs with hcs | ⟨front, last, rfl, hlast⟩
  · rw [segment_of_not_mem hcs] at h
    exact ofWord?_eq_ok h
  · rcases segment_append_eq_ok hlast h with
      ⟨hword, item, hitem, rfl⟩ | ⟨hword, value, hvalue, rfl⟩
    · rw [ofList_underscore, hword, eq_text_of_segment hitem]
      rfl
    · rw [ofList_underscore, hword, eq_text_of_segment hvalue]
      rfl
termination_by cs.length

/-- The text of a type is read as that type. -/
theorem segment_text (type : FieldType) : segment type.text.toList = .ok type := by
  induction type with
  | scalar kind =>
      rw [text, segment_of_not_mem (by cases kind <;> decide +kernel), String.ofList_toList]
      cases kind <;> decide +kernel
  | struct => decide +kernel
  | list item ih =>
      have hlist : '_' ∉ "LIST".toList := by decide +kernel
      have htext : (FieldType.list item).text.toList = item.text.toList ++ '_' :: "LIST".toList := by
        rw [text, String.toList_append]
        rfl
      rw [htext, segment_append hlist, String.ofList_toList, if_pos rfl, ih]
      rfl
  | map value ih =>
      have hmap : '_' ∉ "MAP".toList := by decide +kernel
      have htext : (FieldType.map value).text.toList = value.text.toList ++ '_' :: "MAP".toList := by
        rw [text, String.toList_append]
        rfl
      rw [htext, segment_append hmap, String.ofList_toList, if_neg (by decide), if_pos rfl, ih]
      rfl

theorem text_ne_empty (type : FieldType) : type.text ≠ "" := by
  intro h
  have hsegment := segment_text type
  rw [h] at hsegment
  revert hsegment
  simp [segment, backwards, words, ofWords?, ofWord?]

/-! ### Types and texts -/

theorem ofText?_eq_ok_iff {text : String} {type : FieldType} :
    ofText? text = .ok type ↔ text = type.text := by
  constructor
  · intro h
    by_cases hempty : text = ""
    · rw [ofText?, if_pos hempty] at h
      cases h
    · rw [ofText?_eq_segment hempty] at h
      rw [← eq_text_of_segment h, String.ofList_toList]
  · rintro rfl
    rw [ofText?_eq_segment type.text_ne_empty, segment_text]

theorem read_eq_ok_iff {text : String} {type : FieldType} :
    read text = .ok type ↔ text = type.text := by
  rw [← ofText?_eq_ok_iff, read]
  cases ofText? text <;> simp

theorem read_eq_error {text : String} (h : ∀ type : FieldType, text ≠ type.text) :
    ∃ fault, read text = .error (.grammar text fault) := by
  cases hread : ofText? text with
  | ok type => exact absurd (ofText?_eq_ok_iff.1 hread) (h type)
  | error fault => exact ⟨fault, by rw [read, hread]⟩

/-- A text is read as a type exactly if it is written for that type. The texts that are written are
a leaf with its layers, and any other text is refused with the whole of it. -/
theorem reads_grammar (text : String) :
    (∀ type : FieldType, read text = .ok type ↔ text = type.text) ∧
    (Grammatical text ↔ ∃ type : FieldType, text = type.text) ∧
    (¬Grammatical text → ∃ fault, read text = .error (.grammar text fault)) := by
  refine ⟨fun type => read_eq_ok_iff, grammatical_iff, fun h => read_eq_error fun type htext => ?_⟩
  exact h (grammatical_iff.2 ⟨type, htext⟩)

example : read "LONG__MAP" = .error (.grammar "LONG__MAP" .emptySegment) := by decide +kernel

end RecordCodec.FieldType
