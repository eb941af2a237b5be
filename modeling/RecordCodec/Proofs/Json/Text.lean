import RecordCodec.Json.Parser
import RecordCodec.Json.Printer
import RecordCodec.Proofs.Alignment
import RecordCodec.Proofs.Text.Digits
import RecordCodec.Proofs.Token.Reading

/-!
Documents and what they are written as. Neither the tokens nor the text of a document leave a
choice: documents with the same tokens, or with the same text, are the same. Tokens say so
wherever they stand; the text of a number ends only where something else begins, so of text it
holds when a comma or a closing bracket follows.
-/

namespace RecordCodec

open Text (isAsciiDigit)

namespace Json

/-! ### Nested induction -/

@[elab_as_elim]
theorem nestedInduction {motive : Json → Prop} (null : motive .null)
    (bool : ∀ b : Bool, motive (.bool b)) (number : ∀ n : Numeral, motive (.number n))
    (string : ∀ s : String, motive (.string s))
    (array : ∀ items : List Json, (∀ j ∈ items, motive j) → motive (.array items))
    (object : ∀ entries : List (String × Json), (∀ p ∈ entries, motive p.2) →
      motive (.object entries)) (j : Json) : motive j :=
  @Json.rec motive (fun items => ∀ j ∈ items, motive j)
    (fun entries => ∀ p ∈ entries, motive p.2) (fun p => motive p.2)
    null bool number string array object
    (fun _ hj => absurd hj List.not_mem_nil)
    (fun _ _ hj hrest => List.forall_mem_cons.2 ⟨hj, hrest⟩)
    (fun _ hp => absurd hp List.not_mem_nil)
    (fun _ _ hp hrest => List.forall_mem_cons.2 ⟨hp, hrest⟩)
    (fun _ _ hj => hj)
    j

/-! ### Strings -/

theorem hex4?_hex4 {n : Nat} (h : n < 32) :
    hex4? (Nat.digitChar (n / 4096 % 16)) (Nat.digitChar (n / 256 % 16))
      (Nat.digitChar (n / 16 % 16)) (Nat.digitChar (n % 16)) = some n := by
  have hall : ∀ m : Fin 32, hex4? (Nat.digitChar (m.1 / 4096 % 16)) (Nat.digitChar (m.1 / 256 % 16))
      (Nat.digitChar (m.1 / 16 % 16)) (Nat.digitChar (m.1 % 16)) = some m.1 := by decide
  exact hall ⟨n, h⟩

theorem eq_ofNat {c : Char} {n : Nat} (h : c.toNat = n) : c = Char.ofNat n := by
  rw [← h, Char.ofNat_toNat]

/-- An escaped character is read as the character. -/
theorem readString_escapeChar (c : Char) (rest : List Char) :
    readString (escapeChar c ++ rest) = (readString rest).map fun p => (c :: p.1, p.2) := by
  unfold escapeChar
  split_ifs with hq hb h8 h9 h10 h12 h13 h32
  · simp [readString, shortEscape?, hq]
  · simp [readString, shortEscape?, hb]
  · simp [readString, shortEscape?, eq_ofNat h8]
  · simp [readString, shortEscape?, eq_ofNat h9]
  · simp [readString, shortEscape?, eq_ofNat h10]
  · simp [readString, shortEscape?, eq_ofNat h12]
  · simp [readString, shortEscape?, eq_ofNat h13]
  · show readString ('\\' :: 'u' :: Nat.digitChar (c.toNat / 4096 % 16) ::
      Nat.digitChar (c.toNat / 256 % 16) :: Nat.digitChar (c.toNat / 16 % 16) ::
      Nat.digitChar (c.toNat % 16) :: rest) = _
    rw [readString, hex4?_hex4 h32]
    simp only
    rw [if_neg (by omega), if_neg (by omega), Char.ofNat_toNat]
  · rw [List.singleton_append, readString, if_neg h32]
    · exact hq
    · intro _ _ _ _ _ h
      exact absurd h hb
    · intro _ _ h
      exact absurd h hb

/-- A string that is written is read as the string, and what follows is left. -/
theorem readString_escaped (cs rest : List Char) :
    readString (cs.flatMap escapeChar ++ '"' :: rest) = some (cs, rest) := by
  induction cs with
  | nil => simp [readString]
  | cons c cs ih =>
      rw [List.flatMap_cons, List.append_assoc, readString_escapeChar, ih]
      rfl

/-- A string ends at its closing quote, whatever follows. -/
theorem aligned_stringChars {F : List Char → Prop} (s t : String) :
    Aligned F (stringChars s) (stringChars t) (s = t) := by
  intro r r' _ _
  constructor
  · intro h
    have hread := congrArg (fun cs => readString cs.tail) h
    simp only [stringChars, List.cons_append, List.tail_cons, List.append_assoc, readString_escaped,
      Option.some.injEq, Prod.mk.injEq] at hread
    exact ⟨String.toList_injective hread.1, hread.2⟩
  · rintro ⟨rfl, rfl⟩
    rfl

/-! ### Numbers -/

/-- What may follow a value inside a document: a comma, a closing bracket or nothing. -/
def Closes (cs : List Char) : Prop := ∀ c, cs.head? = some c → c = ',' ∨ c = ']' ∨ c = '\x7d'

end Json

namespace Numeral

theorem exists_parts (n : Numeral) :
    ∃ p : Parts, p.WellFormed ∧ n.text.toList = p.chars := by
  obtain ⟨p, hread, htext⟩ := Option.map_eq_some_iff.1 n.normal
  refine ⟨p, wellFormed_of_read? hread, ?_⟩
  rw [← htext, String.toList_ofList]

/-- The characters of number literals. -/
def isMark (c : Char) : Bool :=
  isAsciiDigit c || c == '-' || c == '+' || c == '.' || c == 'e'

theorem isMark_of_digit {c : Char} (h : isAsciiDigit c = true) : isMark c = true := by
  simp [isMark, h]

theorem isMark_of_mem (n : Numeral) : ∀ c ∈ n.text.toList, isMark c = true := by
  obtain ⟨p, hp, hchars⟩ := n.exists_parts
  have hexponent : ∀ c ∈ exponentChars p.exponent, isMark c = true := by
    cases he : p.exponent with
    | none => exact fun c hc => absurd hc List.not_mem_nil
    | some e =>
        obtain ⟨_, hdigits⟩ := hp.exponent_digits e he
        intro c hc
        rcases List.mem_cons.1 hc with rfl | hc
        · rfl
        · rcases List.mem_cons.1 hc with rfl | hc
          · split <;> rfl
          · exact isMark_of_digit (hdigits c hc)
  have hfraction : ∀ c ∈ fractionChars p.fraction, isMark c = true := by
    intro c hc
    unfold fractionChars at hc
    split at hc
    · exact absurd hc List.not_mem_nil
    · rcases List.mem_cons.1 hc with rfl | hc
      · rfl
      · exact isMark_of_digit (hp.fraction_digits c hc)
  rw [hchars, p.chars_eq]
  simp only [List.mem_append]
  rintro c (hc | hc | hc | hc)
  · split at hc <;> simp_all [isMark]
  · exact isMark_of_digit (hp.whole_digits c hc)
  · exact hfraction c hc
  · exact hexponent c hc

/-- A literal begins with a digit or a minus sign. -/
theorem head_text (n : Numeral) :
    ∃ c cs, n.text.toList = c :: cs ∧ (c = '-' ∨ isAsciiDigit c = true) := by
  obtain ⟨p, hp, hchars⟩ := n.exists_parts
  rw [hchars, p.chars_eq]
  cases p.negative with
  | true => exact ⟨'-', _, rfl, .inl rfl⟩
  | false =>
      cases hwhole : p.whole with
      | nil => simpa [hwhole, wholeOk] using hp.whole_ok
      | cons d ds => exact ⟨d, _, rfl, .inr (hp.whole_digits d (by simp [hwhole]))⟩

end Numeral

namespace Json

theorem not_isMark_of_closes {cs : List Char} (h : Closes cs) :
    ∀ c, cs.head? = some c → Numeral.isMark c = false := by
  intro c hc
  rcases h c hc with rfl | rfl | rfl <;> decide

/-- A number ends where something else begins. -/
theorem aligned_number (n m : Numeral) :
    Aligned Closes n.text.toList m.text.toList (n = m) := by
  intro r s hr hs
  constructor
  · intro h
    obtain ⟨hn, hr⟩ := Text.takeWhile_front n.isMark_of_mem (not_isMark_of_closes hr)
    obtain ⟨hm, hs⟩ := Text.takeWhile_front m.isMark_of_mem (not_isMark_of_closes hs)
    rw [h, hm] at hn
    rw [h, hs] at hr
    exact ⟨Numeral.text_injective (String.toList_injective hn.symm), hr.symm⟩
  · rintro ⟨rfl, rfl⟩
    rfl

/-! ### Kinds of documents

The first token and the first character of a document tell its kind. -/

/-- The kind of document that begins with the token. -/
def kindOfToken : Token → String
  | .boolean _ => "boolean"
  | .number _ => "number"
  | .string _ => "string"
  | .startArray => "array"
  | .startObject => "object"
  | _ => "null"

/-- The kind of document that begins with the character. -/
def kindOfChar (c : Char) : String :=
  if c = 'n' then "null"
  else if c = 't' ∨ c = 'f' then "boolean"
  else if c = '"' then "string"
  else if c = '[' then "array"
  else if c = '\x7b' then "object"
  else "number"

theorem first_tokens (j : Json) : ∃ t ts, j.tokens = t :: ts ∧ kindOfToken t = j.typeName := by
  cases j <;> exact ⟨_, _, rfl, rfl⟩

theorem first_chars (j : Json) : ∃ c cs, j.chars = c :: cs ∧ kindOfChar c = j.typeName := by
  cases j with
  | bool b => cases b <;> exact ⟨_, _, rfl, rfl⟩
  | number n =>
      obtain ⟨c, cs, htext, hc⟩ := n.head_text
      refine ⟨c, cs, htext, ?_⟩
      unfold kindOfChar
      split_ifs with hn hb hs ha ho
      · simp [hn, isAsciiDigit] at hc
      · rcases hb with rfl | rfl <;> simp [isAsciiDigit] at hc
      · simp [hs, isAsciiDigit] at hc
      · simp [ha, isAsciiDigit] at hc
      · simp [ho, isAsciiDigit] at hc
      · rfl
  | _ => exact ⟨_, _, rfl, rfl⟩

/-- Documents of different kinds differ in what they begin with. -/
theorem aligned_of_kinds {τ : Type} {F : List τ → Prop} {code : Json → List τ} {kind : τ → String}
    (hfirst : ∀ j, ∃ t ts, code j = t :: ts ∧ kind t = j.typeName) {a b : Json}
    (h : a.typeName ≠ b.typeName) : Aligned F (code a) (code b) (a = b) := by
  obtain ⟨t, ts, ha, hat⟩ := hfirst a
  obtain ⟨u, us, hb, hbu⟩ := hfirst b
  have hne : t ≠ u := by
    rintro rfl
    exact h (hat.symm.trans hbu)
  rw [ha, hb]
  exact (Aligned.of_ne hne).congr (iff_of_false id fun heq => h (congrArg typeName heq))

/-! ### Tokens -/

theorem opens_tokens (j : Json) : ∃ t ts, j.tokens = t :: ts ∧ t.opensValue = true := by
  cases j <;> exact ⟨_, _, rfl, rfl⟩

theorem itemTokens_eq (items : List Json) : itemTokens items = (items.map tokens).flatten := by
  induction items with
  | nil => rfl
  | cons j rest ih => simp [itemTokens, ih]

/-- The tokens of one entry. -/
def entryWord (p : String × Json) : List Token := .fieldName p.1 :: p.2.tokens

theorem entryTokens_eq (entries : List (String × Json)) :
    entryTokens entries = (entries.map entryWord).flatten := by
  induction entries with
  | nil => rfl
  | cons p rest ih => simp [entryTokens, entryWord, ih]

/-- Streams that begin with the tokens of documents are equal when the documents and what follows
them are. -/
theorem aligned_tokens (a b : Json) : Aligned Anything a.tokens b.tokens (a = b) := by
  induction a using nestedInduction generalizing b with
  | null =>
      cases b with
      | null => exact Aligned.nil.cons_self.congr (by simp)
      | _ => exact aligned_of_kinds first_tokens (by simp [typeName])
  | bool x =>
      cases b with
      | bool y => exact Aligned.nil.cons.congr (by simp)
      | _ => exact aligned_of_kinds first_tokens (by simp [typeName])
  | number x =>
      cases b with
      | number y =>
          refine Aligned.nil.cons.congr ?_
          simp only [Token.number.injEq, Json.number.injEq, and_true]
          exact ⟨Numeral.text_injective, congrArg Numeral.text⟩
      | _ => exact aligned_of_kinds first_tokens (by simp [typeName])
  | string x =>
      cases b with
      | string y => exact Aligned.nil.cons.congr (by simp)
      | _ => exact aligned_of_kinds first_tokens (by simp [typeName])
  | array xs ih =>
      cases b with
      | array ys =>
          have hrow : Aligned Anything ((xs.map tokens).flatten ++ [.endArray])
              ((ys.map tokens).flatten ++ [.endArray]) (xs = ys) := by
            apply Aligned.row_map (G := Anything) opens_tokens (by decide) fun _ _ _ => trivial
            exact fun x hx y _ => ih x hx y
          rw [tokens, tokens, itemTokens_eq, itemTokens_eq]
          exact hrow.cons_self.congr (by simp)
      | _ => exact aligned_of_kinds first_tokens (by simp [typeName])
  | object xs ih =>
      cases b with
      | object ys =>
          have hrow : Aligned Anything ((xs.map entryWord).flatten ++ [.endObject])
              ((ys.map entryWord).flatten ++ [.endObject]) (xs = ys) := by
            apply Aligned.row_map (G := Anything) (S := fun t => ∃ key, t = .fieldName key)
              (fun p => ⟨_, _, rfl, p.1, rfl⟩) (by simp) fun _ _ _ => trivial
            intro p hp q _
            exact (ih p hp q.2).cons.congr (by simp [Prod.ext_iff])
          rw [tokens, tokens, entryTokens_eq, entryTokens_eq]
          exact hrow.cons_self.congr (by simp)
      | _ => exact aligned_of_kinds first_tokens (by simp [typeName])

/-! ### Text -/

theorem itemChars_eq (items : List Json) : itemChars items = Aligned.separated ',' chars items := by
  induction items with
  | nil => rfl
  | cons j rest ih =>
      cases rest with
      | nil => simp [itemChars, Aligned.separated]
      | cons k rest => simp [itemChars, ih, Aligned.separated]

/-- The text of one entry. -/
def entryText (p : String × Json) : List Char := stringChars p.1 ++ ':' :: p.2.chars

theorem entryChars_eq (entries : List (String × Json)) :
    entryChars entries = Aligned.separated ',' entryText entries := by
  induction entries with
  | nil => rfl
  | cons p rest ih =>
      cases rest with
      | nil => simp [entryChars, entryText, Aligned.separated]
      | cons q rest => simp [entryChars, entryText, ih, Aligned.separated]

theorem closes_cons {c : Char} (h : c = ',' ∨ c = ']' ∨ c = '\x7d') (cs : List Char) :
    Closes (c :: cs) := by
  intro d hd
  obtain rfl : c = d := by simpa using hd
  exact h

theorem chars_ne_closing (j : Json) : ∃ c cs, j.chars = c :: cs ∧ c ≠ ']' := by
  cases j with
  | bool b => cases b <;> exact ⟨_, _, rfl, by decide⟩
  | number n =>
      obtain ⟨c, cs, htext, hc⟩ := n.head_text
      refine ⟨c, cs, htext, ?_⟩
      rintro rfl
      simp [isAsciiDigit] at hc
  | _ => exact ⟨_, _, rfl, by decide⟩

theorem aligned_entryText {p q : String × Json}
    (h : Aligned Closes p.2.chars q.2.chars (p.2 = q.2)) :
    Aligned Closes (entryText p) (entryText q) (p = q) := by
  have hentry := (aligned_stringChars p.1 q.1 (F := Anything)).append
    (h.cons_self (t := ':')) (fun _ _ => trivial) (fun _ _ => trivial)
  exact hentry.congr Prod.ext_iff.symm

/-- Texts that begin with those of documents are equal when the documents and what follows them
are, provided that a comma, a closing bracket or nothing follows. -/
theorem aligned_chars (a b : Json) : Aligned Closes a.chars b.chars (a = b) := by
  induction a using nestedInduction generalizing b with
  | null =>
      cases b with
      | null => exact (Aligned.nil.cons_self.cons_self.cons_self.cons_self).congr (by simp)
      | _ => exact aligned_of_kinds first_chars (by simp [typeName])
  | bool x =>
      cases b with
      | bool y =>
          cases x <;> cases y
          · exact (Aligned.nil.cons_self.cons_self.cons_self.cons_self.cons_self).congr (by simp)
          · exact (Aligned.of_ne (by decide)).congr (by simp)
          · exact (Aligned.of_ne (by decide)).congr (by simp)
          · exact (Aligned.nil.cons_self.cons_self.cons_self.cons_self).congr (by simp)
      | _ => exact aligned_of_kinds first_chars (by simp [typeName])
  | number x =>
      cases b with
      | number y => exact (aligned_number x y).congr (by simp)
      | _ => exact aligned_of_kinds first_chars (by simp [typeName])
  | string x =>
      cases b with
      | string y => exact (aligned_stringChars x y).congr (by simp)
      | _ => exact aligned_of_kinds first_chars (by simp [typeName])
  | array xs ih =>
      cases b with
      | array ys =>
          have hrow : Aligned Closes (Aligned.separated ',' chars xs ++ [']'])
              (Aligned.separated ',' chars ys ++ [']']) (xs = ys) := by
            apply Aligned.separated_row (by decide) chars_ne_closing _ fun x hx y _ => ih x hx y
            rintro t r (rfl | rfl)
            · exact closes_cons (.inl rfl) r
            · exact closes_cons (.inr (.inl rfl)) r
          rw [chars, chars, itemChars_eq, itemChars_eq]
          exact hrow.cons_self.congr (by simp)
      | _ => exact aligned_of_kinds first_chars (by simp [typeName])
  | object xs ih =>
      cases b with
      | object ys =>
          have hrow : Aligned Closes (Aligned.separated ',' entryText xs ++ ['\x7d'])
              (Aligned.separated ',' entryText ys ++ ['\x7d']) (xs = ys) := by
            apply Aligned.separated_row (by decide) (fun p => ⟨_, _, rfl, by decide⟩) _
              fun p hp q _ => aligned_entryText (ih p hp q.2)
            rintro t r (rfl | rfl)
            · exact closes_cons (.inl rfl) r
            · exact closes_cons (.inr (.inr rfl)) r
          rw [chars, chars, entryChars_eq, entryChars_eq]
          exact hrow.cons_self.congr (by simp)
      | _ => exact aligned_of_kinds first_chars (by simp [typeName])

/-- The text of a document tells the document. -/
theorem text_injective {a b : Json} (h : a.text = b.text) : a = b := by
  have hchars : a.chars = b.chars := String.ofList_injective h
  exact ((aligned_chars a b).eq_iff nofun).1 hchars

end Json

end RecordCodec
