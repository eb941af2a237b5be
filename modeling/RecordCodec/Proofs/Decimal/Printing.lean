import RecordCodec.Json.Parser
import RecordCodec.Proofs.Json.Literals
import RecordCodec.Proofs.Json.Text

/-!
Decimals as numbers of a document. A decimal with ASCII digits is written as a number literal
without an exponent, which a document reader takes as that number and the reader of decimals as
that decimal. So nothing is lost on the way through a text, and equal texts mean equal decimals.
-/

namespace RecordCodec

open Text

/-! ### Numbers in documents -/

theorem Numeral.ofChars?_text (n : Numeral) : ofChars? n.text.toList = some (n, []) := by
  obtain ⟨p, hp, hchars⟩ := n.exists_parts
  have hscan := scan?_chars hp
  rw [← hchars] at hscan
  unfold ofChars?
  split
  · rename_i q rest hq
    obtain ⟨rfl, rfl⟩ := Prod.mk.inj (Option.some.inj (hq.symm.trans hscan))
    have htext : String.ofList q.chars = n.text := by rw [← hchars, String.ofList_toList]
    exact congrArg (fun m => some (m, [])) (text_injective htext)
  · rename_i hnone
    rw [hnone] at hscan
    cases hscan

namespace Json

/-- What begins as a number does is read as one. -/
theorem readValue_number {depth : Nat} {cs rest : List Char} {n : Numeral}
    (hhead : ∀ c, cs.head? = some c → c = '-' ∨ isAsciiDigit c = true)
    (h : Numeral.ofChars? cs = some (n, rest)) :
    readValue depth cs = some (.number n, ⟨rest, Numeral.ofChars?_length h⟩) := by
  have other : ∀ {d : Char} {ds : List Char}, d ≠ '-' → isAsciiDigit d = false → cs ≠ d :: ds := by
    rintro d ds hminus hdigit rfl
    rcases hhead d rfl with hd | hd
    · exact hminus hd
    · exact Bool.noConfusion (hdigit.symm.trans hd)
  unfold readValue
  split
  · exact absurd rfl (other (by decide) (by decide))
  · exact absurd rfl (other (by decide) (by decide))
  · exact absurd rfl (other (by decide) (by decide))
  · exact absurd rfl (other (by decide) (by decide))
  · exact absurd rfl (other (by decide) (by decide))
  · exact absurd rfl (other (by decide) (by decide))
  · split
    · rename_i hnone
      rw [h] at hnone
      cases hnone
    · rename_i hsome
      obtain ⟨rfl, rfl⟩ := Prod.mk.inj (Option.some.inj (hsome.symm.trans h))
      rfl

/-- The text of a number is a document, which is that number. -/
theorem parse?_number (n : Numeral) : parse? n.text = some (.number n) := by
  obtain ⟨c, cs, htext, hc⟩ := n.head_text
  have hspace : isSpace c = false := by
    rw [Bool.eq_false_iff]
    intro hs
    simp only [isSpace, Bool.or_eq_true, beq_iff_eq] at hs
    rcases hs with ((rfl | rfl) | rfl) | rfl <;> simp [isAsciiDigit] at hc
  have hskip : skipSpace n.text.toList = n.text.toList := by
    rw [skipSpace, htext, List.dropWhile_cons_of_neg (by simp [hspace])]
  have hchars : Numeral.ofChars? (skipSpace n.text.toList) = some (n, []) :=
    hskip.symm ▸ n.ofChars?_text
  have hhead : ∀ d, (skipSpace n.text.toList).head? = some d →
      d = '-' ∨ isAsciiDigit d = true := by
    intro d hd
    rw [hskip, htext] at hd
    exact Option.some.inj hd ▸ hc
  rw [parse?, parseWithin?, readValue_number hhead hchars]
  rfl

end Json

/-! ### Decimals in documents -/

namespace Decimal

/-- The decimal was read from a text whose digits are ASCII digits, or made from a 64-bit
integer. -/
def OfDigits (d : Decimal) : Prop :=
  (∃ literal : String, (∀ c ∈ literal.toList, isDecimalDigit c = true → isAsciiDigit c = true) ∧
    read literal = .ok d) ∨ ∃ i : Int64, d = ofInt i.toInt

theorem OfDigits.plain {d : Decimal} (h : d.OfDigits) : Plain d := by
  rcases h with ⟨literal, hdigits, hread⟩ | ⟨i, rfl⟩
  · exact plain_of_read_digits hdigits hread
  · exact plain_ofInt _

/-- Literals without an exponent are made of digits, a minus and a point. -/
theorem mem_chars_of_exponent_none {p : Numeral.Parts} (hp : p.WellFormed)
    (hnone : p.exponent = none) {c : Char} (hc : c ∈ p.chars) :
    c = '-' ∨ c = '.' ∨ isAsciiDigit c = true := by
  have hfraction : ∀ c ∈ Numeral.fractionChars p.fraction, c = '.' ∨ isAsciiDigit c = true := by
    unfold Numeral.fractionChars
    split
    · exact nofun
    · exact List.forall_mem_cons.2 ⟨.inl rfl, fun c hc => .inr (hp.fraction_digits c hc)⟩
  rw [p.chars_eq, hnone, Numeral.exponentChars, List.append_nil, List.mem_append,
    List.mem_append] at hc
  rcases hc with hc | hc | hc
  · split at hc
    · exact .inl (List.mem_singleton.1 hc)
    · exact absurd hc List.not_mem_nil
  · exact .inr (.inr (hp.whole_digits c hc))
  · exact .inr (hfraction c hc)

/-- A decimal with ASCII digits can be written; its text is a number literal without an exponent,
which is read as that number and as that decimal. Two such decimals have one text only if they are
equal. -/
theorem text_keepsDecimal {d e : Decimal} (hd : d.OfDigits) (he : e.OfDigits) :
    d.isWritable = true ∧
    (∀ c ∈ d.text.toList, c = '-' ∨ c = '.' ∨ isAsciiDigit c = true) ∧
    (∃ p : Numeral.Parts, p.WellFormed ∧ p.exponent = none ∧ d.text.toList = p.chars) ∧
    (∃ n : Numeral, n.text = d.text ∧ Json.parse? d.text = some (.number n)) ∧
    read d.text = .ok d ∧ (d.text = e.text ↔ d = e) := by
  have hplain := hd.plain
  obtain ⟨p, hp, hnone, hparts⟩ := hplain.exists_parts
  have htext : d.text.toList = p.chars := by rw [text, String.toList_ofList, hparts]
  obtain ⟨n, hn⟩ := hplain.exists_numeral
  refine ⟨isWritable_of_plain hplain, fun c hc => ?_, ⟨p, hp, hnone, htext⟩,
    ⟨n, hn, hn ▸ Json.parse?_number n⟩, read_text hplain, fun h => ?_, congrArg text⟩
  · exact mem_chars_of_exponent_none hp hnone (htext ▸ hc)
  · exact text_injective hplain.normal he.plain.normal (isWritable_of_plain hplain)
      (isWritable_of_plain he.plain) h

/-- `-0.0025` -/
def tiny : Decimal := ⟨true, ['2', '5'], 4⟩

/-- `-250` -/
def round : Decimal := ⟨true, ['2', '5'], -1⟩

theorem text_keepsTiny : tiny.OfDigits ∧ round.OfDigits ∧ tiny.isWritable = true ∧
    (∀ c ∈ tiny.text.toList, c = '-' ∨ c = '.' ∨ isAsciiDigit c = true) ∧
    (∃ p : Numeral.Parts, p.WellFormed ∧ p.exponent = none ∧ tiny.text.toList = p.chars) ∧
    (∃ n : Numeral, n.text = tiny.text ∧ Json.parse? tiny.text = some (.number n)) ∧
    read tiny.text = .ok tiny ∧ (tiny.text = round.text ↔ tiny = round) := by
  have hascii : "-0250e-5".toList.all (fun c => !isDecimalDigit c || isAsciiDigit c) = true := by
    decide +kernel
  have htiny : tiny.OfDigits := by
    refine .inl ⟨"-0250e-5", fun c hc hdigit => ?_, by decide +kernel⟩
    simpa [hdigit] using List.all_eq_true.1 hascii c hc
  have hround : round.OfDigits := .inr ⟨-250, by decide +kernel⟩
  exact ⟨htiny, hround, text_keepsDecimal htiny hround⟩

end Decimal
end RecordCodec
