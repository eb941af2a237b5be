import RecordCodec.Proofs.Json.Stream
import RecordCodec.Proofs.Token.Form

/-!
Documents and their tokens. Reading the tokens of an ordered document gives the document back,
whatever follows. Conversely tokens in normal form, with ascending keys and number literals as
numbers are printed, are the tokens of exactly one ordered document, so what reading has taken is
the tokens of the document that was read if and only if it is in normal form.
-/

namespace RecordCodec

open Token (Formed Spells entry readJson toJson)

namespace Token

/-- The literal is a number as it is printed. -/
def Printed (literal : String) : Prop := ∃ n : Numeral, n.text = literal

/-- The form of a value whose objects have ascending keys and whose numbers are as printed. -/
abbrev InNormalForm : List Token → Prop := Formed Printed (·.Pairwise (· < ·))

end Token

open Token (InNormalForm)

/-- Members of which each is an image of something fit are the images of a fit list. -/
theorem exists_map_eq {α β : Type} {P : α → Prop} {f : α → β} {ys : List β}
    (h : ∀ y ∈ ys, ∃ x, P x ∧ f x = y) : ∃ xs : List α, (∀ x ∈ xs, P x) ∧ xs.map f = ys := by
  induction ys with
  | nil => exact ⟨[], nofun, rfl⟩
  | cons y ys ih =>
      obtain ⟨⟨x, hx, rfl⟩, hrest⟩ := List.forall_mem_cons.1 h
      obtain ⟨xs, hxs, rfl⟩ := ih hrest
      exact ⟨x :: xs, List.forall_mem_cons.2 ⟨hx, hxs⟩, rfl⟩

namespace Json

/-! ### Normal form -/

/-- The entry with its value as tokens. -/
def entryOf (p : String × Json) : String × List Token := (p.1, p.2.tokens)

theorem tokens_array (items : List Json) :
    (Json.array items).tokens = .startArray :: ((items.map tokens).flatten ++ [.endArray]) := by
  rw [tokens, itemTokens_eq]

theorem tokens_object (entries : List (String × Json)) :
    (Json.object entries).tokens =
      .startObject :: ((entries.map entryOf).flatMap entry ++ [.endObject]) := by
  have hwords : entries.map entryWord = (entries.map entryOf).map entry := by
    rw [List.map_map]
    rfl
  rw [tokens, entryTokens_eq, hwords, List.flatMap_def]

theorem keys_map_entryOf (entries : List (String × Json)) :
    (entries.map entryOf).map Prod.fst = Entries.keys entries := by
  rw [List.map_map]
  rfl

/-- The tokens of an ordered document are in normal form. -/
theorem Ordered.inNormalForm {j : Json} (h : j.Ordered) : InNormalForm j.tokens := by
  induction h with
  | null => exact .null
  | bool b => exact .boolean b
  | number n => exact .number ⟨n, rfl⟩
  | string s => exact .string s
  | array _ ih =>
      rw [tokens_array]
      exact .array (List.forall_mem_map.2 ih)
  | object hsorted _ ih =>
      rw [tokens_object]
      refine .object ?_ (List.forall_mem_map.2 ih)
      rw [keys_map_entryOf]
      exact Entries.pairwise_keys hsorted

/-- Tokens in normal form are those of an ordered document. -/
theorem exists_of_inNormalForm {ts : List Token} (h : InNormalForm ts) :
    ∃ j : Json, j.Ordered ∧ j.tokens = ts := by
  induction h with
  | null => exact ⟨_, .null, rfl⟩
  | boolean b => exact ⟨_, .bool b, rfl⟩
  | string s => exact ⟨_, .string s, rfl⟩
  | number hliteral =>
      obtain ⟨n, rfl⟩ := hliteral
      exact ⟨_, .number n, rfl⟩
  | array _ ih =>
      obtain ⟨items, hitems, rfl⟩ := exists_map_eq ih
      exact ⟨_, .array hitems, tokens_array items⟩
  | @object entries hrow _ ih =>
      have hentries : ∀ q ∈ entries, ∃ p : String × Json, p.2.Ordered ∧ entryOf p = q := by
        intro q hq
        obtain ⟨j, hj, htokens⟩ := ih q hq
        exact ⟨(q.1, j), hj, Prod.ext rfl htokens⟩
      obtain ⟨entries, hordered, rfl⟩ := exists_map_eq hentries
      rw [keys_map_entryOf] at hrow
      exact ⟨_, .object (List.pairwise_map.1 hrow) hordered, tokens_object entries⟩

/-- Tokens that spell a document are its own tokens exactly when they are in normal form. -/
theorem inNormalForm_iff_of_spells {ts : List Token} {j : Json} (h : Spells ts j) :
    InNormalForm ts ↔ ts = j.tokens := by
  constructor
  · intro hnormal
    obtain ⟨j', hj', rfl⟩ := exists_of_inNormalForm hnormal
    have heq : j'.tokens ++ [] = j'.tokens ++ [] := rfl
    obtain ⟨-, rfl⟩ := h.eq_of_append (spells_tokens hj') heq
    rfl
  · rintro rfl
    exact h.ordered.inNormalForm

/-! ### There and back -/

/-- Reading and the tokens of documents are inverse to each other. -/
structure TokensLossless (path : Path) : Prop where
  /-- Reading gives ordered documents back and leaves exactly what follows, and no others. -/
  read : ∀ (j : Json) (rest : List Token),
    Gives (readJson path (j.tokens ++ rest)) j rest ↔ j.Ordered
  restored : ∀ (j : Json) (rest : List Token), j.Ordered → toJson (j.tokens ++ rest) = .ok j
  /-- The tokens taken are those of the document exactly when they are in normal form. -/
  taken : ∀ (ts : List Token) (j : Json) (rest : List Token), Gives (readJson path ts) j rest →
    ∃ taken, ts = taken ++ rest ∧ (InNormalForm taken ↔ taken = j.tokens)

theorem gives_readJson_tokens_iff {path : Path} {j : Json} {rest : List Token} :
    Gives (readJson path (j.tokens ++ rest)) j rest ↔ j.Ordered := by
  constructor
  · intro h
    obtain ⟨taken, _, hspells⟩ := Token.spells_of_readJson h
    exact hspells.ordered
  · intro h
    exact (spells_tokens h).gives path rest

theorem tokens_lossless (path : Path) : TokensLossless path where
  read _ _ := gives_readJson_tokens_iff
  restored j rest h := by
    have hgives : Gives (readJson .empty (j.tokens ++ rest)) j rest :=
      gives_readJson_tokens_iff.2 h
    obtain ⟨_, hread⟩ := gives_iff.1 hgives
    rw [toJson, hread]
  taken ts j rest h := by
    obtain ⟨taken, rfl, hspells⟩ := Token.spells_of_readJson h
    exact ⟨taken, rfl, inNormalForm_iff_of_spells hspells⟩

/-- Nested rows and objects, with a number. -/
def crate : Json :=
  .object [("items", .array [.object [("k", .number ⟨"1.5", by decide +kernel⟩)], .array []]),
    ("name", .string "x")]

theorem crate_ordered : crate.Ordered := ordered_of_inOrder (by decide +kernel)

theorem crate_lossless :
    Gives (readJson .empty (crate.tokens ++ [.string "tail"])) crate [.string "tail"] ∧
      toJson (crate.tokens ++ [.string "tail"]) = .ok crate ∧
      ∃ taken, crate.tokens ++ [.string "tail"] = taken ++ [.string "tail"] ∧
        (InNormalForm taken ↔ taken = crate.tokens) := by
  have hread := ((tokens_lossless .empty).read crate [.string "tail"]).2 crate_ordered
  exact ⟨hread, (tokens_lossless .empty).restored _ _ crate_ordered,
    (tokens_lossless .empty).taken _ _ _ hread⟩

end Json
end RecordCodec
