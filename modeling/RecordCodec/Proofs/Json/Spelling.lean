import RecordCodec.Proofs.Token.Reading

/-!
Documents in key order. Every object of an ordered document has its entries in key order, so that
adding them one by one while reading rebuilds it: the tokens of an ordered document spell it. The
tokens of any other document spell the document with its entries put in order, and nothing but
ordered documents is ever spelled.
-/

namespace RecordCodec

theorem Numeral.ofText?_text (n : Numeral) : ofText? n.text = some n := by
  obtain ⟨p, hread, hchars⟩ := Option.map_eq_some_iff.1 n.normal
  unfold ofText?
  split
  · rename_i q hq
    obtain rfl : p = q := Option.some.inj (hread.symm.trans hq)
    exact congrArg some (text_injective hchars)
  · rename_i hnone
    rw [hread] at hnone
    cases hnone

namespace Json

open Token

/-- Every object in the document has its entries in key order. -/
inductive Ordered : Json → Prop
  | null : Ordered .null
  | bool (b : Bool) : Ordered (.bool b)
  | number (n : Numeral) : Ordered (.number n)
  | string (s : String) : Ordered (.string s)
  | array {items : List Json} : (∀ j ∈ items, Ordered j) → Ordered (.array items)
  | object {entries : List (String × Json)} :
      Entries.Sorted entries → (∀ p ∈ entries, Ordered p.2) → Ordered (.object entries)

theorem spells_itemTokens {items : List Json} (h : ∀ j ∈ items, Spells j.tokens j) :
    SpellsItems (itemTokens items ++ [.endArray]) items := by
  induction items with
  | nil => exact .nil
  | cons j rest ih =>
      obtain ⟨hj, hrest⟩ := List.forall_mem_cons.1 h
      rw [itemTokens, List.append_assoc]
      exact .cons hj (ih hrest)

theorem spells_entryTokens {held entries : List (String × Json)}
    (hs : Entries.Sorted (held ++ entries)) (h : ∀ p ∈ entries, Spells p.2.tokens p.2) :
    SpellsEntries held (entryTokens entries ++ [.endObject]) (held ++ entries) := by
  induction entries generalizing held with
  | nil =>
      rw [List.append_nil]
      exact .nil
  | cons p rest ih =>
      obtain ⟨key, j⟩ := p
      obtain ⟨hj, hrest⟩ := List.forall_mem_cons.1 h
      have hput : Entries.put key j held = held ++ [(key, j)] := by
        refine Entries.put_of_lt fun q hq => ?_
        exact (List.pairwise_append.1 hs).2.2 q hq (key, j) List.mem_cons_self
      have hheld : held ++ (key, j) :: rest = Entries.put key j held ++ rest := by
        rw [hput, List.append_assoc, List.singleton_append]
      rw [hheld] at hs ⊢
      show SpellsEntries held (.fieldName key :: (j.tokens ++ entryTokens rest) ++ [.endObject]) _
      rw [List.cons_append, List.append_assoc]
      exact .cons hj (ih hs hrest)

/-- The tokens of an ordered document spell it. -/
theorem spells_tokens {j : Json} (h : j.Ordered) : Spells j.tokens j := by
  induction h with
  | null => exact .null
  | bool b => exact .boolean b
  | number n => exact .number n.ofText?_text
  | string s => exact .string s
  | array _ ih => exact .array (spells_itemTokens ih)
  | object hs _ ih => exact .object (@spells_entryTokens [] _ hs ih)

/-! ### Putting documents in order -/

mutual

/-- The document with the entries of its objects in key order, the last of those with one key. -/
def inOrder : Json → Json
  | .null => .null
  | .bool b => .bool b
  | .number n => .number n
  | .string s => .string s
  | .array items => .array (itemsInOrder items)
  | .object entries => .object (entriesInOrder [] entries)

def itemsInOrder : List Json → List Json
  | [] => []
  | j :: rest => j.inOrder :: itemsInOrder rest

/-- Entries added to those held, one by one. -/
def entriesInOrder (held : List (String × Json)) : List (String × Json) → List (String × Json)
  | [] => held
  | (key, j) :: rest => entriesInOrder (Entries.put key j.inOrder held) rest

end

mutual

/-- The tokens of a document spell it in order. -/
theorem spells_inOrder : (j : Json) → Spells j.tokens j.inOrder
  | .null => .null
  | .bool b => .boolean b
  | .number n => .number n.ofText?_text
  | .string s => .string s
  | .array items => .array (spells_itemsInOrder items)
  | .object entries => .object (spells_entriesInOrder [] entries)

theorem spells_itemsInOrder : (items : List Json) →
    SpellsItems (itemTokens items ++ [.endArray]) (itemsInOrder items)
  | [] => .nil
  | j :: rest => by
      rw [itemTokens, List.append_assoc]
      exact .cons j.spells_inOrder (spells_itemsInOrder rest)

theorem spells_entriesInOrder (held : List (String × Json)) : (entries : List (String × Json)) →
    SpellsEntries held (entryTokens entries ++ [.endObject]) (entriesInOrder held entries)
  | [] => .nil
  | (key, j) :: rest => by
      rw [entryTokens, List.cons_append, List.append_assoc]
      exact .cons j.spells_inOrder (spells_entriesInOrder (Entries.put key j.inOrder held) rest)

end

end Json

namespace Token

mutual

/-- What is spelled is in order. -/
theorem Spells.ordered {ts : List Token} {j : Json} : Spells ts j → j.Ordered
  | .null => .null
  | .boolean b => .bool b
  | .string s => .string s
  | .number _ => .number _
  | .array hitems => .array hitems.ordered
  | .object hentries => by
      obtain ⟨hsorted, hvalues⟩ := hentries.ordered .nil nofun
      exact .object hsorted hvalues

theorem SpellsItems.ordered {ts : List Token} {items : List Json} :
    SpellsItems ts items → ∀ j ∈ items, j.Ordered
  | .nil => nofun
  | .cons hitem hitems => List.forall_mem_cons.2 ⟨hitem.ordered, hitems.ordered⟩

theorem SpellsEntries.ordered {held entries : List (String × Json)} {ts : List Token} :
    SpellsEntries held ts entries → Entries.Sorted held → (∀ p ∈ held, p.2.Ordered) →
      Entries.Sorted entries ∧ ∀ p ∈ entries, p.2.Ordered
  | .nil, hsorted, hheld => ⟨hsorted, hheld⟩
  | .cons hvalue hentries, hsorted, hheld => by
      refine hentries.ordered (Entries.sorted_put _ _ hsorted) fun p hp => ?_
      rcases Entries.mem_put hp with rfl | hp
      · exact hvalue.ordered
      · exact hheld p hp

end

end Token

/-- A document that putting in order does not change is in order. -/
theorem Json.ordered_of_inOrder {j : Json} (h : j.inOrder = j) : j.Ordered :=
  h ▸ j.spells_inOrder.ordered

end RecordCodec
