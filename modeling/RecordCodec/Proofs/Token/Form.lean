import RecordCodec.Proofs.Json.Spelling

/-!
The form of one value. Tokens are in the form of a value when they nest as values do: a null or a
scalar, an array of values, or an object of keys with their values. Which number literals and which
rows of keys are allowed is a parameter. With every row of keys and the literals of numbers, these
are the tokens that spell a document, hence those that reading takes.
-/

namespace RecordCodec.Token

/-- The tokens of one entry of an object. -/
def entry (p : String × List Token) : List Token := .fieldName p.1 :: p.2

/-- The tokens nest as one value does, with number literals and rows of keys that are allowed. -/
inductive Formed (literals : String → Prop) (rows : List String → Prop) : List Token → Prop
  | null : Formed literals rows [.null]
  | boolean (b : Bool) : Formed literals rows [.boolean b]
  | string (s : String) : Formed literals rows [.string s]
  | number {literal : String} : literals literal → Formed literals rows [.number literal]
  | array {items : List (List Token)} :
      (∀ ts ∈ items, Formed literals rows ts) →
      Formed literals rows (.startArray :: (items.flatten ++ [.endArray]))
  | object {entries : List (String × List Token)} :
      rows (entries.map Prod.fst) → (∀ p ∈ entries, Formed literals rows p.2) →
      Formed literals rows (.startObject :: (entries.flatMap entry ++ [.endObject]))

/-- The form of a value, whatever the literals and the keys. -/
abbrev Whole : List Token → Prop := Formed (fun _ => True) (fun _ => True)

/-- The literal is read as a number. -/
def Readable (literal : String) : Prop := ∃ n, Numeral.ofText? literal = some n

/-- The form of a value with literals of numbers. -/
abbrev Legible : List Token → Prop := Formed Readable (fun _ => True)

/-! ### The tokens that spell documents -/

mutual

theorem Spells.legible {ts : List Token} {j : Json} : Spells ts j → Legible ts
  | .null => .null
  | .boolean b => .boolean b
  | .string s => .string s
  | .number hn => .number ⟨_, hn⟩
  | .array hitems => by
      obtain ⟨items, rfl, h⟩ := hitems.legible
      exact .array h
  | .object hentries => by
      obtain ⟨entries, rfl, h⟩ := hentries.legible
      exact .object trivial h

theorem SpellsItems.legible {ts : List Token} {items : List Json} :
    SpellsItems ts items → ∃ tss : List (List Token),
      ts = tss.flatten ++ [.endArray] ∧ ∀ ts ∈ tss, Legible ts
  | .nil => ⟨[], rfl, nofun⟩
  | .cons hitem hitems => by
      obtain ⟨tss, rfl, h⟩ := hitems.legible
      exact ⟨_ :: tss, (List.append_assoc _ _ _).symm, List.forall_mem_cons.2 ⟨hitem.legible, h⟩⟩

theorem SpellsEntries.legible {held entries : List (String × Json)} {ts : List Token} :
    SpellsEntries held ts entries → ∃ pairs : List (String × List Token),
      ts = pairs.flatMap entry ++ [.endObject] ∧ ∀ p ∈ pairs, Legible p.2
  | .nil => ⟨[], rfl, nofun⟩
  | @SpellsEntries.cons _ _ key ts _ _ hvalue hentries => by
      obtain ⟨pairs, rfl, h⟩ := hentries.legible
      refine ⟨(key, ts) :: pairs, ?_, List.forall_mem_cons.2 ⟨hvalue.legible, h⟩⟩
      rw [List.flatMap_cons, List.append_assoc]
      rfl

end

theorem exists_spellsItems {tss : List (List Token)} (h : ∀ ts ∈ tss, ∃ j, Spells ts j) :
    ∃ items, SpellsItems (tss.flatten ++ [.endArray]) items := by
  induction tss with
  | nil => exact ⟨[], .nil⟩
  | cons ts tss ih =>
      obtain ⟨⟨j, hj⟩, hrest⟩ := List.forall_mem_cons.1 h
      obtain ⟨items, hitems⟩ := ih hrest
      rw [List.flatten_cons, List.append_assoc]
      exact ⟨j :: items, .cons hj hitems⟩

theorem exists_spellsEntries {pairs : List (String × List Token)}
    (h : ∀ p ∈ pairs, ∃ j, Spells p.2 j) (held : List (String × Json)) :
    ∃ entries, SpellsEntries held (pairs.flatMap entry ++ [.endObject]) entries := by
  induction pairs generalizing held with
  | nil => exact ⟨held, .nil⟩
  | cons p pairs ih =>
      obtain ⟨⟨j, hj⟩, hrest⟩ := List.forall_mem_cons.1 h
      obtain ⟨entries, hentries⟩ := ih hrest (Entries.put p.1 j held)
      rw [List.flatMap_cons, List.append_assoc]
      exact ⟨entries, .cons hj hentries⟩

theorem Legible.spells {ts : List Token} (h : Legible ts) : ∃ j, Spells ts j := by
  induction h with
  | null => exact ⟨_, .null⟩
  | boolean b => exact ⟨_, .boolean b⟩
  | string s => exact ⟨_, .string s⟩
  | number hliteral =>
      obtain ⟨n, hn⟩ := hliteral
      exact ⟨_, .number hn⟩
  | array _ ih =>
      obtain ⟨items, hitems⟩ := exists_spellsItems ih
      exact ⟨_, .array hitems⟩
  | object _ _ ih =>
      obtain ⟨entries, hentries⟩ := exists_spellsEntries ih []
      exact ⟨_, .object hentries⟩

/-- Reading a document takes tokens in the form of one value with literals of numbers. -/
theorem exists_gives_readJson_iff {path : Path} {ts rest : List Token} :
    (∃ j, Gives (readJson path ts) j rest) ↔ Taken Legible ts rest := by
  constructor
  · rintro ⟨j, h⟩
    obtain ⟨taken, rfl, hspells⟩ := spells_of_readJson h
    exact ⟨taken, rfl, hspells.legible⟩
  · rintro ⟨taken, rfl, h⟩
    obtain ⟨j, hj⟩ := h.spells
    exact ⟨j, hj.gives path rest⟩

end RecordCodec.Token
