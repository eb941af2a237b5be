import RecordCodec.Proofs.Json.Spelling
import RecordCodec.Proofs.Json.Text

/-!
Documents at the front of streams. The tokens of a document are skipped together, whatever the
document and whatever follows, and they are read as one document: as the document itself when its
objects are in key order, and as the document with its entries put in order otherwise.
-/

namespace RecordCodec

open Token (skipFrom Skips Spells SpellsItems SpellsEntries)

namespace Token

/-! ### Skipping inside a container -/

/-- What skipping leaves. -/
def leftBy (path : Path) (depth : Nat) (ts : List Token) : Except Stop (List Token) :=
  (skipFrom path depth ts).map Subtype.val

/-- Inside a container the tokens are passed over, whatever follows. -/
def PassedOver (ts : List Token) : Prop :=
  ∀ path depth rest, leftBy path (depth + 1) (ts ++ rest) = leftBy path (depth + 1) rest

section

variable {path : Path} {depth next : Nat} {t : Token} {ts us : List Token}

theorem leftBy_keep (h : skipFrom path depth (t :: ts) =
    (skipFrom path next ts).map fun left => ⟨left.1, Nat.lt_succ_of_lt left.2⟩) :
    leftBy path depth (t :: ts) = leftBy path next ts := by
  unfold leftBy
  rw [h]
  cases skipFrom path next ts <;> rfl

theorem PassedOver.nil : PassedOver [] := fun _ _ _ => rfl

theorem PassedOver.append (h : PassedOver ts) (h' : PassedOver us) : PassedOver (ts ++ us) := by
  intro path depth rest
  rw [List.append_assoc, h, h']

theorem PassedOver.key (key : String) (h : PassedOver ts) : PassedOver (.fieldName key :: ts) := by
  intro path depth rest
  rw [← h path depth rest, List.cons_append]
  refine leftBy_keep ?_
  rfl

/-- A container of tokens that are passed over is skipped, and passed over itself. -/
theorem PassedOver.contained (h : PassedOver ts) {opening closing : Token}
    (ho : ∀ path depth rest, leftBy path depth (opening :: rest) = leftBy path (depth + 1) rest)
    (hc : ∀ path rest, leftBy path 1 (closing :: rest) = .ok rest)
    (hk : ∀ path depth rest,
      leftBy path (depth + 2) (closing :: rest) = leftBy path (depth + 1) rest) :
    Skips (opening :: (ts ++ [closing])) ∧ PassedOver (opening :: (ts ++ [closing])) := by
  have hopen : ∀ path depth rest, leftBy path depth (opening :: (ts ++ [closing]) ++ rest) =
      leftBy path (depth + 1) (closing :: rest) := by
    intro path depth rest
    rw [List.cons_append, List.append_assoc, ho, h]
    rfl
  exact ⟨fun path rest => (hopen path 0 rest).trans (hc path rest),
    fun path depth rest => (hopen path (depth + 1) rest).trans (hk path depth rest)⟩

end

mutual

/-- What spells a document is skipped as a whole. -/
theorem Spells.skips_and_passedOver {ts : List Token} {j : Json} :
    Spells ts j → Skips ts ∧ PassedOver ts
  | .null => ⟨fun _ _ => rfl, fun _ _ _ => leftBy_keep rfl⟩
  | .boolean _ => ⟨fun _ _ => rfl, fun _ _ _ => leftBy_keep rfl⟩
  | .string _ => ⟨fun _ _ => rfl, fun _ _ _ => leftBy_keep rfl⟩
  | .number _ => ⟨fun _ _ => rfl, fun _ _ _ => leftBy_keep rfl⟩
  | .array hitems => by
      obtain ⟨us, rfl, hus⟩ := hitems.passedOver
      exact hus.contained (fun _ _ _ => leftBy_keep rfl) (fun _ _ => rfl)
        fun _ _ _ => leftBy_keep rfl
  | .object hentries => by
      obtain ⟨us, rfl, hus⟩ := hentries.passedOver
      exact hus.contained (fun _ _ _ => leftBy_keep rfl) (fun _ _ => rfl)
        fun _ _ _ => leftBy_keep rfl

theorem SpellsItems.passedOver {ts : List Token} {items : List Json} :
    SpellsItems ts items → ∃ us, ts = us ++ [.endArray] ∧ PassedOver us
  | .nil => ⟨[], rfl, .nil⟩
  | .cons hitem hitems => by
      obtain ⟨us, rfl, hus⟩ := hitems.passedOver
      exact ⟨_, (List.append_assoc _ _ _).symm, hitem.skips_and_passedOver.2.append hus⟩

theorem SpellsEntries.passedOver {held entries : List (String × Json)} {ts : List Token} :
    SpellsEntries held ts entries → ∃ us, ts = us ++ [.endObject] ∧ PassedOver us
  | .nil => ⟨[], rfl, .nil⟩
  | @SpellsEntries.cons _ _ key _ _ _ hvalue hentries => by
      obtain ⟨us, rfl, hus⟩ := hentries.passedOver
      refine ⟨.fieldName key :: (_ ++ us), ?_, (hvalue.skips_and_passedOver.2.append hus).key key⟩
      rw [List.cons_append, List.append_assoc]

end

/-! ### Two readings of one stream -/

section

variable {ts ts' rest rest' : List Token}

theorem Skips.eq_of_append (h : Skips ts) (h' : Skips ts') (heq : ts ++ rest = ts' ++ rest') :
    ts = ts' := by
  have hleft := h .empty rest
  rw [heq, h'] at hleft
  obtain rfl := Except.ok.inj hleft
  exact List.append_cancel_right heq

theorem Spells.eq_of_append {j j' : Json} (h : Spells ts j) (h' : Spells ts' j')
    (heq : ts ++ rest = ts' ++ rest') : ts = ts' ∧ j = j' := by
  have hgives := h.gives .empty rest
  rw [heq, Gives, h'.gives] at hgives
  obtain ⟨rfl, rfl⟩ := Prod.mk.inj (Except.ok.inj hgives)
  exact ⟨List.append_cancel_right heq, rfl⟩

/-- An entry at the front of both streams. -/
theorem entry_of_append {key key' : String} {us us' : List Token}
    (h : .fieldName key :: (ts ++ us) ++ rest = .fieldName key' :: (ts' ++ us') ++ rest') :
    key = key' ∧ ts ++ (us ++ rest) = ts' ++ (us' ++ rest') := by
  rw [List.cons_append, List.cons_append, List.append_assoc, List.append_assoc] at h
  obtain ⟨hkey, htail⟩ := List.cons.inj h
  exact ⟨fieldName.inj hkey, htail⟩

end

end Token

namespace Json

/-! ### Rows -/

theorem itemTokens_cons (j : Json) (items : List Json) :
    itemTokens (j :: items) ++ [.endArray] =
      j.tokens ++ (itemTokens items ++ [.endArray]) := by
  rw [itemTokens, List.append_assoc]

theorem entryTokens_cons (p : String × Json) (entries : List (String × Json)) :
    entryTokens (p :: entries) ++ [.endObject] =
      .fieldName p.1 :: (p.2.tokens ++ (entryTokens entries ++ [.endObject])) := by
  rw [entryTokens, List.cons_append, List.append_assoc]

/-- The tokens of every document are skipped together. -/
theorem skips_tokens (j : Json) : Skips j.tokens := j.spells_inOrder.skips_and_passedOver.1

/-- Only the document null is spelled by the token null. -/
theorem eq_null_of_spells {j : Json} (h : Spells j.tokens .null) : j = .null := by
  generalize hts : j.tokens = ts at h
  cases h
  cases j <;> cases hts
  rfl

end Json
end RecordCodec
