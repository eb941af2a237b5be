import RecordCodec.Proofs.Lookup
import RecordCodec.Token.Reading

/-!
What readers take. `Gives` says that a reader succeeds and what it leaves. `Spells` relates tokens
to the document that they spell, entry by entry; reading a document succeeds exactly on a stream
that begins with such tokens, and takes them. The tokens of a document whose objects are in key
order spell it.

Skipping looks at nothing beyond what it takes either: `Skips` says of tokens that they are skipped
whatever follows.
-/

namespace RecordCodec

/-! ### Success -/

section

variable {α : Type} {ts rest : List Token} {r : Except Stop (α × Shorter ts)} {a : α}

/-- The reader succeeds with a result and leaves the rest. -/
def Gives (r : Except Stop (α × Shorter ts)) (a : α) (rest : List Token) : Prop :=
  r.map (fun p => (p.1, p.2.1)) = .ok (a, rest)

theorem gives_iff : Gives r a rest ↔ ∃ h, r = .ok (a, ⟨rest, h⟩) := by
  unfold Gives
  rw [map_eq_ok_iff]
  constructor
  · rintro ⟨⟨b, s, h⟩, hr, heq⟩
    cases heq
    exact ⟨h, hr⟩
  · rintro ⟨h, hr⟩
    exact ⟨_, hr, rfl⟩

theorem gives_of_eq {hlt : rest.length < ts.length} (h : r = .ok (a, ⟨rest, hlt⟩)) :
    Gives r a rest :=
  gives_iff.2 ⟨hlt, h⟩

end

namespace Token

/-- A value may begin with the token. -/
def opensValue : Token → Bool
  | .endObject => false
  | .endArray => false
  | .fieldName _ => false
  | _ => true

mutual

/-- The tokens spell the document. -/
inductive Spells : List Token → Json → Prop
  | null : Spells [.null] .null
  | boolean (b : Bool) : Spells [.boolean b] (.bool b)
  | string (s : String) : Spells [.string s] (.string s)
  | number {literal : String} {n : Numeral} :
      Numeral.ofText? literal = some n → Spells [.number literal] (.number n)
  | array {ts : List Token} {items : List Json} :
      SpellsItems ts items → Spells (.startArray :: ts) (.array items)
  | object {ts : List Token} {entries : List (String × Json)} :
      SpellsEntries [] ts entries → Spells (.startObject :: ts) (.object entries)

/-- The tokens spell the items and the end of an array. -/
inductive SpellsItems : List Token → List Json → Prop
  | nil : SpellsItems [.endArray] []
  | cons {ts us : List Token} {item : Json} {items : List Json} :
      Spells ts item → SpellsItems us items → SpellsItems (ts ++ us) (item :: items)

/-- The tokens spell entries to be added to those held, and the end of an object. -/
inductive SpellsEntries : List (String × Json) → List Token → List (String × Json) → Prop
  | nil {held : List (String × Json)} : SpellsEntries held [.endObject] held
  | cons {held entries : List (String × Json)} {key : String} {ts us : List Token} {value : Json} :
      Spells ts value → SpellsEntries (Entries.put key value held) us entries →
      SpellsEntries held (.fieldName key :: (ts ++ us)) entries

end

theorem Spells.opens {ts : List Token} {j : Json} (h : Spells ts j) :
    ∃ t us, ts = t :: us ∧ t.opensValue = true := by
  cases h <;> exact ⟨_, _, rfl, rfl⟩

/-! ### Spelled documents are read -/

section

variable {path : Path} {ts rest us : List Token}

theorem gives_readItems_cons {item : Json} {items : List Json} {t : Token}
    (ht : t.opensValue = true) (h : Gives (readJson path (t :: ts)) item us)
    (hrest : Gives (readItems path us) items rest) :
    Gives (readItems path (t :: ts)) (item :: items) rest := by
  obtain ⟨h, hitem⟩ := gives_iff.1 h
  obtain ⟨h', hitems⟩ := gives_iff.1 hrest
  refine gives_iff.2 ⟨Nat.lt_trans h' h, ?_⟩
  rw [readItems]
  · rw [hitem]
    simp only [hitems]
  · intro us heq
    obtain rfl := (List.cons.inj heq).1
    cases ht

theorem gives_readEntries_cons {held entries : List (String × Json)} {key : String} {value : Json}
    (h : Gives (readJson path ts) value us)
    (hrest : Gives (readEntries path (Entries.put key value held) us) entries rest) :
    Gives (readEntries path held (.fieldName key :: ts)) entries rest := by
  obtain ⟨h, hvalue⟩ := gives_iff.1 h
  obtain ⟨h', hentries⟩ := gives_iff.1 hrest
  refine gives_iff.2 ⟨Nat.lt_succ_of_lt (Nat.lt_trans h' h), ?_⟩
  rw [readEntries, hvalue]
  simp only [hentries]

end

mutual

/-- Reading takes the tokens that spell a document. -/
theorem Spells.gives {ts : List Token} {j : Json} :
    Spells ts j → ∀ (path : Path) (rest : List Token), Gives (readJson path (ts ++ rest)) j rest
  | .null, path, rest => by
      rw [List.singleton_append, readJson]
      rfl
  | .boolean b, path, rest => by
      rw [List.singleton_append, readJson]
      rfl
  | .string s, path, rest => by
      rw [List.singleton_append, readJson]
      rfl
  | .number hn, path, rest => by
      rw [List.singleton_append, readJson, hn]
      rfl
  | .array hitems, path, rest => by
      obtain ⟨h, hr⟩ := gives_iff.1 (hitems.gives path rest)
      rw [List.cons_append, readJson, hr]
      rfl
  | .object hentries, path, rest => by
      obtain ⟨h, hr⟩ := gives_iff.1 (hentries.gives path rest)
      rw [List.cons_append, readJson, hr]
      rfl

theorem SpellsItems.gives {ts : List Token} {items : List Json} :
    SpellsItems ts items → ∀ (path : Path) (rest : List Token),
      Gives (readItems path (ts ++ rest)) items rest
  | .nil, path, rest => by
      rw [List.singleton_append, readItems]
      rfl
  | .cons hitem hitems, path, rest => by
      have hfirst := hitem.gives path
      have hrest := hitems.gives path rest
      obtain ⟨t, ts', rfl, ht⟩ := hitem.opens
      rw [List.append_assoc]
      exact gives_readItems_cons ht (hfirst _) hrest

theorem SpellsEntries.gives {held entries : List (String × Json)} {ts : List Token} :
    SpellsEntries held ts entries → ∀ (path : Path) (rest : List Token),
      Gives (readEntries path held (ts ++ rest)) entries rest
  | .nil, path, rest => by
      rw [List.singleton_append, readEntries]
      rfl
  | .cons hvalue hentries, path, rest => by
      rw [List.cons_append, List.append_assoc]
      exact gives_readEntries_cons (hvalue.gives path _) (hentries.gives path rest)

end

/-! ### Documents that are read are spelled -/

/-- The stream begins with tokens of which the statement holds. -/
def Taken (P : List Token → Prop) (ts rest : List Token) : Prop :=
  ∃ taken, ts = taken ++ rest ∧ P taken

mutual

theorem spells_of_readJson {path : Path} {ts rest : List Token} {j : Json}
    (h : Gives (readJson path ts) j rest) : Taken (Spells · j) ts rest := by
  obtain ⟨hlt, h⟩ := gives_iff.1 h
  cases ts with
  | nil =>
      rw [readJson] at h
      cases h
  | cons t us =>
      cases t with
      | null =>
          rw [readJson] at h
          cases h
          exact ⟨[.null], rfl, .null⟩
      | boolean b =>
          rw [readJson] at h
          cases h
          exact ⟨[.boolean b], rfl, .boolean b⟩
      | string s =>
          rw [readJson] at h
          cases h
          exact ⟨[.string s], rfl, .string s⟩
      | number literal =>
          rw [readJson] at h
          split at h
          · rename_i n hn
            cases h
            exact ⟨[.number literal], rfl, .number hn⟩
          · cases h
      | startArray =>
          rw [readJson] at h
          split at h
          · cases h
          · rename_i items us' hlt' hitems
            cases h
            obtain ⟨taken, rfl, hspells⟩ := spells_of_readItems (gives_of_eq hitems)
            exact ⟨.startArray :: taken, rfl, .array hspells⟩
      | startObject =>
          rw [readJson] at h
          split at h
          · cases h
          · rename_i entries us' hlt' hentries
            cases h
            obtain ⟨taken, rfl, hspells⟩ := spells_of_readEntries (gives_of_eq hentries)
            exact ⟨.startObject :: taken, rfl, .object hspells⟩
      | _ => simp [readJson] at h
termination_by 2 * ts.length

theorem spells_of_readItems {path : Path} {ts rest : List Token} {items : List Json}
    (h : Gives (readItems path ts) items rest) : Taken (SpellsItems · items) ts rest := by
  obtain ⟨hlt, h⟩ := gives_iff.1 h
  rw [readItems.eq_def] at h
  split at h
  · cases h
    exact ⟨[.endArray], rfl, .nil⟩
  · split at h
    · cases h
    · rename_i item us hus hitem
      split at h
      · cases h
      · rename_i items' us' hus' hitems
        cases h
        obtain ⟨taken, rfl, hspells⟩ := spells_of_readJson (gives_of_eq hitem)
        obtain ⟨taken', rfl, hspells'⟩ := spells_of_readItems (gives_of_eq hitems)
        exact ⟨taken ++ taken', (List.append_assoc _ _ _).symm, .cons hspells hspells'⟩
termination_by 2 * ts.length + 1

theorem spells_of_readEntries {path : Path} {held entries : List (String × Json)}
    {ts rest : List Token} (h : Gives (readEntries path held ts) entries rest) :
    Taken (SpellsEntries held · entries) ts rest := by
  obtain ⟨hlt, h⟩ := gives_iff.1 h
  cases ts with
  | nil =>
      rw [readEntries] at h
      cases h
  | cons t us =>
      cases t with
      | endObject =>
          rw [readEntries] at h
          cases h
          exact ⟨[.endObject], rfl, .nil⟩
      | fieldName key =>
          rw [readEntries] at h
          split at h
          · cases h
          · rename_i value us' hus' hvalue
            split at h
            · cases h
            · rename_i entries' us'' hus'' hentries
              cases h
              obtain ⟨taken, rfl, hspells⟩ := spells_of_readJson (gives_of_eq hvalue)
              obtain ⟨taken', rfl, hspells'⟩ := spells_of_readEntries (gives_of_eq hentries)
              refine ⟨.fieldName key :: (taken ++ taken'), ?_, .cons hspells hspells'⟩
              rw [List.cons_append, List.append_assoc]
      | _ => simp [readEntries] at h
termination_by 2 * ts.length + 1

end

/-! ### Streams out of form -/

/-- Reading ended because the stream is out of form. -/
def OutOfForm (stop : Stop) : Prop :=
  ∃ path fault, stop.error = .malformedStream path fault

theorem outOfForm_malformed (path : Path) (fault : StreamFault) (rest : List Token) :
    OutOfForm (malformed path fault rest) := ⟨path, fault, rfl⟩

mutual

/-- Reading a document fails on streams out of form only. -/
theorem outOfForm_of_readJson {path : Path} {ts : List Token} {stop : Stop}
    (h : readJson path ts = .error stop) : OutOfForm stop := by
  cases ts with
  | nil =>
      rw [readJson] at h
      cases h
      exact outOfForm_malformed _ _ _
  | cons t us =>
      cases t with
      | null | boolean b | string s =>
          rw [readJson] at h
          cases h
      | number literal =>
          rw [readJson] at h
          split at h
          · cases h
          · cases h
            exact outOfForm_malformed _ _ _
      | startArray =>
          rw [readJson] at h
          split at h
          · rename_i hitems
            cases h
            exact outOfForm_of_readItems hitems
          · cases h
      | startObject =>
          rw [readJson] at h
          split at h
          · rename_i hentries
            cases h
            exact outOfForm_of_readEntries hentries
          · cases h
      | _ =>
          rw [readJson] at h
          · cases h
            exact outOfForm_malformed _ _ _
          all_goals exact nofun
termination_by 2 * ts.length

theorem outOfForm_of_readItems {path : Path} {ts : List Token} {stop : Stop}
    (h : readItems path ts = .error stop) : OutOfForm stop := by
  rw [readItems.eq_def] at h
  split at h
  · cases h
  · split at h
    · rename_i hitem
      cases h
      exact outOfForm_of_readJson hitem
    · rename_i item us hus hitem
      split at h
      · rename_i hitems
        cases h
        exact outOfForm_of_readItems hitems
      · cases h
termination_by 2 * ts.length + 1

theorem outOfForm_of_readEntries {path : Path} {held : List (String × Json)} {ts : List Token}
    {stop : Stop} (h : readEntries path held ts = .error stop) : OutOfForm stop := by
  cases ts with
  | nil =>
      rw [readEntries] at h
      cases h
      exact outOfForm_malformed _ _ _
  | cons t us =>
      cases t with
      | endObject =>
          rw [readEntries] at h
          cases h
      | fieldName key =>
          rw [readEntries] at h
          split at h
          · rename_i hvalue
            cases h
            exact outOfForm_of_readJson hvalue
          · rename_i value us' hus hvalue
            split at h
            · rename_i hentries
              cases h
              exact outOfForm_of_readEntries hentries
            · cases h
      | _ =>
          rw [readEntries] at h
          · cases h
            exact outOfForm_malformed _ _ _
          all_goals exact nofun
termination_by 2 * ts.length + 1
decreasing_by
  all_goals first
    | omega
    | (subst_vars; simp only [List.length_cons]; omega)

end

/-! ### Skipping -/

/-- The tokens are skipped, whatever follows. -/
def SkipsFrom (depth : Nat) (ts : List Token) : Prop :=
  ∀ (path : Path) (rest : List Token),
    (skipFrom path depth (ts ++ rest)).map Subtype.val = .ok rest

abbrev Skips (ts : List Token) : Prop := SkipsFrom 0 ts

/-- A token with which skipping comes to its end. -/
theorem skipsFrom_stop {depth : Nat} {t : Token} {us : List Token}
    (h : ∀ (path : Path) (rest : List Token),
      skipFrom path depth (t :: rest) = .ok (.tail t rest)) :
    Taken (SkipsFrom depth) (t :: us) us := by
  refine ⟨[t], rfl, fun path rest => ?_⟩
  rw [List.singleton_append, h]
  rfl

/-- A token after which skipping goes on at another depth: what is skipped from there is skipped
with the token. -/
theorem skipsFrom_keep {depth next : Nat} {t : Token} {us left : List Token}
    (hnext : Taken (SkipsFrom next) us left)
    (h : ∀ (path : Path) (rest : List Token), skipFrom path depth (t :: rest) =
      (skipFrom path next rest).map fun left => ⟨left.1, Nat.lt_succ_of_lt left.2⟩) :
    Taken (SkipsFrom depth) (t :: us) left := by
  obtain ⟨taken, rfl, hskips⟩ := hnext
  refine ⟨t :: taken, rfl, fun path rest => ?_⟩
  obtain ⟨left', hleft', heq⟩ := map_eq_ok_iff.1 (hskips path rest)
  rw [List.cons_append, h, hleft']
  exact congrArg Except.ok heq

theorem skipsFrom_of_skipFrom {path : Path} {depth : Nat} {ts : List Token} {left : Shorter ts}
    (h : skipFrom path depth ts = .ok left) : Taken (SkipsFrom depth) ts left.1 := by
  induction ts generalizing depth with
  | nil => cases h
  | cons t us ih =>
      have keep : ∀ {next : Nat},
          ((skipFrom path next us).map fun left => ⟨left.1, Nat.lt_succ_of_lt left.2⟩) = .ok left →
          (∀ (path : Path) (rest : List Token), skipFrom path depth (t :: rest) =
            (skipFrom path next rest).map fun left => ⟨left.1, Nat.lt_succ_of_lt left.2⟩) →
          Taken (SkipsFrom depth) (t :: us) left.1 := by
        intro next hmore hstep
        obtain ⟨left, hleft, rfl⟩ := map_eq_ok_iff.1 hmore
        exact skipsFrom_keep (ih hleft) hstep
      -- only a container that ends at depth one, or a scalar outside of all, ends skipping
      cases t with
      | startObject => exact keep h fun _ _ => rfl
      | startArray => exact keep h fun _ _ => rfl
      | endObject =>
          cases depth with
          | zero => cases h
          | succ depth =>
              cases depth with
              | zero =>
                  cases h
                  exact skipsFrom_stop fun _ _ => rfl
              | succ depth => exact keep h fun _ _ => rfl
      | endArray =>
          cases depth with
          | zero => cases h
          | succ depth =>
              cases depth with
              | zero =>
                  cases h
                  exact skipsFrom_stop fun _ _ => rfl
              | succ depth => exact keep h fun _ _ => rfl
      | fieldName name =>
          cases depth with
          | zero => cases h
          | succ depth => exact keep h fun _ _ => rfl
      | _ =>
          cases depth with
          | zero =>
              cases h
              exact skipsFrom_stop fun _ _ => rfl
          | succ depth => exact keep h fun _ _ => rfl

theorem outOfForm_of_skipFrom {path : Path} {depth : Nat} {ts : List Token} {stop : Stop}
    (h : skipFrom path depth ts = .error stop) : OutOfForm stop := by
  induction ts generalizing depth with
  | nil =>
      cases h
      exact outOfForm_malformed _ _ _
  | cons t us ih =>
      cases t with
      | startObject | startArray => exact ih (map_eq_error_iff.1 h)
      | endObject | endArray =>
          cases depth with
          | zero =>
              cases h
              exact outOfForm_malformed _ _ _
          | succ depth =>
              cases depth with
              | zero => cases h
              | succ depth => exact ih (map_eq_error_iff.1 h)
      | fieldName name =>
          cases depth with
          | zero =>
              cases h
              exact outOfForm_malformed _ _ _
          | succ depth => exact ih (map_eq_error_iff.1 h)
      | _ =>
          cases depth with
          | zero => cases h
          | succ depth => exact ih (map_eq_error_iff.1 h)

theorem skips_of_skipValue {path : Path} {ts rest : List Token} {hlt : rest.length < ts.length}
    (h : skipValue path ts = .ok ⟨rest, hlt⟩) : Taken Skips ts rest :=
  skipsFrom_of_skipFrom h

end Token
end RecordCodec
