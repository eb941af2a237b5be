/-!
Keyed entries in key order. Objects, maps and records are lists of entries whose keys ascend
strictly by code point; `put` keeps that order and replaces the value of a key already there.
The order is a predicate beside the list, so that entries can nest inside the values they hold.
-/

namespace RecordCodec.Entries

variable {α β : Type}

/-- The keys ascend strictly. -/
def Sorted (entries : List (String × α)) : Prop :=
  entries.Pairwise fun a b => a.1 < b.1

def get? (key : String) : List (String × α) → Option α
  | [] => none
  | (k, v) :: rest => if k = key then some v else get? key rest

/-- Stores a value under a key, at the key's place in the order. -/
def put (key : String) (value : α) : List (String × α) → List (String × α)
  | [] => [(key, value)]
  | (k, v) :: rest =>
      if key < k then (key, value) :: (k, v) :: rest
      else if key = k then (key, value) :: rest
      else (k, v) :: put key value rest

/-- Collects pairs in any order; of pairs with one key the last counts. -/
def ofList (pairs : List (String × α)) : List (String × α) :=
  pairs.foldl (fun entries p => put p.1 p.2 entries) []

def keys (entries : List (String × α)) : List String := entries.map Prod.fst

/-- The keys of either list, in order and each once. -/
def unionKeys (xs : List (String × α)) (ys : List (String × β)) : List String :=
  keys (ofList ((keys xs ++ keys ys).map fun k => (k, ())))

/-! ### Reading what was put -/

@[simp] theorem get?_nil (key : String) : get? key ([] : List (String × α)) = none := rfl

theorem get?_cons (key k : String) (v : α) (rest : List (String × α)) :
    get? key ((k, v) :: rest) = if k = key then some v else get? key rest := rfl

@[simp] theorem get?_put_self (key : String) (value : α) (entries : List (String × α)) :
    get? key (put key value entries) = some value := by
  induction entries with
  | nil => simp [put, get?]
  | cons p rest ih =>
      obtain ⟨k, v⟩ := p
      unfold put
      split
      · simp [get?]
      · split
        · simp [get?]
        · rename_i _ hne
          simp [get?, Ne.symm hne, ih]

theorem get?_put_of_ne {key other : String} (h : other ≠ key) (value : α)
    (entries : List (String × α)) : get? key (put other value entries) = get? key entries := by
  induction entries with
  | nil => simp [put, get?, h]
  | cons p rest ih =>
      obtain ⟨k, v⟩ := p
      unfold put
      split
      · simp [get?, h]
      · split
        · rename_i _ heq
          subst heq
          simp [get?, h]
        · simp [get?, ih]

theorem get?_map (f : α → β) (key : String) (entries : List (String × α)) :
    get? key (entries.map fun p => (p.1, f p.2)) = (get? key entries).map f := by
  induction entries with
  | nil => rfl
  | cons p rest ih =>
      obtain ⟨k, v⟩ := p
      simp only [List.map_cons, get?]
      split <;> simp_all

/-! ### Keeping the order -/

theorem mem_put {key : String} {value : α} {p : String × α} {entries : List (String × α)}
    (h : p ∈ put key value entries) : p = (key, value) ∨ p ∈ entries := by
  induction entries with
  | nil => simpa [put] using h
  | cons q rest ih =>
      obtain ⟨k, v⟩ := q
      unfold put at h
      split at h
      · simpa using h
      · split at h
        · rcases List.mem_cons.1 h with h | h
          · exact .inl h
          · exact .inr (List.mem_cons_of_mem _ h)
        · rcases List.mem_cons.1 h with h | h
          · exact .inr (h ▸ List.mem_cons_self)
          · rcases ih h with h | h
            · exact .inl h
            · exact .inr (List.mem_cons_of_mem _ h)

theorem sorted_put (key : String) (value : α) {entries : List (String × α)}
    (h : Sorted entries) : Sorted (put key value entries) := by
  induction entries with
  | nil => exact List.pairwise_singleton _ _
  | cons q rest ih =>
      obtain ⟨k, v⟩ := q
      have hp := List.pairwise_cons.1 h
      unfold put
      split
      · rename_i hlt
        refine List.pairwise_cons.2 ⟨?_, h⟩
        intro p hm
        rcases List.mem_cons.1 hm with rfl | hm
        · exact hlt
        · exact String.lt_trans hlt (hp.1 p hm)
      · rename_i hnlt
        split
        · rename_i he
          subst he
          exact List.pairwise_cons.2 ⟨hp.1, hp.2⟩
        · rename_i hne
          refine List.pairwise_cons.2 ⟨?_, ih hp.2⟩
          intro p hm
          rcases mem_put hm with rfl | hm
          · exact Std.lt_of_le_of_ne (Std.not_lt.1 hnlt) (Ne.symm hne)
          · exact hp.1 p hm

theorem sorted_ofList (pairs : List (String × α)) : Sorted (ofList pairs) := by
  suffices h : ∀ entries : List (String × α), Sorted entries →
      Sorted (pairs.foldl (fun entries p => put p.1 p.2 entries) entries) from
    h [] List.Pairwise.nil
  induction pairs with
  | nil => exact fun _ h => h
  | cons p rest ih => exact fun entries h => ih _ (sorted_put p.1 p.2 h)

end RecordCodec.Entries
