import Mathlib.Data.List.Nodup
import RecordCodec.Entries

/-!
Looking things up by key. A list whose keys are all different is searched without loss: every
member is found under its own key, and only then. Entries in key order are determined by what is
found under each key, and collecting them again changes nothing.
-/

namespace RecordCodec

/-! ### Lists with keys -/

/-- With different keys, a list taken from every member is that of the only member that has one. -/
theorem flatMap_of_key {α β κ : Type} {key : α → κ} {xs : List α} (h : (xs.map key).Nodup)
    {x : α} (hx : x ∈ xs) {g : α → List β} (hg : ∀ y ∈ xs, key y ≠ key x → g y = []) :
    xs.flatMap g = g x := by
  induction xs with
  | nil => exact absurd hx List.not_mem_nil
  | cons y rest ih =>
      obtain ⟨hy, hrest⟩ := List.nodup_cons.1 h
      obtain ⟨hgy, hgrest⟩ := List.forall_mem_cons.1 hg
      rw [List.flatMap_cons]
      rcases List.mem_cons.1 hx with rfl | hx
      · have hnil : rest.flatMap g = [] := by
          refine List.flatMap_eq_nil_iff.2 fun z hz => hgrest z hz fun heq => hy ?_
          exact heq ▸ List.mem_map_of_mem hz
        rw [hnil, List.append_nil]
      · have hne : key y ≠ key x := fun heq => hy (heq ▸ List.mem_map_of_mem hx)
        rw [hgy hne, List.nil_append]
        exact ih hrest hx hgrest

section

variable {α κ : Type} [DecidableEq κ] {key : α → κ}

theorem find?_key_of_nodup {xs : List α} (h : (xs.map key).Nodup) {x : α} (hx : x ∈ xs) :
    xs.find? (fun y => key y = key x) = some x := by
  induction xs with
  | nil => exact absurd hx List.not_mem_nil
  | cons y rest ih =>
      obtain ⟨hy, hrest⟩ := List.nodup_cons.1 h
      rcases List.mem_cons.1 hx with rfl | hx
      · simp
      · have hne : key y ≠ key x := fun heq => hy (heq ▸ List.mem_map_of_mem hx)
        rw [List.find?_cons_of_neg (by simpa using hne)]
        exact ih hrest hx

theorem nodup_of_find?_key {xs : List α} (hd : xs.Nodup)
    (h : ∀ x ∈ xs, xs.find? (fun y => key y = key x) = some x) : (xs.map key).Nodup := by
  refine hd.map_on fun x hx y hy heq => ?_
  have hxy := h x hx
  rw [heq, h y hy] at hxy
  exact (Option.some.inj hxy).symm

/-- Each member is found under its own key exactly when the keys are different. -/
theorem find?_key_iff_nodup {xs : List α} (hd : xs.Nodup) :
    (∀ x ∈ xs, xs.find? (fun y => key y = key x) = some x) ↔ (xs.map key).Nodup :=
  ⟨nodup_of_find?_key hd, fun h _ hx => find?_key_of_nodup h hx⟩

end

namespace Entries

variable {α β : Type}

/-! ### Keys -/

theorem get?_eq_none_iff {key : String} {entries : List (String × α)} :
    get? key entries = none ↔ key ∉ keys entries := by
  induction entries with
  | nil => simp [keys]
  | cons p rest ih =>
      obtain ⟨k, v⟩ := p
      rw [get?_cons]
      by_cases h : k = key
      · simp [keys, h]
      · rw [if_neg h, ih]
        simp [keys, Ne.symm h]

theorem mem_keys_iff {key : String} {entries : List (String × α)} :
    key ∈ keys entries ↔ ∃ v, get? key entries = some v := by
  rw [← Option.ne_none_iff_exists', Ne, get?_eq_none_iff, not_not]

theorem mem_of_get? {key : String} {v : α} {entries : List (String × α)}
    (h : get? key entries = some v) : (key, v) ∈ entries := by
  induction entries with
  | nil => cases h
  | cons p rest ih =>
      obtain ⟨k, w⟩ := p
      rw [get?_cons] at h
      split at h
      · rename_i hk
        cases h
        rw [hk]
        exact List.mem_cons_self
      · exact List.mem_cons_of_mem _ (ih h)

theorem mem_keys_put {key k : String} {value : α} {entries : List (String × α)} :
    k ∈ keys (put key value entries) ↔ k = key ∨ k ∈ keys entries := by
  rw [← not_iff_not, ← get?_eq_none_iff]
  by_cases h : key = k
  · simp [h]
  · rw [get?_put_of_ne h, get?_eq_none_iff]
    simp [Ne.symm h]

theorem get?_append (key : String) (xs ys : List (String × α)) :
    get? key (xs ++ ys) = (get? key xs).or (get? key ys) := by
  induction xs with
  | nil => rfl
  | cons p rest ih =>
      obtain ⟨k, v⟩ := p
      rw [List.cons_append, get?_cons, get?_cons]
      split
      · rfl
      · exact ih

/-- Of several values put under one key the last counts. -/
theorem get?_foldl_put (key : String) (pairs held : List (String × α)) :
    get? key (pairs.foldl (fun entries p => put p.1 p.2 entries) held) =
      (get? key pairs.reverse).or (get? key held) := by
  induction pairs generalizing held with
  | nil => rfl
  | cons p rest ih =>
      obtain ⟨k, v⟩ := p
      rw [List.foldl_cons, ih, List.reverse_cons, get?_append, Option.or_assoc]
      congr 1
      by_cases h : k = key
      · simp [h, get?_cons]
      · simp [h, get?_cons, get?_put_of_ne]

theorem get?_reverse {key : String} {pairs : List (String × α)} (h : (keys pairs).Nodup) :
    get? key pairs.reverse = get? key pairs := by
  induction pairs with
  | nil => rfl
  | cons p rest ih =>
      obtain ⟨k, v⟩ := p
      obtain ⟨hk, hrest⟩ := List.nodup_cons.1 h
      rw [List.reverse_cons, get?_append, ih hrest, get?_cons, get?_cons]
      by_cases heq : k = key
      · rw [if_pos heq, get?_eq_none_iff.2 (heq ▸ hk)]
        simp [heq]
      · simp [heq]

/-- Collecting pairs with different keys loses none of them. -/
theorem get?_ofList {key : String} {pairs : List (String × α)} (h : (keys pairs).Nodup) :
    get? key (ofList pairs) = get? key pairs := by
  rw [ofList, get?_foldl_put, get?_reverse h, get?_nil, Option.or_none]

theorem mem_keys_ofList {k : String} {pairs : List (String × α)} :
    k ∈ keys (ofList pairs) ↔ k ∈ keys pairs := by
  suffices h : ∀ held : List (String × α),
      k ∈ keys (pairs.foldl (fun entries p => put p.1 p.2 entries) held) ↔
        k ∈ keys held ∨ k ∈ keys pairs by
    rw [ofList, h []]
    simp [keys]
  induction pairs with
  | nil => simp [keys]
  | cons p rest ih =>
      intro held
      rw [List.foldl_cons, ih, mem_keys_put]
      simp only [keys, List.map_cons, List.mem_cons]
      tauto

theorem mem_unionKeys {k : String} {xs : List (String × α)} {ys : List (String × β)} :
    k ∈ unionKeys xs ys ↔ k ∈ keys xs ∨ k ∈ keys ys := by
  rw [unionKeys, mem_keys_ofList]
  simp [keys]

theorem pairwise_keys {entries : List (String × α)} (h : Sorted entries) :
    (keys entries).Pairwise (· < ·) :=
  List.pairwise_map.2 h

theorem pairwise_unionKeys (xs : List (String × α)) (ys : List (String × β)) :
    (unionKeys xs ys).Pairwise (· < ·) :=
  pairwise_keys (sorted_ofList _)

/-! ### Entries in key order -/

theorem get?_of_lt {key : String} {entries : List (String × α)}
    (h : ∀ p ∈ entries, key < p.1) : get? key entries = none := by
  refine get?_eq_none_iff.2 fun hm => ?_
  obtain ⟨p, hp, rfl⟩ := List.mem_map.1 hm
  exact String.lt_irrefl _ (h p hp)

/-- Entries in key order are determined by what stands under each key. -/
theorem ext_of_sorted {xs ys : List (String × α)} (hx : Sorted xs) (hy : Sorted ys)
    (h : ∀ key, get? key xs = get? key ys) : xs = ys := by
  induction xs generalizing ys with
  | nil =>
      cases ys with
      | nil => rfl
      | cons q ys =>
          have hq := h q.1
          rw [get?_nil, get?_cons, if_pos rfl] at hq
          cases hq
  | cons p xs ih =>
      obtain ⟨hpx, hx'⟩ := List.pairwise_cons.1 hx
      cases ys with
      | nil =>
          have hp := h p.1
          rw [get?_nil, get?_cons, if_pos rfl] at hp
          cases hp
      | cons q ys =>
          obtain ⟨hqy, hy'⟩ := List.pairwise_cons.1 hy
          obtain ⟨k, v⟩ := p
          obtain ⟨l, w⟩ := q
          -- the least key of one side is found on the other, so neither can be less
          have hkl : k = l := by
            by_contra hne
            by_cases hlt : k < l
            · have hk := h k
              rw [get?_cons, if_pos rfl, get?_cons, if_neg (Ne.symm hne),
                get?_of_lt fun p hp => String.lt_trans hlt (hqy p hp)] at hk
              cases hk
            · have hlt : l < k := Std.lt_of_le_of_ne (Std.not_lt.1 hlt) (Ne.symm hne)
              have hl := h l
              rw [get?_cons, if_neg hne, get?_cons, if_pos rfl,
                get?_of_lt fun p hp => String.lt_trans hlt (hpx p hp)] at hl
              cases hl
          subst hkl
          have hv := h k
          rw [get?_cons, if_pos rfl, get?_cons, if_pos rfl] at hv
          cases hv
          refine congrArg _ (ih hx' hy' fun key => ?_)
          -- below the first entries nothing stands under their key any more
          have hkey := h key
          rw [get?_cons, get?_cons] at hkey
          split at hkey
          · rename_i heq
            subst heq
            rw [get?_of_lt hpx, get?_of_lt hqy]
          · exact hkey

theorem put_of_lt {key : String} {value : α} {entries : List (String × α)}
    (h : ∀ p ∈ entries, p.1 < key) : put key value entries = entries ++ [(key, value)] := by
  induction entries with
  | nil => rfl
  | cons p rest ih =>
      obtain ⟨k, v⟩ := p
      have hk : k < key := h (k, v) List.mem_cons_self
      rw [put, if_neg (Std.not_lt.2 (Std.le_of_lt hk)), if_neg (Ne.symm (Std.ne_of_lt hk)),
        ih fun p hp => h p (List.mem_cons_of_mem _ hp), List.cons_append]

theorem get?_of_mem {p : String × α} {entries : List (String × α)} (hs : Sorted entries)
    (h : p ∈ entries) : get? p.1 entries = some p.2 := by
  induction entries with
  | nil => exact absurd h List.not_mem_nil
  | cons q rest ih =>
      obtain ⟨hq, hrest⟩ := List.pairwise_cons.1 hs
      rcases List.mem_cons.1 h with rfl | h
      · rw [get?_cons, if_pos rfl]
      · have hne : q.1 ≠ p.1 := Std.ne_of_lt (hq p h)
        rw [get?_cons, if_neg hne]
        exact ih hrest h

/-- Storing what is there changes nothing. -/
theorem put_of_get? {key : String} {v : α} {entries : List (String × α)} (hs : Sorted entries)
    (h : get? key entries = some v) : put key v entries = entries := by
  refine ext_of_sorted (sorted_put _ _ hs) hs fun other => ?_
  by_cases heq : key = other
  · rw [← heq, get?_put_self, h]
  · rw [get?_put_of_ne heq]

end Entries
end RecordCodec
