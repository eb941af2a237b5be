import Mathlib.Data.List.Forall2
import Mathlib.Data.List.Perm.Subperm
import RecordCodec.Proofs.Record.Comparison

/-!
Equality of values, part by part. Two lists are equal when their items are, in order; two maps when
they are of one size and every entry of the first has an equal partner in the second; two records
when they agree under every method of their kind, fields that are not set counting as null. Free
documents and scalars are equal when comparing them says so.
-/

namespace RecordCodec

namespace Match

theorem both_eq_true_iff {first second : Match} :
    first.both second = .ok true ↔ first = .ok true ∧ second = .ok true := by
  constructor
  · intro h
    unfold both at h
    split at h
    · exact ⟨rfl, h⟩
    · rename_i hne
      exact absurd h hne
  · rintro ⟨rfl, rfl⟩
    rfl

end Match

theorem Comparison.isEq_eq_true_iff {c : Comparison} : c.isEq = .ok true ↔ c = .ok .eq := by
  rcases c with e | o
  · exact ⟨nofun, nofun⟩
  · cases o with
    | eq => exact ⟨fun _ => rfl, fun _ => rfl⟩
    | _ => exact ⟨nofun, nofun⟩

section

variable {methods : MethodTable}

@[simp] theorem equalValue_null (plan : Plan QualifiedName) (y : Value) :
    equalValue methods .null plan y = .ok y.isNull := rfl

theorem equalValue_scalar {kind : ScalarKind} {x y : Value} (hx : x ≠ .null) (hy : y ≠ .null) :
    equalValue methods x (.scalar kind) y = (compareScalars x y).isEq := by
  cases x with
  | null => exact absurd rfl hx
  | _ =>
      cases y with
      | null => exact absurd rfl hy
      | _ => rfl

theorem equalValue_document {x y : Value} (hx : x ≠ .null) (hy : y ≠ .null) :
    equalValue methods x .document y = Comparison.isEq (x.compareRendered y) := by
  cases x with
  | null => exact absurd rfl hx
  | _ =>
      cases y with
      | null => exact absurd rfl hy
      | _ => rfl

/-! ### Lists -/

theorem matchItems_eq_true_iff {item : Plan QualifiedName} {xs ys : List Value} :
    matchItems item (itemMatchers methods xs) ys = .ok true ↔
      List.Forall₂ (fun x y => equalValue methods x item y = .ok true) xs ys := by
  induction xs generalizing ys with
  | nil =>
      cases ys with
      | nil => exact ⟨fun _ => .nil, fun _ => rfl⟩
      | cons y ys => exact ⟨nofun, nofun⟩
  | cons x xs ih =>
      cases ys with
      | nil => exact ⟨nofun, nofun⟩
      | cons y ys =>
          rw [List.forall₂_cons, ← ih]
          exact Match.both_eq_true_iff

theorem equalValue_list_iff {item : Plan QualifiedName} {xs ys : List Value} :
    equalValue methods (.list xs) (.list item) (.list ys) = .ok true ↔
      List.Forall₂ (fun x y => equalValue methods x item y = .ok true) xs ys := by
  rw [equalValue]
  split
  · exact matchItems_eq_true_iff
  · rename_i hne
    exact ⟨nofun, fun h => absurd h.length_eq hne⟩

/-! ### Maps -/

theorem matchEntries_eq_true_iff {value : Plan QualifiedName} {xs ys : List (String × Value)} :
    matchEntries value ys (entryMatchers methods xs) = .ok true ↔
      ∀ p ∈ xs, ∃ y, Entries.get? p.1 ys = some y ∧ equalValue methods p.2 value y = .ok true := by
  induction xs with
  | nil => exact ⟨fun _ _ hp => absurd hp List.not_mem_nil, fun _ => rfl⟩
  | cons p xs ih =>
      obtain ⟨key, x⟩ := p
      rw [List.forall_mem_cons, ← ih, entryMatchers, matchEntries]
      cases Entries.get? key ys with
      | none =>
          constructor
          · intro h
            cases h
          · rintro ⟨⟨_, hsome, _⟩, _⟩
            cases hsome
      | some y =>
          rw [Match.both_eq_true_iff]
          constructor
          · rintro ⟨hx, hrest⟩
            exact ⟨⟨y, rfl, hx⟩, hrest⟩
          · rintro ⟨⟨_, hsome, hx⟩, hrest⟩
            obtain rfl := Option.some.inj hsome
            exact ⟨hx, hrest⟩

theorem equalValue_map_iff {value : Plan QualifiedName} {xs ys : List (String × Value)} :
    equalValue methods (.map xs) (.map value) (.map ys) = .ok true ↔
      xs.length = ys.length ∧
        ∀ p ∈ xs, ∃ y, Entries.get? p.1 ys = some y ∧
          equalValue methods p.2 value y = .ok true := by
  rw [equalValue]
  split
  · rename_i heq
    rw [matchEntries_eq_true_iff, and_iff_right heq]
  · rename_i hne
    exact ⟨nofun, fun h => absurd h.1 hne⟩

/-! ### Maps in key order -/

/-- Maps of one size, one of which has all keys of the other, have the same keys. -/
theorem Entries.keys_eq_of_subset {xs ys : List (String × Value)} (hx : Entries.Sorted xs)
    (hy : Entries.Sorted ys) (hlength : xs.length = ys.length)
    (h : Entries.keys xs ⊆ Entries.keys ys) : Entries.keys xs = Entries.keys ys := by
  have hxs := Entries.pairwise_keys hx
  have hys := Entries.pairwise_keys hy
  have hperm : (Entries.keys xs).Perm (Entries.keys ys) := by
    apply (List.Nodup.subperm (hxs.imp Std.ne_of_lt) h).perm_of_length_le
    simp [Entries.keys, hlength]
  exact List.Pairwise.eq_of_mem_iff hxs hys fun _ => hperm.mem_iff

/-- Maps in key order are equal when they have the same keys and equal values under each. -/
theorem equalValue_map_iff_keys {value : Plan QualifiedName} {xs ys : List (String × Value)}
    (hx : Entries.Sorted xs) (hy : Entries.Sorted ys) :
    equalValue methods (.map xs) (.map value) (.map ys) = .ok true ↔
      Entries.keys xs = Entries.keys ys ∧ ∀ key,
        equalValue methods (Entries.getD key xs) value (Entries.getD key ys) = .ok true := by
  rw [equalValue_map_iff]
  constructor
  · rintro ⟨hlength, h⟩
    have hsubset : Entries.keys xs ⊆ Entries.keys ys := by
      intro key hkey
      obtain ⟨p, hp, rfl⟩ := List.mem_map.1 hkey
      obtain ⟨y, hget, _⟩ := h p hp
      exact Entries.mem_keys_iff.2 ⟨y, hget⟩
    have hkeys := Entries.keys_eq_of_subset hx hy hlength hsubset
    refine ⟨hkeys, fun key => ?_⟩
    by_cases hkey : key ∈ Entries.keys xs
    · obtain ⟨p, hp, rfl⟩ := List.mem_map.1 hkey
      obtain ⟨y, hget, heq⟩ := h p hp
      rw [Entries.getD, Entries.getD, Entries.get?_of_mem hx hp, hget]
      exact heq
    · rw [getD_of_not_mem hkey, getD_of_not_mem (hkeys ▸ hkey)]
      rfl
  · rintro ⟨hkeys, h⟩
    refine ⟨by simpa [Entries.keys] using congrArg List.length hkeys, fun p hp => ?_⟩
    have hmem : p.1 ∈ Entries.keys xs := List.mem_map_of_mem hp
    rw [hkeys, Entries.mem_keys_iff] at hmem
    obtain ⟨y, hget⟩ := hmem
    have heq := h p.1
    rw [Entries.getD, Entries.getD, Entries.get?_of_mem hx hp, hget] at heq
    exact ⟨y, hget, heq⟩

theorem Entries.keys_eq_iff_forall₂ {xs ys : List (String × Value)} :
    Entries.keys xs = Entries.keys ys ↔ List.Forall₂ (fun p q => p.1 = q.1) xs ys := by
  rw [Entries.keys, Entries.keys, ← List.forall₂_eq_eq_eq, List.forall₂_map_left_iff,
    List.forall₂_map_right_iff]

theorem Entries.getD_of_mem {entries : List (String × Value)} (hs : Entries.Sorted entries)
    {p : String × Value} (hp : p ∈ entries) : Entries.getD p.1 entries = p.2 := by
  rw [Entries.getD, Entries.get?_of_mem hs hp]
  rfl

/-- Maps in key order are equal when their entries are, in order. -/
theorem equalValue_map_iff_forall₂ {value : Plan QualifiedName} {xs ys : List (String × Value)}
    (hx : Entries.Sorted xs) (hy : Entries.Sorted ys) :
    equalValue methods (.map xs) (.map value) (.map ys) = .ok true ↔
      List.Forall₂ (fun p q => p.1 = q.1 ∧ equalValue methods p.2 value q.2 = .ok true) xs ys := by
  rw [equalValue_map_iff_keys hx hy]
  constructor
  · rintro ⟨hkeys, h⟩
    have hsame := Entries.keys_eq_iff_forall₂.1 hkeys
    refine List.forall₂_iff_get.2 ⟨hsame.length_eq, fun i hi hj => ?_⟩
    have hkey := hsame.get hi hj
    have hvalue := h (xs.get ⟨i, hi⟩).1
    rw [Entries.getD_of_mem hx (List.get_mem _ _), hkey,
      Entries.getD_of_mem hy (List.get_mem _ _)] at hvalue
    exact ⟨hkey, hvalue⟩
  · intro h
    have hkeys := Entries.keys_eq_iff_forall₂.2 (h.imp fun _ _ => And.left)
    refine ⟨hkeys, fun key => ?_⟩
    by_cases hkey : key ∈ Entries.keys xs
    · obtain ⟨p, hp, rfl⟩ := List.mem_map.1 hkey
      obtain ⟨i, rfl⟩ := List.get_of_mem hp
      have hj : i.1 < ys.length := h.length_eq ▸ i.2
      obtain ⟨heq, hvalue⟩ := h.get i.2 hj
      rw [Entries.getD_of_mem hx hp, heq, Entries.getD_of_mem hy (List.get_mem _ _)]
      exact hvalue
    · rw [getD_of_not_mem hkey, getD_of_not_mem (hkeys ▸ hkey)]
      rfl

/-! ### Records -/

theorem matcher_getD (key : String) (entries : List (String × Value)) :
    ((Entries.get? key (entryMatchers methods entries)).getD fun _ y => .ok y.isNull) =
      equalValue methods (Entries.getD key entries) := by
  rw [entryMatchers_eq_map, Entries.get?_map (equalValue methods) key, Entries.getD]
  cases Entries.get? key entries with
  | none => rfl
  | some v => rfl

theorem matchMethods_eq_true_iff {ms : List FieldMethod} {xs ys : List (String × Value)} :
    matchMethods (entryMatchers methods xs) ys ms = .ok true ↔
      ∀ m ∈ ms, equalValue methods (Entries.getD m.field xs) m.comparator
        (Entries.getD m.field ys) = .ok true := by
  induction ms with
  | nil => exact ⟨fun _ _ hm => absurd hm List.not_mem_nil, fun _ => rfl⟩
  | cons m ms ih =>
      rw [List.forall_mem_cons, ← ih, matchMethods, Match.both_eq_true_iff, matcher_getD]
      rfl

theorem equalValue_record_iff {name : QualifiedName} {ref : QualifiedName}
    {ms : List FieldMethod} (hm : methods name = some ms) {xs ys : List (String × Value)} :
    equalValue methods (.record name xs) (.record ref) (.record name ys) = .ok true ↔
      ∀ m ∈ ms, equalValue methods (Entries.getD m.field xs) m.comparator
        (Entries.getD m.field ys) = .ok true := by
  rw [equalValue, if_pos rfl, hm]
  exact matchMethods_eq_true_iff

/-- Equality of records is equality of their values. -/
theorem Record.equals_eq_equalValue (a b : Record) (ref : QualifiedName) :
    a.equals methods b = equalValue methods a.toValue (.record ref) b.toValue := rfl

end

end RecordCodec
