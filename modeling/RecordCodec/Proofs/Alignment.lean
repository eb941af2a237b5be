import Mathlib.Data.List.Forall2

/-!
Words at the front of streams. Two words are aligned on a property when streams that begin with
them are equal exactly if the property holds and what follows the words is equal. A code whose
words are aligned on the equality of what they stand for can be read in one way only, also from the
front of a longer stream. Some words end only where something that cannot belong to them follows,
so what may follow is a parameter.
-/

namespace RecordCodec

section

variable {τ : Type}

/-- Streams that begin with `w` and with `v`, and go on as they may, are equal exactly when `P`
holds and what follows is equal. -/
def Aligned (Follows : List τ → Prop) (w v : List τ) (P : Prop) : Prop :=
  ∀ r s, Follows r → Follows s → (w ++ r = v ++ s ↔ P ∧ r = s)

/-- What follows does not matter. -/
abbrev Anything : List τ → Prop := fun _ => True

namespace Aligned

variable {F G : List τ → Prop} {w v w' v' : List τ} {P Q : Prop} {t u : τ}

theorem congr (h : Aligned F w v P) (hPQ : P ↔ Q) : Aligned F w v Q := by
  intro r s hr hs
  rw [h r s hr hs, hPQ]

theorem eq_iff (h : Aligned F w v P) (hnil : F []) : w = v ↔ P := by
  simpa using h [] [] hnil hnil

theorem nil : Aligned F [] [] True := by
  intro r s _ _
  simp

theorem cons (h : Aligned F w v P) : Aligned F (t :: w) (u :: v) (t = u ∧ P) := by
  intro r s hr hs
  rw [List.cons_append, List.cons_append, List.cons_eq_cons, h r s hr hs, and_assoc]

theorem cons_self (h : Aligned F w v P) : Aligned F (t :: w) (t :: v) P :=
  h.cons.congr (and_iff_right rfl)

theorem of_ne (h : t ≠ u) : Aligned F (t :: w) (u :: v) False := by
  intro r s _ _
  simp [h]

theorem append (h : Aligned G w v P) (h' : Aligned F w' v' Q) (hw : ∀ r, F r → G (w' ++ r))
    (hv : ∀ r, F r → G (v' ++ r)) : Aligned F (w ++ w') (v ++ v') (P ∧ Q) := by
  intro r s hr hs
  rw [List.append_assoc, List.append_assoc, h _ _ (hw r hr) (hv s hs), h' r s hr hs, and_assoc]

/-! ### Rows of words

A row of words ends at a symbol that begins none of them. -/

variable {α : Type} {Code : α → List τ → Prop} {R : α → α → Prop} {S : τ → Prop} {stop : τ}

/-- The first symbol of a row is one that starts a word or the one that ends the row. -/
theorem head_row (hstart : ∀ x w, Code x w → ∃ t w', w = t :: w' ∧ S t) {xs : List α}
    {ws : List (List τ)} (hws : List.Forall₂ Code xs ws) :
    ∃ t w, ws.flatten ++ [stop] = t :: w ∧ (S t ∨ t = stop) := by
  cases hws with
  | nil => exact ⟨stop, [], rfl, .inr rfl⟩
  | cons hw _ =>
      obtain ⟨t, w', rfl, ht⟩ := hstart _ _ hw
      exact ⟨t, _, rfl, .inl ht⟩

/-- Rows of words are aligned word by word. -/
theorem row (hstart : ∀ x w, Code x w → ∃ t w', w = t :: w' ∧ S t) (hstop : ¬ S stop)
    (hfollow : ∀ t r, S t ∨ t = stop → G (t :: r)) {xs ys : List α} {ws vs : List (List τ)}
    (hws : List.Forall₂ Code xs ws) (hvs : List.Forall₂ Code ys vs)
    (h : ∀ x ∈ xs, ∀ y ∈ ys, ∀ w v, Code x w → Code y v → Aligned G w v (R x y)) :
    Aligned F (ws.flatten ++ [stop]) (vs.flatten ++ [stop]) (List.Forall₂ R xs ys) := by
  have hgo : ∀ {zs : List α} {us : List (List τ)}, List.Forall₂ Code zs us →
      ∀ r, G (us.flatten ++ [stop] ++ r) := by
    intro zs us hus r
    obtain ⟨t, w, heq, ht⟩ := head_row hstart hus
    rw [heq]
    exact hfollow t _ ht
  have hdiffer : ∀ x w, Code x w → ∃ t w', w = t :: w' ∧ t ≠ stop := by
    intro x w hw
    obtain ⟨t, w', rfl, ht⟩ := hstart x w hw
    exact ⟨t, w', rfl, fun heq => hstop (heq ▸ ht)⟩
  induction hws generalizing ys vs with
  | nil =>
      cases hvs with
      | nil => exact nil.cons_self.congr (by simp)
      | cons hv _ =>
          obtain ⟨t, v', rfl, ht⟩ := hdiffer _ _ hv
          exact (of_ne (Ne.symm ht)).congr (by simp)
  | cons hw hws ih =>
      cases hvs with
      | nil =>
          obtain ⟨t, w', rfl, ht⟩ := hdiffer _ _ hw
          exact (of_ne ht).congr (by simp)
      | cons hv hvs =>
          have hrest := ih hvs fun x hx y hy =>
            h x (List.mem_cons_of_mem _ hx) y (List.mem_cons_of_mem _ hy)
          have hfirst := h _ List.mem_cons_self _ List.mem_cons_self _ _ hw hv
          rw [List.forall₂_cons, List.flatten_cons, List.flatten_cons, List.append_assoc,
            List.append_assoc]
          exact hfirst.append hrest (fun r _ => hgo hws r) (fun r _ => hgo hvs r)

/-- A row whose words are a function of what they stand for tells what it is made from. -/
theorem row_map {code : α → List τ} (hstart : ∀ x, ∃ t w, code x = t :: w ∧ S t)
    (hstop : ¬ S stop) (hfollow : ∀ t r, S t ∨ t = stop → G (t :: r)) {xs ys : List α}
    (h : ∀ x ∈ xs, ∀ y ∈ ys, Aligned G (code x) (code y) (x = y)) :
    Aligned F ((xs.map code).flatten ++ [stop]) ((ys.map code).flatten ++ [stop]) (xs = ys) := by
  have hcodes : ∀ zs : List α, List.Forall₂ (fun x w => w = code x) zs (zs.map code) := by
    intro zs
    simp [List.forall₂_map_right_iff, List.forall₂_same]
  have hrow : Aligned F ((xs.map code).flatten ++ [stop]) ((ys.map code).flatten ++ [stop])
      (List.Forall₂ (· = ·) xs ys) := by
    apply row _ hstop hfollow (hcodes xs) (hcodes ys)
    · rintro x hx y hy w v rfl rfl
      exact h x hx y hy
    · rintro x w rfl
      exact hstart x
  exact hrow.congr (by simp [List.forall₂_eq_eq_eq])

/-! ### Separated words -/

/-- Words with a separator between them. -/
def separated (separator : τ) (code : α → List τ) : List α → List τ
  | [] => []
  | x :: xs => code x ++ (xs.map fun y => separator :: code y).flatten

/-- Words that end where a separator or the end of the row follows tell what they stand for. -/
theorem separated_row {code : α → List τ} {separator : τ} (hne : separator ≠ stop)
    (hstart : ∀ x, ∃ t w, code x = t :: w ∧ t ≠ stop)
    (hfollow : ∀ t r, t = separator ∨ t = stop → G (t :: r)) {xs ys : List α}
    (h : ∀ x ∈ xs, ∀ y ∈ ys, Aligned G (code x) (code y) (x = y)) :
    Aligned F (separated separator code xs ++ [stop]) (separated separator code ys ++ [stop])
      (xs = ys) := by
  cases xs with
  | nil =>
      cases ys with
      | nil => exact nil.cons_self.congr (by simp)
      | cons y ys =>
          obtain ⟨t, w, hy, ht⟩ := hstart y
          simp only [separated, hy]
          exact (of_ne (Ne.symm ht)).congr (by simp)
  | cons x xs =>
      cases ys with
      | nil =>
          obtain ⟨t, w, hx, ht⟩ := hstart x
          simp only [separated, hx]
          exact (of_ne ht).congr (by simp)
      | cons y ys =>
          have hfirst := h x List.mem_cons_self y List.mem_cons_self
          have hrest : Aligned F ((xs.map fun z => separator :: code z).flatten ++ [stop])
              ((ys.map fun z => separator :: code z).flatten ++ [stop]) (xs = ys) := by
            apply row_map (S := (· = separator)) (fun z => ⟨_, _, rfl, rfl⟩) (Ne.symm hne)
              hfollow
            intro z hz z' hz'
            exact (h z (List.mem_cons_of_mem _ hz) z' (List.mem_cons_of_mem _ hz')).cons_self
          have hgo : ∀ (zs : List α) r, F r →
              G ((zs.map fun z => separator :: code z).flatten ++ [stop] ++ r) := by
            intro zs r _
            cases zs with
            | nil => exact hfollow stop r (.inr rfl)
            | cons z zs => exact hfollow separator _ (.inl rfl)
          rw [separated, separated, List.append_assoc, List.append_assoc, List.cons_eq_cons]
          exact hfirst.append hrest (hgo xs) (hgo ys)

end Aligned

end

end RecordCodec
