import RecordCodec.Proofs.Json.Stream
import RecordCodec.Proofs.Token.Form

/-!
What skipping takes. Skipping counts the containers that are open and remembers nothing else of
them, so it takes more than the form of a value: a container ends at either closing token, and
inside a container keys and values may stand in any order. `Balanced` describes these tokens
without the counter. Skipping a value succeeds exactly on a stream that begins with them.

Every value is balanced, so values are skipped exactly. Of the streams that do not begin with a
value, those that begin with balanced tokens are skipped nevertheless, and the others are reported
out of form.
-/

namespace RecordCodec.Token

/-! ### Balanced tokens -/

/-- The token opens a container. -/
def begins : Token → Bool
  | .startArray => true
  | .startObject => true
  | _ => false

/-- The token closes a container. -/
def ends : Token → Bool
  | .endArray => true
  | .endObject => true
  | _ => false

/-- Tokens that leave as many containers open as there were, and close none of those. -/
inductive Inside : List Token → Prop
  | nil : Inside []
  | cons {t : Token} {ts : List Token} :
      t.begins = false → t.ends = false → Inside ts → Inside (t :: ts)
  | container {opening closing : Token} {ts us : List Token} :
      opening.begins = true → closing.ends = true → Inside ts → Inside us →
      Inside (opening :: (ts ++ closing :: us))

/-- A null or a scalar, or a container that is closed by either closing token. -/
inductive Balanced : List Token → Prop
  | single {t : Token} : t.opensValue = true → t.begins = false → Balanced [t]
  | container {opening closing : Token} {ts : List Token} :
      opening.begins = true → closing.ends = true → Inside ts →
      Balanced (opening :: (ts ++ [closing]))

theorem Inside.append {ts us : List Token} (h : Inside ts) (h' : Inside us) :
    Inside (ts ++ us) := by
  induction h with
  | nil => exact h'
  | cons hb he _ ih => exact .cons hb he ih
  | container ho hc hin _ _ ih =>
      rw [List.cons_append, List.append_assoc]
      exact .container ho hc hin ih

theorem not_ends_of_opensValue {t : Token} (h : t.opensValue = true) : t.ends = false := by
  cases t <;> first | rfl | cases h

theorem Balanced.inside {ts : List Token} : Balanced ts → Inside ts
  | .single hv hb => .cons hb (not_ends_of_opensValue hv) .nil
  | .container ho hc h => .container ho hc h .nil

theorem inside_flatten {tss : List (List Token)} (h : ∀ ts ∈ tss, Inside ts) :
    Inside tss.flatten := by
  induction tss with
  | nil => exact .nil
  | cons ts tss ih =>
      obtain ⟨hts, hrest⟩ := List.forall_mem_cons.1 h
      exact hts.append (ih hrest)

/-- Values are balanced. -/
theorem Formed.balanced {literals : String → Prop} {rows : List String → Prop} {ts : List Token}
    (h : Formed literals rows ts) : Balanced ts := by
  induction h with
  | null | boolean | string | number => exact .single rfl rfl
  | array _ ih => exact .container rfl rfl (inside_flatten fun ts hts => (ih ts hts).inside)
  | @object entries _ _ ih =>
      refine .container rfl rfl ?_
      rw [List.flatMap_def]
      refine inside_flatten fun ts hts => ?_
      obtain ⟨p, hp, rfl⟩ := List.mem_map.1 hts
      exact .cons rfl rfl (ih p hp).inside

/-! ### Balanced tokens are skipped -/

section

variable {path : Path} {depth : Nat} {t : Token} {ts rest : List Token}

theorem leftBy_begins (h : t.begins = true) :
    leftBy path depth (t :: ts) = leftBy path (depth + 1) ts := by
  cases t with
  | startArray | startObject => exact leftBy_keep rfl
  | _ => cases h

theorem leftBy_ends (h : t.ends = true) :
    leftBy path (depth + 2) (t :: ts) = leftBy path (depth + 1) ts := by
  cases t with
  | endArray | endObject => exact leftBy_keep rfl
  | _ => cases h

theorem leftBy_ends_last (h : t.ends = true) : leftBy path 1 (t :: ts) = .ok ts := by
  cases t with
  | endArray | endObject => rfl
  | _ => cases h

theorem leftBy_between (hb : t.begins = false) (he : t.ends = false) :
    leftBy path (depth + 1) (t :: ts) = leftBy path (depth + 1) ts := by
  cases t with
  | startArray | startObject => cases hb
  | endArray | endObject => cases he
  | _ => exact leftBy_keep rfl

theorem leftBy_single (hv : t.opensValue = true) (hb : t.begins = false) :
    leftBy path 0 (t :: ts) = .ok ts := by
  cases t with
  | startArray | startObject => cases hb
  | endArray | endObject | fieldName => cases hv
  | _ => rfl

end

theorem Inside.passedOver {ts : List Token} (h : Inside ts) : PassedOver ts := by
  induction h with
  | nil => exact .nil
  | cons hb he _ ih =>
      intro path depth rest
      rw [List.cons_append, leftBy_between hb he, ih]
  | container ho hc _ _ ih ih' =>
      intro path depth rest
      rw [List.cons_append, leftBy_begins ho, List.append_assoc, ih, List.cons_append,
        leftBy_ends hc, ih']

theorem Balanced.skips {ts : List Token} : Balanced ts → Skips ts
  | .single hv hb => fun path rest => leftBy_single hv hb
  | .container ho hc h => by
      intro path rest
      show leftBy path 0 _ = _
      rw [List.cons_append, leftBy_begins ho, List.append_assoc, h.passedOver, List.singleton_append,
        leftBy_ends_last hc]

/-! ### What is skipped is balanced -/

/-- The stream closes containers, as many as were open, and leaves the rest. -/
def Closes (rest : List Token) : Nat → List Token → Prop
  | 0, ts => ts = rest
  | depth + 1, ts => ∃ inside closing us,
      ts = inside ++ closing :: us ∧ Inside inside ∧ closing.ends = true ∧ Closes rest depth us

theorem Closes.cons {rest ts : List Token} {depth : Nat} {t : Token} (hb : t.begins = false)
    (he : t.ends = false) : Closes rest (depth + 1) ts → Closes rest (depth + 1) (t :: ts) := by
  rintro ⟨inside, closing, us, rfl, hin, hc, hus⟩
  exact ⟨t :: inside, closing, us, rfl, .cons hb he hin, hc, hus⟩

/-- A container that is opened and closed stands inside the next one. -/
theorem Closes.container {rest ts : List Token} {depth : Nat} {t : Token} (hb : t.begins = true) :
    Closes rest (depth + 2) ts → Closes rest (depth + 1) (t :: ts) := by
  rintro ⟨inside, closing, _, rfl, hin, hc, inside', closing', us, rfl, hin', hc', hus⟩
  refine ⟨t :: (inside ++ closing :: inside'), closing', us, ?_, .container hb hc hin hin', hc', hus⟩
  simp only [List.cons_append, List.append_assoc]

theorem Closes.close {rest ts : List Token} {depth : Nat} {t : Token} (he : t.ends = true)
    (h : Closes rest depth ts) : Closes rest (depth + 1) (t :: ts) :=
  ⟨[], t, ts, rfl, .nil, he, h⟩

theorem closes_of_leftBy {path : Path} {depth : Nat} {ts rest : List Token}
    (h : leftBy path (depth + 1) ts = .ok rest) : Closes rest (depth + 1) ts := by
  induction ts generalizing depth with
  | nil => cases h
  | cons t ts ih =>
      cases hb : t.begins with
      | true =>
          rw [leftBy_begins hb] at h
          exact (ih h).container hb
      | false =>
          cases he : t.ends with
          | false =>
              rw [leftBy_between hb he] at h
              exact (ih h).cons hb he
          | true =>
              cases depth with
              | zero =>
                  rw [leftBy_ends_last he] at h
                  cases h
                  exact .close he rfl
              | succ depth =>
                  rw [leftBy_ends he] at h
                  exact .close he (ih h)

/-- Skipping a value takes balanced tokens, and leaves what follows them. -/
theorem leftBy_eq_ok_iff {path : Path} {ts rest : List Token} :
    leftBy path 0 ts = .ok rest ↔ Taken Balanced ts rest := by
  constructor
  · intro h
    cases ts with
    | nil => cases h
    | cons t ts =>
        cases hb : t.begins with
        | true =>
            rw [leftBy_begins hb] at h
            obtain ⟨inside, closing, us, rfl, hin, hc, rfl⟩ := closes_of_leftBy h
            refine ⟨t :: (inside ++ [closing]), ?_, .container hb hc hin⟩
            simp only [List.cons_append, List.append_assoc, List.nil_append]
        | false =>
            cases hv : t.opensValue with
            | true =>
                rw [leftBy_single hv hb] at h
                cases h
                exact ⟨[t], rfl, .single hv hb⟩
            | false =>
                cases t with
                | endArray | endObject | fieldName => cases h
                | _ => cases hv
  · rintro ⟨taken, rfl, h⟩
    exact h.skips path rest

/-- What is skipped whatever follows is balanced. -/
theorem SkipsFrom.balanced {ts : List Token} (h : Skips ts) : Balanced ts := by
  obtain ⟨taken, heq, hbalanced⟩ := leftBy_eq_ok_iff.1 (h .empty [])
  rw [List.append_nil, List.append_nil] at heq
  exact heq ▸ hbalanced

/-! ### Skipping against the form of a value -/

/-- What skipping one value takes from the stream, and how far that is one value. -/
structure TakesBalanced (path : Path) (ts : List Token) : Prop where
  balanced : ∀ rest, (skipValue path ts).map Subtype.val = .ok rest ↔ Taken Balanced ts rest
  whole : ∀ rest, Taken Whole ts rest → (skipValue path ts).map Subtype.val = .ok rest
  malformed : ∀ stop, skipValue path ts = .error stop → OutOfForm stop
  /-- Reading a document takes values only, with literals of numbers, and fails as skipping does. -/
  read : ∀ rest, (∃ j, Gives (readJson path ts) j rest) ↔ Taken Legible ts rest
  skipsRead : ∀ j rest, Gives (readJson path ts) j rest →
    (skipValue path ts).map Subtype.val = .ok rest
  readMalformed : ∀ stop, readJson path ts = .error stop → OutOfForm stop
  /-- Skipping keeps to values exactly on the streams whose balanced beginning is a value. -/
  exactly : (∀ rest, (skipValue path ts).map Subtype.val = .ok rest ↔ Taken Whole ts rest) ↔
    ∀ rest, Taken Balanced ts rest → Taken Whole ts rest

theorem skipValue_takesBalanced (path : Path) (ts : List Token) : TakesBalanced path ts where
  balanced _ := leftBy_eq_ok_iff
  whole := fun _ ⟨taken, heq, h⟩ => leftBy_eq_ok_iff.2 ⟨taken, heq, h.balanced⟩
  malformed _ := outOfForm_of_skipFrom
  read _ := exists_gives_readJson_iff
  skipsRead j rest h := by
    obtain ⟨taken, heq, hlegible⟩ := exists_gives_readJson_iff.1 ⟨j, h⟩
    exact leftBy_eq_ok_iff.2 ⟨taken, heq, hlegible.balanced⟩
  readMalformed _ := outOfForm_of_readJson
  exactly := by
    refine forall_congr' fun rest => ?_
    have hskip : (skipValue path ts).map Subtype.val = .ok rest ↔ Taken Balanced ts rest :=
      leftBy_eq_ok_iff
    have hwhole : Taken Whole ts rest → Taken Balanced ts rest :=
      fun ⟨taken, heq, h⟩ => ⟨taken, heq, h.balanced⟩
    rw [hskip]
    exact ⟨Iff.mp, fun h => ⟨h, hwhole⟩⟩

/-- An array that is closed as an object is skipped, though no value begins there. -/
theorem skipValue_mismatched :
    (skipValue .empty [.startArray, .endObject]).map Subtype.val = .ok [] ∧
      ∀ rest, ¬ Taken Whole [.startArray, .endObject] rest := by
  refine ⟨rfl, ?_⟩
  rintro rest ⟨taken, heq, h⟩
  -- what is skipped is determined, so a value would have to be all of the stream
  obtain rfl : taken = [.startArray, .endObject] :=
    h.balanced.skips.eq_of_append (@Balanced.container _ _ [] rfl rfl .nil).skips
      (heq.symm.trans (List.append_nil _).symm)
  generalize hts : [Token.startArray, Token.endObject] = ts at h
  cases h with
  | @array items _ =>
      have hlast := congrArg List.getLast? hts
      rw [← List.cons_append, List.getLast?_concat] at hlast
      cases hlast
  | _ => cases hts

end RecordCodec.Token
