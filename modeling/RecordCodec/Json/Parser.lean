import RecordCodec.Json.Basic

/-!
Reading JSON text. Objects keep the last of several values under one key; one whose first key is
`numberKey` spells a number. Containers may nest only so deep, 127 levels unless the caller allows
more; a deeper text is refused like a malformed one. Each reader returns what follows in the text,
and a proof that it took at least one character.
-/

namespace RecordCodec.Json

/-- What is left of a text after at least one of its characters was taken. -/
abbrev Rest (cs : List Char) := { rest : List Char // rest.length < cs.length }

def isSpace (c : Char) : Bool := c == ' ' || c == '\t' || c == '\n' || c == '\r'

def skipSpace (cs : List Char) : List Char := cs.dropWhile isSpace

theorem length_dropWhile_le (p : Char → Bool) (cs : List Char) :
    (cs.dropWhile p).length ≤ cs.length :=
  (List.dropWhile_suffix p).length_le

@[simp] theorem length_skipSpace_le (cs : List Char) : (skipSpace cs).length ≤ cs.length :=
  length_dropWhile_le _ _

def hexValue? (c : Char) : Option Nat :=
  if '0' ≤ c ∧ c ≤ '9' then some (c.toNat - 48)
  else if 'a' ≤ c ∧ c ≤ 'f' then some (c.toNat - 87)
  else if 'A' ≤ c ∧ c ≤ 'F' then some (c.toNat - 55)
  else none

/-- The number that four hexadecimal digits write. -/
def hex4? (a b c d : Char) : Option Nat := do
  let a ← hexValue? a
  let b ← hexValue? b
  let c ← hexValue? c
  let d ← hexValue? d
  return 4096 * a + 256 * b + 16 * c + d

/-- The character that a one-letter escape stands for. -/
def shortEscape? : Char → Option Char
  | '"' => some '"'
  | '\\' => some '\\'
  | '/' => some '/'
  | 'b' => some (Char.ofNat 8)
  | 'f' => some (Char.ofNat 12)
  | 'n' => some '\n'
  | 'r' => some '\r'
  | 't' => some '\t'
  | _ => none

/-- Reads a string whose opening quote is off. A high surrogate counts only together with the low
one that must follow it. -/
def readString : List Char → Option (List Char × List Char)
  | [] => none
  | '"' :: rest => some ([], rest)
  | '\\' :: 'u' :: a :: b :: c :: d :: rest =>
      match hex4? a b c d with
      | none => none
      | some n =>
          if 0xD800 ≤ n ∧ n < 0xDC00 then
            match rest with
            | '\\' :: 'u' :: e :: f :: g :: h :: rest =>
                match hex4? e f g h with
                | none => none
                | some m =>
                    if 0xDC00 ≤ m ∧ m < 0xE000 then
                      (readString rest).map fun p =>
                        (Char.ofNat (0x10000 + 1024 * (n - 0xD800) + (m - 0xDC00)) :: p.1, p.2)
                    else none
            | _ => none
          else if 0xDC00 ≤ n ∧ n < 0xE000 then none
          else (readString rest).map fun p => (Char.ofNat n :: p.1, p.2)
  | '\\' :: c :: rest =>
      match shortEscape? c with
      | none => none
      | some e => (readString rest).map fun p => (e :: p.1, p.2)
  | c :: rest =>
      if c.toNat < 32 then none else (readString rest).map fun p => (c :: p.1, p.2)

theorem readString_length {cs s rest : List Char} (h : readString cs = some (s, rest)) :
    rest.length < cs.length := by
  fun_induction readString cs generalizing s rest <;> simp_all <;> grind

/-- What members in the order of the text stand for. If the first key is the number key, there must
be no other, and its value is the literal of a number as a string. -/
def ofMembers? (members : List (String × Json)) : Option Json :=
  match members.head? with
  | some (key, value) =>
      if key = numberKey then spelledNumber? value members.length
      else some (.object (Entries.ofList members))
  | none => some (.object [])

mutual

/-- Reads one value at the very front of a text. -/
def readValue (depth : Nat) (cs : List Char) : Option (Json × Rest cs) :=
  match cs with
  | 'n' :: 'u' :: 'l' :: 'l' :: rest => some (.null, ⟨rest, by simp only [List.length_cons]; omega⟩)
  | 't' :: 'r' :: 'u' :: 'e' :: rest =>
      some (.bool true, ⟨rest, by simp only [List.length_cons]; omega⟩)
  | 'f' :: 'a' :: 'l' :: 's' :: 'e' :: rest =>
      some (.bool false, ⟨rest, by simp only [List.length_cons]; omega⟩)
  | '"' :: rest =>
      match h : readString rest with
      | none => none
      | some (s, rest') =>
          some (.string (String.ofList s), ⟨rest', Nat.lt_succ_of_lt (readString_length h)⟩)
  | '[' :: rest =>
      match depth, h : skipSpace rest with
      | 0, _ => none
      | _ + 1, ']' :: rest' =>
          some (.array [], ⟨rest', by
            have := length_skipSpace_le rest
            simp only [h, List.length_cons] at *
            omega⟩)
      | depth + 1, _ =>
          match readItems depth (skipSpace rest) with
          | none => none
          | some (items, ⟨rest', h'⟩) =>
              some (.array items, ⟨rest', by
                have := length_skipSpace_le rest
                simp only [List.length_cons]
                omega⟩)
  | '\x7b' :: rest =>
      match depth, h : skipSpace rest with
      | 0, _ => none
      | _ + 1, '\x7d' :: rest' =>
          some (.object [], ⟨rest', by
            have := length_skipSpace_le rest
            simp only [h, List.length_cons] at *
            omega⟩)
      | depth + 1, _ =>
          match readMembers depth (skipSpace rest) with
          | none => none
          | some (members, ⟨rest', h'⟩) =>
              (ofMembers? members).map fun j => (j, ⟨rest', by
                have := length_skipSpace_le rest
                simp only [List.length_cons]
                omega⟩)
  | cs =>
      match h : Numeral.ofChars? cs with
      | none => none
      | some (n, rest) => some (.number n, ⟨rest, Numeral.ofChars?_length h⟩)
termination_by 2 * cs.length
decreasing_by
  all_goals
    have := length_skipSpace_le rest
    simp only [List.length_cons]
    omega

/-- Reads items up to the closing bracket; there is at least one. -/
def readItems (depth : Nat) (cs : List Char) : Option (List Json × Rest cs) :=
  match readValue depth cs with
  | none => none
  | some (item, ⟨rest, h⟩) =>
      match hs : skipSpace rest with
      | ']' :: rest' =>
          some ([item], ⟨rest', by
            have := length_skipSpace_le rest
            simp only [hs, List.length_cons] at this
            omega⟩)
      | ',' :: rest' =>
          match readItems depth (skipSpace rest') with
          | none => none
          | some (items, ⟨rest'', h'⟩) =>
              some (item :: items, ⟨rest'', by
                have := length_skipSpace_le rest
                have := length_skipSpace_le rest'
                simp only [hs, List.length_cons] at *
                omega⟩)
      | _ => none
termination_by 2 * cs.length + 1
decreasing_by
  · omega
  · have := length_skipSpace_le rest
    have := length_skipSpace_le rest'
    simp only [hs, List.length_cons] at *
    omega

/-- Reads members up to the closing brace; there is at least one. -/
def readMembers (depth : Nat) (cs : List Char) : Option (List (String × Json) × Rest cs) :=
  match cs with
  | '"' :: cs' =>
      match hk : readString cs' with
      | none => none
      | some (key, afterKey) =>
          match hc : skipSpace afterKey with
          | ':' :: afterColon =>
              match readValue depth (skipSpace afterColon) with
              | none => none
              | some (value, ⟨rest, h⟩) =>
                  match hs : skipSpace rest with
                  | '\x7d' :: rest' =>
                      some ([(String.ofList key, value)], ⟨rest', by
                        have := readString_length hk
                        have := length_skipSpace_le afterKey
                        have := length_skipSpace_le afterColon
                        have := length_skipSpace_le rest
                        simp only [hc, hs, List.length_cons] at *
                        omega⟩)
                  | ',' :: rest' =>
                      match readMembers depth (skipSpace rest') with
                      | none => none
                      | some (members, ⟨rest'', h'⟩) =>
                          some ((String.ofList key, value) :: members, ⟨rest'', by
                            have := readString_length hk
                            have := length_skipSpace_le afterKey
                            have := length_skipSpace_le afterColon
                            have := length_skipSpace_le rest
                            have := length_skipSpace_le rest'
                            simp only [hc, hs, List.length_cons] at *
                            omega⟩)
                  | _ => none
          | _ => none
  | _ => none
termination_by 2 * cs.length + 1
decreasing_by
  · have := readString_length hk
    have := length_skipSpace_le afterKey
    have := length_skipSpace_le afterColon
    simp only [hc, List.length_cons] at *
    omega
  · have := readString_length hk
    have := length_skipSpace_le afterKey
    have := length_skipSpace_le afterColon
    have := length_skipSpace_le rest
    have := length_skipSpace_le rest'
    simp only [hc, hs, List.length_cons] at *
    omega

end

/-- Reads a whole text as one document whose containers nest at most `depth` deep. -/
def parseWithin? (depth : Nat) (text : String) : Option Json :=
  match readValue depth (skipSpace text.toList) with
  | some (j, ⟨rest, _⟩) => if skipSpace rest = [] then some j else none
  | none => none

def parse? (text : String) : Option Json := parseWithin? 127 text

end RecordCodec.Json
