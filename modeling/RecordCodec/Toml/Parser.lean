import RecordCodec.Toml.Quoted
import RecordCodec.Toml.Word

/-!
Reading TOML text statement by statement: table headers and settings, each on a line of its own.
Values may be arrays and inline tables; an array may go over several lines. Each reader returns
what follows in the text, and a proof that it took at least one character.

Readers stop at a control character, which nothing may begin with, and so refuse it.
-/

namespace RecordCodec.Toml

open Json (Rest)

/-! ### Gaps -/

def isBlank (c : Char) : Bool := c == ' ' || c == '\t'

def skipBlanks (cs : List Char) : List Char := cs.dropWhile isBlank

/-- Skips a comment up to the end of its line. -/
def skipComment : List Char → List Char
  | '#' :: rest => rest.dropWhile isPlain
  | rest => rest

/-- Skips blanks, line ends and comments, the first of which may be under way. -/
def skipGapFrom (inComment : Bool) : List Char → List Char
  | [] => []
  | '\n' :: rest => skipGapFrom false rest
  | '\r' :: '\n' :: rest => skipGapFrom false rest
  | c :: rest =>
      if inComment then (if isPlain c then skipGapFrom true rest else c :: rest)
      else if isBlank c then skipGapFrom false rest
      else if c = '#' then skipGapFrom true rest
      else c :: rest

def skipGap (cs : List Char) : List Char := skipGapFrom false cs

theorem length_skipBlanks_le (cs : List Char) : (skipBlanks cs).length ≤ cs.length :=
  Json.length_dropWhile_le _ _

theorem length_skipGapFrom_le (inComment : Bool) (cs : List Char) :
    (skipGapFrom inComment cs).length ≤ cs.length := by
  fun_induction skipGapFrom inComment cs <;> simp_all <;> omega

theorem length_skipGap_le (cs : List Char) : (skipGap cs).length ≤ cs.length :=
  length_skipGapFrom_le _ _

/-! ### Rests of rests -/

/-- What is left after reading on from what was left. -/
def onward {cs : List Char} (r : Rest cs) (s : Rest r.1) : Rest cs :=
  ⟨s.1, Nat.lt_trans s.2 r.2⟩

/-- What is left without the blanks in front of it. -/
def afterBlanks {cs : List Char} (r : Rest cs) : Rest cs :=
  ⟨skipBlanks r.1, Nat.lt_of_le_of_lt (length_skipBlanks_le _) r.2⟩

/-- What is left without the gap in front of it. -/
def afterGap {cs : List Char} (r : Rest cs) : Rest cs :=
  ⟨skipGap r.1, Nat.lt_of_le_of_lt (length_skipGap_le _) r.2⟩

/-- Takes a mark and nothing else. -/
def readEnd (mark : Char) (cs : List Char) : Option (Rest cs) :=
  match cs with
  | c :: rest => if c = mark then some ⟨rest, Nat.lt_succ_self _⟩ else none
  | [] => none

/-- Takes a mark and the blanks after it. -/
def readMark (mark : Char) (cs : List Char) : Option (Rest cs) :=
  (readEnd mark cs).map afterBlanks

/-- Takes a mark and the gap after it. -/
def readMarkAndGap (mark : Char) (cs : List Char) : Option (Rest cs) :=
  (readEnd mark cs).map afterGap

/-- Takes the longest word of the given characters. -/
def readRun (isPart : Char → Bool) (cs : List Char) : Option (List Char × Rest cs) :=
  match cs with
  | c :: rest =>
      if isPart c then
        some (c :: rest.takeWhile isPart,
          ⟨rest.dropWhile isPart, Nat.lt_succ_of_le (Json.length_dropWhile_le _ _)⟩)
      else none
  | [] => none

/-! ### Keys -/

def isKeyChar (c : Char) : Bool := c.isAlphanum || c == '_' || c == '-'

/-- Reads a key without points, and the blanks after it. Keys have no quotes of three. -/
def readKey (cs : List Char) : Option (String × Rest cs) :=
  match cs with
  | '"' :: rest =>
      match h : readBasic rest with
      | some (s, rest') =>
          some (String.ofList s, afterBlanks ⟨rest', Nat.lt_succ_of_lt (length_readBasic h)⟩)
      | none => none
  | '\'' :: rest =>
      match h : readLiteral rest with
      | some (s, rest') =>
          some (String.ofList s, afterBlanks ⟨rest', Nat.lt_succ_of_lt (length_readLiteral h)⟩)
      | none => none
  | cs => (readRun isKeyChar cs).map fun p => (String.ofList p.1, afterBlanks p.2)

/-- How many keys a route may have, and how deep arrays and inline tables may nest. -/
def maxDepth : Nat := 79

/-- Reads keys with points between them. -/
def readDottedKeys (cs : List Char) : Option (List String × Rest cs) :=
  match readKey cs with
  | none => none
  | some (key, r) =>
      match readMark '.' r.1 with
      | none => some ([key], r)
      | some s =>
          match readDottedKeys s.1 with
          | none => none
          | some (keys, t) => some (key :: keys, onward r (onward s t))
termination_by cs.length
decreasing_by exact Nat.lt_trans s.2 r.2

/-- Reads a route of keys. -/
def readKeys (cs : List Char) : Option (List String × Rest cs) :=
  (readDottedKeys cs).filter fun p => p.1.length ≤ maxDepth

/-! ### Values -/

/-- A value as it is written; the settings of an inline table are not put together yet. -/
inductive Written where
  | quoted (s : String)
  | word (value : ConfigValue)
  | array (items : List Written)
  | inlineTable (settings : List (List String × Written))

def isWordChar (c : Char) : Bool :=
  c.isAlphanum || c == '_' || c == '-' || c == '+' || c == '.' || c == ':'

/-- Does a time of day follow a date after one blank? -/
def timeFollows (word rest : List Char) : Bool :=
  match word, rest with
  | [_, _, _, _, '-', _, _, '-', _, _], ' ' :: d :: _ => Text.isAsciiDigit d
  | _, _ => false

/-- Reads a value without quotes. Date and time may have a blank between them. -/
def readWord (cs : List Char) : Option (ConfigValue × Rest cs) :=
  match readRun isWordChar cs with
  | none => none
  | some (word, r) =>
      if timeFollows word r.1 then
        match readRun isWordChar (skipBlanks r.1) with
        | some (time, s) =>
            (readWord? (word ++ ' ' :: time)).map fun v => (v, onward (afterBlanks r) s)
        | none => none
      else (readWord? word).map fun v => (v, r)

def readScalar (cs : List Char) : Option (Written × Rest cs) :=
  match h : readQuoted cs with
  | some (s, rest) => some (.quoted (String.ofList s), ⟨rest, length_readQuoted h⟩)
  | none => (readWord cs).map fun p => (.word p.1, p.2)

mutual

/-- Reads a value. -/
def readValue (depth : Nat) (cs : List Char) : Option (Written × Rest cs) :=
  match depth, readMarkAndGap '[' cs, readMark '\x7b' cs with
  | depth + 1, some r, _ =>
      match readItems depth r.1 with
      | some (items, s) => some (.array items, onward r s)
      | none => none
  | depth + 1, none, some r =>
      match readEnd '\x7d' r.1 with
      | some s => some (.inlineTable [], onward r s)
      | none =>
          match readPairs depth r.1 with
          | some (settings, s) => some (.inlineTable settings, onward r s)
          | none => none
  | _, none, none => readScalar cs
  | 0, _, _ => none
termination_by (cs.length, 0)
decreasing_by
  · exact Prod.Lex.left _ _ r.2
  · exact Prod.Lex.left _ _ r.2

/-- Reads the items of an array up to its closing bracket; a comma may follow the last. -/
def readItems (depth : Nat) (cs : List Char) : Option (List Written × Rest cs) :=
  match readEnd ']' cs with
  | some r => some ([], r)
  | none =>
      match readValue depth cs with
      | none => none
      | some (item, r) =>
          match readMarkAndGap ',' (afterGap r).1, readEnd ']' (afterGap r).1 with
          | some s, _ =>
              match readItems depth s.1 with
              | some (items, t) => some (item :: items, onward (afterGap r) (onward s t))
              | none => none
          | none, some s => some ([item], onward (afterGap r) s)
          | none, none => none
termination_by (cs.length, 1)
decreasing_by
  · exact Prod.Lex.right _ Nat.zero_lt_one
  · exact Prod.Lex.left _ _ (Nat.lt_trans s.2 (afterGap r).2)

/-- Reads the settings of an inline table up to its closing brace; there is at least one. -/
def readPairs (depth : Nat) (cs : List Char) :
    Option (List (List String × Written) × Rest cs) :=
  match readKeys cs with
  | none => none
  | some (keys, r) =>
      match readMark '=' r.1 with
      | none => none
      | some s =>
          match readValue depth s.1 with
          | none => none
          | some (value, t) =>
              let u := onward r (onward s (afterBlanks t))
              match readMark ',' u.1, readEnd '\x7d' u.1 with
              | some v, _ =>
                  match readPairs depth v.1 with
                  | some (settings, w) => some ((keys, value) :: settings, onward u (onward v w))
                  | none => none
              | none, some v => some ([(keys, value)], onward u v)
              | none, none => none
termination_by (cs.length, 1)
decreasing_by
  · exact Prod.Lex.left _ _ (Nat.lt_trans s.2 r.2)
  · exact Prod.Lex.left _ _ (Nat.lt_trans v.2 u.2)

end

/-! ### Statements -/

/-- A statement goes to the end of its line: the header of a table, the header of a further table
in an array of them, or a setting in the table last named. -/
inductive Statement where
  | header (route : List String)
  | arrayHeader (route : List String)
  | setting (route : List String) (value : Written)

/-- What follows the line, once nothing but blanks and a comment is left of it. -/
def endLine? (cs : List Char) : Option (List Char) :=
  match skipComment (skipBlanks cs) with
  | [] => some []
  | '\n' :: rest => some rest
  | '\r' :: '\n' :: rest => some rest
  | _ => none

/-- Reads a header without its line end, after the first bracket and the blanks behind it. -/
def readHeader (cs : List Char) : Option (Statement × Rest cs) :=
  match readKeys cs with
  | some (keys, r) => (readEnd ']' r.1).map fun s => (.header keys, onward r s)
  | none => none

/-- Reads a header of an array without its line end, after both brackets. -/
def readArrayHeader (cs : List Char) : Option (Statement × Rest cs) :=
  match readKeys cs with
  | some (keys, r) =>
      match readEnd ']' r.1 with
      | some s => (readEnd ']' s.1).map fun t => (.arrayHeader keys, onward r (onward s t))
      | none => none
  | none => none

/-- Reads a setting without its line end. -/
def readSetting (cs : List Char) : Option (Statement × Rest cs) :=
  match readKeys cs with
  | some (keys, r) =>
      match readMark '=' r.1 with
      | some s => (readValue maxDepth s.1).map fun p => (.setting keys p.1, onward r (onward s p.2))
      | none => none
  | none => none

/-- Reads a statement without its line end. -/
def readStatement (cs : List Char) : Option (Statement × Rest cs) :=
  match readEnd '[' cs with
  | none => readSetting cs
  | some r =>
      match readEnd '[' r.1 with
      | none => (readHeader (afterBlanks r).1).map fun p => (p.1, onward (afterBlanks r) p.2)
      | some s =>
          let t := onward r (afterBlanks s)
          (readArrayHeader t.1).map fun p => (p.1, onward t p.2)

theorem length_skipComment_le (cs : List Char) : (skipComment cs).length ≤ cs.length := by
  unfold skipComment
  split
  · exact Nat.le_succ_of_le (Json.length_dropWhile_le _ _)
  · exact Nat.le_refl _

theorem length_endLine?_le {cs rest : List Char} (h : endLine? cs = some rest) :
    rest.length ≤ cs.length := by
  have hle := Nat.le_trans (length_skipComment_le (skipBlanks cs)) (length_skipBlanks_le cs)
  unfold endLine? at h
  split at h <;> simp_all <;> omega

/-- Reads statements up to the end of the text. -/
def readStatements (cs : List Char) : Option (List Statement) :=
  match _hgap : skipGap cs with
  | [] => some []
  | c :: cs' =>
      match readStatement (c :: cs') with
      | none => none
      | some (statement, r) =>
          match _hend : endLine? r.1 with
          | none => none
          | some rest => (readStatements rest).map (statement :: ·)
termination_by cs.length
decreasing_by
  have hlt := Nat.lt_of_le_of_lt (length_endLine?_le _hend) r.2
  have hle := length_skipGap_le cs
  rw [_hgap] at hle
  exact Nat.lt_of_lt_of_le hlt hle

end RecordCodec.Toml
