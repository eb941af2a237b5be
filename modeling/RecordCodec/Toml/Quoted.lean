import RecordCodec.Json.Parser
import RecordCodec.Json.Printer

/-!
Quoted strings of TOML. There are four forms: double quotes with escapes, single quotes without,
and each of them in three quotes, between which a string may go over several lines. Reading starts
after the opening quotes and returns what follows the closing ones. Writing takes the first form
that needs no escape.
-/

namespace RecordCodec.Toml

open Json (hex4?)

/-- The character that a one-letter escape stands for. -/
def shortEscape? : Char → Option Char
  | '"' => some '"'
  | '\\' => some '\\'
  | 'b' => some (Char.ofNat 8)
  | 'f' => some (Char.ofNat 12)
  | 'n' => some '\n'
  | 'r' => some '\r'
  | 't' => some '\t'
  | _ => none

/-- The character with a code point; surrogates are none. -/
def charOfCode? (n : Nat) : Option Char := if n.isValidChar then some (Char.ofNat n) else none

/-- May the character stand for itself, within a line? -/
def isPlain (c : Char) : Bool := c == '\t' || !(c.toNat < 32 || c.toNat == 127)

/-- The character that four hexadecimal digits stand for. -/
def escape4? (a b c d : Char) : Option Char := (hex4? a b c d).bind charOfCode?

/-- The character that eight hexadecimal digits stand for. -/
def escape8? (a b c d e f g h : Char) : Option Char := do
  let high ← hex4? a b c d
  let low ← hex4? e f g h
  charOfCode? (65536 * high + low)

/-- Puts a character, if there is one, in front of what was read after it. -/
def consRead (c : Option Char) (read : Option (List Char × List Char)) :
    Option (List Char × List Char) :=
  match c, read with
  | some c, some (cs, rest) => some (c :: cs, rest)
  | _, _ => none

/-- Reads a string in double quotes. -/
def readBasic : List Char → Option (List Char × List Char)
  | [] => none
  | '"' :: rest => some ([], rest)
  | '\\' :: 'u' :: a :: b :: c :: d :: rest => consRead (escape4? a b c d) (readBasic rest)
  | '\\' :: 'U' :: a :: b :: c :: d :: e :: f :: g :: h :: rest =>
      consRead (escape8? a b c d e f g h) (readBasic rest)
  | '\\' :: c :: rest => consRead (shortEscape? c) (readBasic rest)
  | c :: rest => if isPlain c then consRead (some c) (readBasic rest) else none

/-- Reads a string in single quotes. -/
def readLiteral : List Char → Option (List Char × List Char)
  | [] => none
  | '\'' :: rest => some ([], rest)
  | c :: rest => if isPlain c then consRead (some c) (readLiteral rest) else none

/-- Ends a string at three quotes, the first three being off. Up to two quotes more belong to the
string. -/
def closeLines (quote : Char) (rest : List Char) : Option (List Char × List Char) :=
  let extra := rest.takeWhile (· = quote)
  if extra.length ≤ 2 then some (extra, rest.drop extra.length) else none

/-- Where a reader of several lines stands: in the text, after a backslash at the end of a line, or
among the blanks after such an end. -/
inductive LineState where
  | text
  | lineEnd
  | folding
deriving DecidableEq, Repr

/-- Reads a string in three double quotes. A backslash at the end of a line swallows the blanks and
line ends up to the next character. -/
def readBasicLines (state : LineState) : List Char → Option (List Char × List Char)
  | [] => none
  | '\n' :: rest =>
      match state with
      | .text => consRead (some '\n') (readBasicLines .text rest)
      | _ => readBasicLines .folding rest
  | '\r' :: '\n' :: rest =>
      match state with
      | .text => consRead (some '\n') (readBasicLines .text rest)
      | _ => readBasicLines .folding rest
  | '"' :: '"' :: '"' :: rest => if state = .lineEnd then none else closeLines '"' rest
  | '\\' :: 'u' :: a :: b :: c :: d :: rest =>
      if state = .lineEnd then none
      else consRead (escape4? a b c d) (readBasicLines .text rest)
  | '\\' :: 'U' :: a :: b :: c :: d :: e :: f :: g :: h :: rest =>
      if state = .lineEnd then none
      else consRead (escape8? a b c d e f g h) (readBasicLines .text rest)
  | '\\' :: c :: rest =>
      if state = .lineEnd then none
      else if c = '\n' then readBasicLines .folding rest
      else if c = ' ' || c = '\t' || c = '\r' then readBasicLines .lineEnd (c :: rest)
      else consRead (shortEscape? c) (readBasicLines .text rest)
  | c :: rest =>
      if state ≠ .text && (c = ' ' || c = '\t') then readBasicLines state rest
      else if state = .lineEnd then none
      else if isPlain c then consRead (some c) (readBasicLines .text rest)
      else none

/-- Reads a string in three single quotes. -/
def readLiteralLines : List Char → Option (List Char × List Char)
  | [] => none
  | '\n' :: rest => consRead (some '\n') (readLiteralLines rest)
  | '\r' :: '\n' :: rest => consRead (some '\n') (readLiteralLines rest)
  | '\'' :: '\'' :: '\'' :: rest => closeLines '\'' rest
  | c :: rest => if isPlain c then consRead (some c) (readLiteralLines rest) else none

/-- Drops the line end right after opening quotes. -/
def dropLineEnd : List Char → List Char
  | '\n' :: rest => rest
  | '\r' :: '\n' :: rest => rest
  | rest => rest

/-- Reads a string in any form, with its quotes. -/
def readQuoted : List Char → Option (List Char × List Char)
  | '"' :: '"' :: '"' :: rest => readBasicLines .text (dropLineEnd rest)
  | '\'' :: '\'' :: '\'' :: rest => readLiteralLines (dropLineEnd rest)
  | '"' :: rest => readBasic rest
  | '\'' :: rest => readLiteral rest
  | _ => none

/-! ### What is left is shorter -/

theorem consRead_eq_some {c : Option Char} {read : Option (List Char × List Char)}
    {cs rest : List Char} (h : consRead c read = some (cs, rest)) :
    ∃ cs', read = some (cs', rest) := by
  unfold consRead at h
  split at h
  · cases h
    exact ⟨_, rfl⟩
  · cases h

theorem length_readBasic {cs s rest : List Char} (h : readBasic cs = some (s, rest)) :
    rest.length < cs.length := by
  fun_induction readBasic cs generalizing s <;>
    simp only [List.length_cons, List.length_nil] <;> grind [consRead_eq_some]

theorem length_readLiteral {cs s rest : List Char} (h : readLiteral cs = some (s, rest)) :
    rest.length < cs.length := by
  fun_induction readLiteral cs generalizing s <;>
    simp only [List.length_cons, List.length_nil] <;> grind [consRead_eq_some]

theorem length_closeLines {quote : Char} {cs s rest : List Char}
    (h : closeLines quote cs = some (s, rest)) : rest.length ≤ cs.length := by
  simp only [closeLines] at h
  split at h
  · cases h
    simp
  · cases h

theorem length_readBasicLines {state : LineState} {cs s rest : List Char}
    (h : readBasicLines state cs = some (s, rest)) : rest.length < cs.length := by
  fun_induction readBasicLines state cs generalizing s <;>
    simp only [List.length_cons, List.length_nil] <;> grind [consRead_eq_some, → length_closeLines]

theorem length_readLiteralLines {cs s rest : List Char}
    (h : readLiteralLines cs = some (s, rest)) : rest.length < cs.length := by
  fun_induction readLiteralLines cs generalizing s <;>
    simp only [List.length_cons, List.length_nil] <;> grind [consRead_eq_some, → length_closeLines]

theorem length_dropLineEnd_le (cs : List Char) : (dropLineEnd cs).length ≤ cs.length := by
  unfold dropLineEnd
  split <;> simp
  omega

theorem length_readQuoted {cs s rest : List Char} (h : readQuoted cs = some (s, rest)) :
    rest.length < cs.length := by
  unfold readQuoted at h
  split at h
  · have := length_readBasicLines h
    grind [length_dropLineEnd_le]
  · have := length_readLiteralLines h
    grind [length_dropLineEnd_le]
  · exact Nat.lt_succ_of_lt (length_readBasic h)
  · exact Nat.lt_succ_of_lt (length_readLiteral h)
  · cases h

/-! ### Writing -/

inductive QuoteForm where
  | basic
  | literal
  | basicLines
  | literalLines
deriving DecidableEq, Repr

/-- Must the character be escaped in every form? -/
def isControl (c : Char) : Bool := !isPlain c && c != '\n'

/-- The number of copies of a character at the front, and the largest number of them in a row. -/
def rowsOf (c : Char) : List Char → Nat × Nat
  | [] => (0, 0)
  | d :: rest =>
      let (front, largest) := rowsOf c rest
      if d = c then (front + 1, max largest (front + 1)) else (0, largest)

/-- The largest number of copies of a character in a row. -/
def longestRow (c : Char) (cs : List Char) : Nat := (rowsOf c cs).2

/-- The form that a string is written in. -/
def quoteForm (cs : List Char) : QuoteForm :=
  let plain := !cs.any isControl
  let lines := cs.contains '\n'
  let unescaped := plain && !cs.contains '\\'
  if unescaped && !lines && !cs.contains '"' then .basic
  else if plain && !lines && !cs.contains '\'' then .literal
  else if unescaped && longestRow '"' cs ≤ 2 then .basicLines
  else if plain && longestRow '\'' cs ≤ 2 then .literalLines
  else if lines then .basicLines
  else .basic

/-- A character other than a quote, in double quotes. -/
def escapeChar (c : Char) : List Char :=
  if c = '\\' then ['\\', '\\']
  else if c.toNat = 8 then ['\\', 'b']
  else if c.toNat = 9 then ['\\', 't']
  else if c.toNat = 10 then ['\\', 'n']
  else if c.toNat = 12 then ['\\', 'f']
  else if c.toNat = 13 then ['\\', 'r']
  else if c.toNat < 32 ∨ c.toNat = 127 then '\\' :: 'u' :: (Json.hex4 c.toNat).map Char.toUpper
  else [c]

/-- A string in double quotes. -/
def escaped (cs : List Char) : List Char :=
  cs.flatMap fun c => if c = '"' then ['\\', '"'] else escapeChar c

/-- A string in three double quotes: line ends stand for themselves, and so do quotes, of which
`quotes` have just been written, up to the third in a row. -/
def escapedLines (quotes : Nat) : List Char → List Char
  | [] => []
  | '\n' :: rest => '\n' :: escapedLines 0 rest
  | '"' :: rest =>
      if quotes < 2 then '"' :: escapedLines (quotes + 1) rest
      else '\\' :: '"' :: escapedLines 0 rest
  | c :: rest => escapeChar c ++ escapedLines 0 rest

/-- Three quotes around a string; a string of several lines begins on a line of its own. -/
def betweenLines (quote : Char) (cs written : List Char) : List Char :=
  let quotes := List.replicate 3 quote
  quotes ++ (if cs.contains '\n' then ['\n'] else []) ++ written ++ quotes

/-- A string with its quotes. -/
def quotedChars (s : String) : List Char :=
  let cs := s.toList
  match quoteForm cs with
  | .basic => '"' :: (escaped cs ++ ['"'])
  | .literal => '\'' :: (cs ++ ['\''])
  | .basicLines => betweenLines '"' cs (escapedLines 0 cs)
  | .literalLines => betweenLines '\'' cs cs

end RecordCodec.Toml
