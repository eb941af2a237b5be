import RecordCodec.Text.Casing
import RecordCodec.Text.Digits

/-!
Cutting a name into words. Separators end a word and belong to none. Within a run of other
characters a new word starts at an uppercase character that follows a lowercase one or a digit,
and at the last uppercase character of a row when a lowercase one comes next (`HTTPServer`).
-/

namespace RecordCodec.Naming

open Text (isUppercase isLowercase isAsciiDigit)

def isSeparator (c : Char) : Bool := c == '_' || c == '-' || c == ' ' || c == '.'

/-- Does `c` start a new word after `previous`, with `next` behind it? -/
def startsWord (previous c : Char) (next : Option Char) : Bool :=
  isUppercase c &&
    (isLowercase previous || isAsciiDigit previous ||
      (isUppercase previous && next.any isLowercase))

/-- The words of a text, after the characters `current` of the word under way, last one first. -/
def wordsFrom (current : List Char) : List Char → List (List Char)
  | [] => if current.isEmpty then [] else [current.reverse]
  | c :: rest =>
      if isSeparator c then
        (if current.isEmpty then [] else [current.reverse]) ++ wordsFrom [] rest
      else
        match current with
        | [] => wordsFrom [c] rest
        | previous :: _ =>
            if startsWord previous c rest.head? then current.reverse :: wordsFrom [c] rest
            else wordsFrom (c :: current) rest

def words (name : String) : List String := (wordsFrom [] name.toList).map String.ofList

end RecordCodec.Naming
