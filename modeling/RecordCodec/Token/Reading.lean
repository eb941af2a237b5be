import RecordCodec.Error

/-!
Reading documents off a token stream. A reader takes at least one token when it succeeds, which it
proves, so that every loop over a stream ends. When it fails it says why, at which path, and which
tokens it had not taken by then: a failure does not give tokens back.
-/

namespace RecordCodec

/-- How reading ended short: the cause, where it stood, and what was left of the stream. -/
structure Stop where
  error : Error
  path : Path
  rest : List Token
deriving DecidableEq, Repr

/-- What is left of a stream after at least one of its tokens was taken. -/
abbrev Shorter (ts : List Token) := { rest : List Token // rest.length < ts.length }

/-- The tokens after the first. -/
def Shorter.tail (t : Token) (rest : List Token) : Shorter (t :: rest) :=
  ⟨rest, Nat.lt_succ_self rest.length⟩

namespace Token

/-- A stream out of form at `path`. -/
def malformed (path : Path) (fault : StreamFault) (rest : List Token) : Stop :=
  ⟨.malformedStream path fault, path, rest⟩

mutual

/-- Reads one document. Of several entries with one key the last counts. -/
def readJson (path : Path) (ts : List Token) : Except Stop (Json × Shorter ts) :=
  match ts with
  | [] => .error (malformed path .endOfStream [])
  | .null :: rest => .ok (.null, .tail _ rest)
  | .boolean b :: rest => .ok (.bool b, .tail _ rest)
  | .string s :: rest => .ok (.string s, .tail _ rest)
  | .number literal :: rest =>
      match Numeral.ofText? literal with
      | some n => .ok (.number n, .tail _ rest)
      | none => .error (malformed path (.badNumber literal) rest)
  | .startArray :: rest =>
      match readItems path rest with
      | .error stop => .error stop
      | .ok (items, ⟨rest', h⟩) =>
          .ok (.array items, ⟨rest', by simp only [List.length_cons]; omega⟩)
  | .startObject :: rest =>
      match readEntries path [] rest with
      | .error stop => .error stop
      | .ok (entries, ⟨rest', h⟩) =>
          .ok (.object entries, ⟨rest', by simp only [List.length_cons]; omega⟩)
  | t :: rest => .error (malformed path (.unexpected .value t) rest)
termination_by 2 * ts.length
decreasing_by all_goals simp only [List.length_cons]; omega

/-- Reads documents up to the end of the array. -/
def readItems (path : Path) (ts : List Token) : Except Stop (List Json × Shorter ts) :=
  match ts with
  | .endArray :: rest => .ok ([], .tail _ rest)
  | ts =>
      match readJson path ts with
      | .error stop => .error stop
      | .ok (item, ⟨rest, h⟩) =>
          match readItems path rest with
          | .error stop => .error stop
          | .ok (items, ⟨rest', h'⟩) => .ok (item :: items, ⟨rest', by omega⟩)
termination_by 2 * ts.length + 1
decreasing_by all_goals omega

/-- Reads entries up to the end of the object and adds them to those already held. -/
def readEntries (path : Path) (held : List (String × Json)) (ts : List Token) :
    Except Stop (List (String × Json) × Shorter ts) :=
  match ts with
  | [] => .error (malformed path .unterminatedObject [])
  | .endObject :: rest => .ok (held, .tail _ rest)
  | .fieldName key :: rest =>
      match readJson path rest with
      | .error stop => .error stop
      | .ok (value, ⟨rest', h⟩) =>
          match readEntries path (Entries.put key value held) rest' with
          | .error stop => .error stop
          | .ok (entries, ⟨rest'', h'⟩) =>
              .ok (entries, ⟨rest'', by simp only [List.length_cons]; omega⟩)
  | t :: rest => .error (malformed path (.unexpected .fieldName t) rest)
termination_by 2 * ts.length + 1
decreasing_by all_goals simp only [List.length_cons]; omega

end

/-- Skips tokens until as many containers are closed as were open, `depth` of them at first. -/
def skipFrom (path : Path) : (depth : Nat) → (ts : List Token) → Except Stop (Shorter ts)
  | _, [] => .error (malformed path .endWhileSkipping [])
  | depth, t :: rest =>
      let keepOn (depth : Nat) : Except Stop (Shorter (t :: rest)) :=
        (skipFrom path depth rest).map fun left => ⟨left.1, Nat.lt_succ_of_lt left.2⟩
      match t, depth with
      | .startObject, _ => keepOn (depth + 1)
      | .startArray, _ => keepOn (depth + 1)
      | .endObject, 0 => .error (malformed path .unbalancedEnd rest)
      | .endArray, 0 => .error (malformed path .unbalancedEnd rest)
      | .endObject, 1 => .ok (.tail t rest)
      | .endArray, 1 => .ok (.tail t rest)
      | .endObject, depth + 1 => keepOn depth
      | .endArray, depth + 1 => keepOn depth
      | .fieldName _, 0 => .error (malformed path (.unexpected .value t) rest)
      | .fieldName _, depth + 1 => keepOn (depth + 1)
      | _, 0 => .ok (.tail t rest)
      | _, depth + 1 => keepOn (depth + 1)

/-- Skips one value with everything nested in it. -/
def skipValue (path : Path) (ts : List Token) : Except Stop (Shorter ts) := skipFrom path 0 ts

/-- The document at the front of a stream; tokens after it do not matter. -/
def toJson (ts : List Token) : Except Error Json :=
  match readJson .empty ts with
  | .ok (json, _) => .ok json
  | .error stop => .error stop.error

end Token
end RecordCodec
