import RecordCodec.Codec.Basic
import RecordCodec.Token.Reading

/-!
Decoding: running a decoder against a token stream. A null stands for a value of any type. Keys
that a record does not declare are skipped with their values; of several entries with one key the
last counts; absent keys leave the field as it was initially.

Every value takes at least one token, so the readers below call each other on ever shorter
streams, whatever records refer to each other.
-/

namespace RecordCodec

open Token (malformed readJson skipValue)

/-- Reads one token as a scalar; `none` when the token is no such scalar. -/
def readScalar (kind : ScalarKind) (t : Token) : Except Error (Option Value) :=
  match kind, t with
  | .string, .string s => .ok (some (.string s))
  | .int, .number literal => .ok ((Text.readInt32? literal).map .int)
  | .long, .number literal => .ok ((Text.readInt64? literal).map .long)
  | .decimal, .number literal => decimal literal
  | .decimal, .string literal => decimal literal
  | .boolean, .boolean b => .ok (some (.boolean b))
  | _, _ => .ok none
where
  decimal (literal : String) : Except Error (Option Value) :=
    match Decimal.read literal with
    | .ok d => .ok (some (.decimal d))
    | .error .malformed => .ok none
    | .error .exponentOverflow => .error (.exponentOverflow literal)

/-- Takes a scalar off the stream. -/
def decodeScalar (kind : ScalarKind) (path : Path) (ts : List Token) :
    Except Stop (Value × Shorter ts) :=
  match ts with
  | [] => .error (malformed path .endOfStream [])
  | t :: rest =>
      match readScalar kind t with
      | .ok (some v) => .ok (v, .tail t rest)
      | .ok none => .error ⟨.decodeValue path kind t, path, rest⟩
      | .error e => .error ⟨e, path, rest⟩

/-- Takes an expected token off the stream. -/
def expectToken (wanted : Token) (path : Path) (ts : List Token) : Except Stop (Shorter ts) :=
  match ts with
  | [] => .error (malformed path .endOfStream [])
  | t :: rest =>
      if t = wanted then .ok (.tail t rest)
      else .error (malformed path (.unexpected (.token wanted) t) rest)

mutual

/-- Reads one value by a plan. -/
def decodeAt (decoders : QualifiedName → Option Decoder) (plan : Plan CodecRef) (path : Path)
    (ts : List Token) : Except Stop (Value × Shorter ts) :=
  match ts with
  | .null :: rest => .ok (.null, .tail _ rest)
  | ts =>
      match plan with
      | .scalar kind => decodeScalar kind path ts
      | .list item =>
          match expectToken .startArray path ts with
          | .error stop => .error stop
          | .ok ⟨rest, h⟩ =>
              match decodeItems decoders item path 0 rest with
              | .error stop => .error stop
              | .ok (items, ⟨rest', h'⟩) => .ok (.list items, ⟨rest', by omega⟩)
      | .map value =>
          match expectToken .startObject path ts with
          | .error stop => .error stop
          | .ok ⟨rest, h⟩ =>
              match decodeEntries decoders value path [] rest with
              | .error stop => .error stop
              | .ok (entries, ⟨rest', h'⟩) => .ok (.map entries, ⟨rest', by omega⟩)
      | .document => (readJson path ts).map fun p => (.document p.1, p.2)
      | .record ref =>
          match decoders ref.record with
          | none => .error ⟨.unknownRecord ref.codec.text, path, ts⟩
          | some decoder =>
              match expectToken .startObject path ts with
              | .error stop => .error stop
              | .ok ⟨rest, h⟩ =>
                  match decodeFields decoders decoder path decoder.initial rest with
                  | .error stop => .error stop
                  | .ok (record, ⟨rest', h'⟩) => .ok (record.toValue, ⟨rest', by omega⟩)
termination_by 2 * ts.length
decreasing_by all_goals omega

/-- Reads the items of a list from position `i` on, up to its end. -/
def decodeItems (decoders : QualifiedName → Option Decoder) (item : Plan CodecRef) (path : Path)
    (i : Nat) (ts : List Token) : Except Stop (List Value × Shorter ts) :=
  match ts with
  | .endArray :: rest => .ok ([], .tail _ rest)
  | ts =>
      match decodeAt decoders item (path.push (.index i)) ts with
      | .error stop => .error stop
      | .ok (v, ⟨rest, h⟩) =>
          match decodeItems decoders item path (i + 1) rest with
          | .error stop => .error stop
          | .ok (vs, ⟨rest', h'⟩) => .ok (v :: vs, ⟨rest', by omega⟩)
termination_by 2 * ts.length + 1
decreasing_by all_goals omega

/-- Reads the entries of a map, up to its end, and adds them to those already held. -/
def decodeEntries (decoders : QualifiedName → Option Decoder) (value : Plan CodecRef)
    (path : Path) (held : List (String × Value)) (ts : List Token) :
    Except Stop (List (String × Value) × Shorter ts) :=
  match ts with
  | [] => .error (malformed path .endOfStream [])
  | .endObject :: rest => .ok (held, .tail _ rest)
  | .fieldName key :: rest =>
      match decodeAt decoders value (path.push (.key key)) rest with
      | .error stop => .error stop
      | .ok (v, ⟨rest', h⟩) =>
          match decodeEntries decoders value path (Entries.put key v held) rest' with
          | .error stop => .error stop
          | .ok (entries, ⟨rest'', h'⟩) =>
              .ok (entries, ⟨rest'', by simp only [List.length_cons]; omega⟩)
  | t :: rest => .error (malformed path (.unexpected .mapKey t) rest)
termination_by 2 * ts.length + 1
decreasing_by all_goals simp only [List.length_cons]; omega

/-- Reads the fields of a record, up to its end, into a record under way. -/
def decodeFields (decoders : QualifiedName → Option Decoder) (decoder : Decoder) (path : Path)
    (record : Record) (ts : List Token) : Except Stop (Record × Shorter ts) :=
  match ts with
  | [] => .error (malformed path .endOfStream [])
  | .endObject :: rest => .ok (record, .tail _ rest)
  | .fieldName key :: rest =>
      match decoder.fieldFor? key with
      | some f =>
          match decodeAt decoders f.plan (path.push (.field f.wireKey)) rest with
          | .error stop => .error stop
          | .ok (v, ⟨rest', h⟩) =>
              match decodeFields decoders decoder path (record.set f.field v) rest' with
              | .error stop => .error stop
              | .ok (record', ⟨rest'', h'⟩) =>
                  .ok (record', ⟨rest'', by simp only [List.length_cons]; omega⟩)
      | none =>
          match skipValue (path.push (.field key)) rest with
          | .error stop => .error stop
          | .ok ⟨rest', h⟩ =>
              match decodeFields decoders decoder path record rest' with
              | .error stop => .error stop
              | .ok (record', ⟨rest'', h'⟩) =>
                  .ok (record', ⟨rest'', by simp only [List.length_cons]; omega⟩)
  | t :: rest => .error (malformed path (.unexpected .fieldName t) rest)
termination_by 2 * ts.length + 1
decreasing_by all_goals simp only [List.length_cons]; omega

end

/-! ### Entry points -/

/-- Reads one value by a plan, and gives it with the tokens left. -/
def decodeValue (decoders : QualifiedName → Option Decoder) (plan : Plan CodecRef) (path : Path)
    (ts : List Token) : Except Stop (Value × List Token) :=
  (decodeAt decoders plan path ts).map fun p => (p.1, p.2.1)

/-- Reads one record; unlike a field's value it cannot be null. -/
def decodeRecord (decoders : QualifiedName → Option Decoder) (name : QualifiedName)
    (ts : List Token) : Except Stop (Record × List Token) :=
  match decoders name with
  | none => .error ⟨.unknownRecord name.text, .empty, ts⟩
  | some decoder =>
      match expectToken .startObject (.root name.name) ts with
      | .error stop => .error stop
      | .ok ⟨rest, _⟩ =>
          (decodeFields decoders decoder (.root name.name) decoder.initial rest).map fun p =>
            (p.1, p.2.1)

/-- Reads a whole document by a plan, with no records at hand. -/
def decodeDetached (plan : Plan CodecRef) (json : Json) (root : String) : Except Error Value :=
  match decodeValue (fun _ => none) plan (.root root) json.tokens with
  | .error stop => .error stop.error
  | .ok (v, []) => .ok v
  | .ok (_, _ :: _) => .error (.malformedStream (.root root) .trailingTokens)

end RecordCodec
