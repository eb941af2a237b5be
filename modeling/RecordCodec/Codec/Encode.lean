import RecordCodec.Codec.Basic
import RecordCodec.Error

/-!
Encoding: running an encoder against a record. Null is written for a value of any type, and an
integer may stand where a wider number is declared. Tokens written before a failure stay written.

A record's encoder asks for fields in its own order, so the writer of every entry is prepared
first and looked up when its turn comes; this way encoding follows the structure of the value.
-/

namespace RecordCodec

open Text (intText)

/-- What encoding wrote, and why it ended short if it did. -/
structure Written where
  tokens : List Token
  error : Option Error := none
deriving DecidableEq, Repr

namespace Written

/-- Goes on writing unless there was an error. -/
def andThen (a : Written) (b : Unit → Written) : Written :=
  match a.error with
  | some _ => a
  | none => ⟨a.tokens ++ (b ()).tokens, (b ()).error⟩

def fail (e : Error) : Written := ⟨[], some e⟩

@[simp] theorem andThen_done (ts : List Token) (b : Unit → Written) :
    (Written.mk ts none).andThen b = ⟨ts ++ (b ()).tokens, (b ()).error⟩ := rfl

@[simp] theorem andThen_failed (ts : List Token) (e : Error) (b : Unit → Written) :
    (Written.mk ts (some e)).andThen b = ⟨ts, some e⟩ := rfl

end Written

/-- The token of a scalar of the declared kind. -/
def scalarToken? (kind : ScalarKind) (v : Value) : Option Token :=
  match kind, v with
  | .string, .string s => some (.string s)
  | .int, .int i => some (.number (intText i.toInt))
  | .long, .int i => some (.number (intText i.toInt))
  | .long, .long i => some (.number (intText i.toInt))
  | .decimal, .decimal d => some (.number d.text)
  | .decimal, .int i => some (.number (intText i.toInt))
  | .decimal, .long i => some (.number (intText i.toInt))
  | .boolean, .boolean b => some (.boolean b)
  | _, _ => none

/-- How messages speak of what a plan expects. -/
def expectedText : Plan CodecRef → String
  | .scalar kind => kind.token
  | .list _ => "list"
  | .map _ => "map"
  | .document => "any value"
  | .record ref => ref.record.name

def mismatch (plan : Plan CodecRef) (path : Path) (v : Value) : Error :=
  .encodeValue path (expectedText plan) v.typeName

/-- A value as a free document. -/
def writeDocument (v : Value) : Written :=
  match v.rendering with
  | .ok _ => ⟨v.toJson.tokens, none⟩
  | .error e => .fail e

def writeScalar (kind : ScalarKind) (path : Path) (v : Value) : Written :=
  match v, scalarToken? kind v with
  | .decimal d, some t =>
      if d.isWritable then ⟨[t], none⟩ else .fail (.pointInsideCharacter (String.ofList d.digits))
  | _, some t => ⟨[t], none⟩
  | _, none => .fail (mismatch (.scalar kind) path v)

/-- A value ready to be written by any plan at any path. -/
abbrev Writer := Plan CodecRef → Path → Written

/-- Writes items by one plan, from position `i` on. -/
def writeItems (item : Plan CodecRef) (path : Path) (i : Nat) : List Writer → Written
  | [] => ⟨[], none⟩
  | w :: ws =>
      (w item (path.push (.index i))).andThen fun _ => writeItems item path (i + 1) ws

/-- Writes entries by one plan. -/
def writeEntries (value : Plan CodecRef) (path : Path) : List (String × Writer) → Written
  | [] => ⟨[], none⟩
  | (key, w) :: rest =>
      (Written.mk [.fieldName key] none).andThen fun _ =>
        (w value (path.push (.key key))).andThen fun _ => writeEntries value path rest

/-- Writes the fields of a record; a field that is not set is written as null. -/
def writeFields (path : Path) (writers : List (String × Writer)) : List EncodeField → Written
  | [] => ⟨[], none⟩
  | f :: rest =>
      (Written.mk [.fieldName f.wireKey] none).andThen fun _ =>
        (match Entries.get? f.field writers with
          | some w => w f.plan (path.push (.field f.wireKey))
          | none => ⟨[.null], none⟩).andThen fun _ => writeFields path writers rest

/-- Sets tokens around what was written. -/
def between (opening closing : Token) (w : Written) : Written :=
  (Written.mk [opening] none).andThen fun _ => w.andThen fun _ => ⟨[closing], none⟩

mutual

/-- Writes one value by a plan. -/
def encodeValue (encoders : QualifiedName → Option Encoder) : Value → Writer
  | .null, _, _ => ⟨[.null], none⟩
  | .list items, .list item, path =>
      between .startArray .endArray (writeItems item path 0 (itemWriters encoders items))
  | .map entries, .map value, path =>
      between .startObject .endObject (writeEntries value path (entryWriters encoders entries))
  | .record name fields, .record ref, path =>
      if name = ref.record then
        match encoders ref.record with
        | none => .fail (.unknownRecord ref.codec.text)
        | some encoder =>
            between .startObject .endObject
              (writeFields path (entryWriters encoders fields) encoder.fields)
      else .fail (mismatch (.record ref) path (.record name fields))
  | v, .document, _ => writeDocument v
  | v, .scalar kind, path => writeScalar kind path v
  | v, plan, path => .fail (mismatch plan path v)

def itemWriters (encoders : QualifiedName → Option Encoder) : List Value → List Writer
  | [] => []
  | v :: rest => encodeValue encoders v :: itemWriters encoders rest

def entryWriters (encoders : QualifiedName → Option Encoder) :
    List (String × Value) → List (String × Writer)
  | [] => []
  | (key, v) :: rest => (key, encodeValue encoders v) :: entryWriters encoders rest

end

theorem itemWriters_eq_map (encoders : QualifiedName → Option Encoder) (items : List Value) :
    itemWriters encoders items = items.map (encodeValue encoders) := by
  induction items with
  | nil => rfl
  | cons v rest ih => simp [itemWriters, ih]

theorem entryWriters_eq_map (encoders : QualifiedName → Option Encoder)
    (entries : List (String × Value)) :
    entryWriters encoders entries = entries.map fun p => (p.1, encodeValue encoders p.2) := by
  induction entries with
  | nil => rfl
  | cons p rest ih => simp [entryWriters, ih]

/-- Writes a record by the encoder of its kind. -/
def encodeRecord (encoders : QualifiedName → Option Encoder) (r : Record) : Written :=
  match encoders r.name with
  | none => .fail (.unknownRecord r.name.text)
  | some encoder =>
      between .startObject .endObject
        (writeFields (.root r.name.name) (entryWriters encoders r.fields) encoder.fields)

end RecordCodec
