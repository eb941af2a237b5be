import RecordCodec.Codec.Decode
import RecordCodec.Codec.Encode
import RecordCodec.Record.Builder

/-!
Catalogs: everything that one compilation generates. A catalog lists its records with their codecs
and builders, each record after those it depends on, and runs them: it decodes, encodes, compares
and copies records of its kinds.

Records can be asked for by simple or by qualified name. A qualified spelling names the last
record that has it; a simple spelling names the first record that has it, unless it is also the
qualified spelling of a record.
-/

namespace RecordCodec

/-- A record with everything generated for it. -/
structure Entry where
  definition : RecordDefinition
  decoder : Decoder
  encoder : Encoder
  builder : Option Builder
deriving DecidableEq

def Entry.name (e : Entry) : QualifiedName := e.definition.name

/-- One generated artifact. -/
inductive Artifact where
  | record (definition : RecordDefinition)
  | decoder (decoder : Decoder)
  | encoder (encoder : Encoder)
  | builder (builder : Builder)
deriving DecidableEq

namespace Artifact

def name : Artifact → QualifiedName
  | .record r => r.name
  | .decoder d => d.name
  | .encoder e => e.name
  | .builder b => b.name

def kind : Artifact → String
  | .record _ => "record"
  | .decoder _ => "decoder"
  | .encoder _ => "encoder"
  | .builder _ => "builder"

end Artifact

def Entry.artifacts (e : Entry) : List Artifact :=
  [.record e.definition, .decoder e.decoder, .encoder e.encoder] ++
    (e.builder.map Artifact.builder).toList

structure Catalog where
  entries : List Entry
deriving DecidableEq

namespace Catalog

/-- All artifacts in the order of delivery. -/
def artifacts (c : Catalog) : List Artifact := c.entries.flatMap Entry.artifacts

def records (c : Catalog) : List RecordDefinition := c.entries.map (·.definition)

/-! ### Looking up -/

/-- The entry of a record; of several with one name the last counts. -/
def entry? (c : Catalog) (name : QualifiedName) : Option Entry :=
  c.entries.reverse.find? (·.name = name)

def decoder? (c : Catalog) (name : QualifiedName) : Option Decoder :=
  (c.entry? name).map (·.decoder)

def encoder? (c : Catalog) (name : QualifiedName) : Option Encoder :=
  (c.entry? name).map (·.encoder)

def builderOf? (c : Catalog) (name : QualifiedName) : Option Builder :=
  (c.entry? name).bind (·.builder)

def methods (c : Catalog) : MethodTable := fun name =>
  (c.entry? name).map (·.definition.methods)

/-- What a spelling names after one more record. -/
def renamed (spelling : String) (found : Option QualifiedName) (e : Entry) :
    Option QualifiedName :=
  let found := if e.name.text = spelling then some e.name else found
  if e.name.name = spelling then some (found.getD e.name) else found

def resolve? (c : Catalog) (spelling : String) : Option QualifiedName :=
  c.entries.foldl (renamed spelling) none

def resolve (c : Catalog) (spelling : String) : Except Error QualifiedName :=
  match c.resolve? spelling with
  | some name => .ok name
  | none => .error (.unknownRecord spelling)

def record? (c : Catalog) (spelling : String) : Option RecordDefinition :=
  ((c.resolve? spelling).bind c.entry?).map (·.definition)

/-! ### Making records -/

/-- A record in its initial state. -/
def newRecord (c : Catalog) (spelling : String) : Except Error Record := do
  let name ← c.resolve spelling
  match c.decoder? name with
  | some decoder => return decoder.initial
  | none => throw (.unknownRecord spelling)

/-- The builder of a root record with the record it starts from. -/
def builder (c : Catalog) (spelling : String) : Except Error (Builder × Record) := do
  let name ← c.resolve spelling
  match c.builderOf? name with
  | some builder => return (builder, ← c.newRecord spelling)
  | none => throw (.unknownRecord (spelling ++ " (no builder)"))

/-! ### Codecs -/

/-- Decodes a record off a token stream. -/
def decode (c : Catalog) (spelling : String) (ts : List Token) :
    Except Stop (Record × List Token) :=
  match c.resolve spelling with
  | .ok name => decodeRecord c.decoder? name ts
  | .error e => .error ⟨e, .empty, ts⟩

/-- Decodes a record from a document. -/
def decodeJson (c : Catalog) (spelling : String) (json : Json) : Except Error Record :=
  match c.decode spelling json.tokens with
  | .ok (record, _) => .ok record
  | .error stop => .error stop.error

/-- Encodes a record as tokens. -/
def encode (c : Catalog) (r : Record) : Written := encodeRecord c.encoder? r

/-- Encodes a record as a document. -/
def encodeJson (c : Catalog) (r : Record) : Except Error Json :=
  match c.encode r with
  | ⟨ts, none⟩ => Token.toJson ts
  | ⟨_, some e⟩ => .error e

/-! ### Delivery -/

/-- Something that artifacts are handed to one after another. -/
structure Sink (σ : Type) where
  accept : σ → Artifact → Except Error σ
  finish : σ → Except Error σ

/-- Hands artifacts over until one is refused: the sink's state then, with the reason if there
is one. -/
def deliver {σ : Type} (sink : Sink σ) : σ → List Artifact → σ × Option Error
  | s, [] =>
      match sink.finish s with
      | .ok s => (s, none)
      | .error e => (s, some e)
  | s, a :: rest =>
      match sink.accept s a with
      | .ok s => deliver sink s rest
      | .error e => (s, some e)

def emit {σ : Type} (c : Catalog) (sink : Sink σ) (s : σ) : σ × Option Error :=
  deliver sink s c.artifacts

end Catalog
end RecordCodec
