import RecordCodec.Catalog
import RecordCodec.Codec.Reservations
import RecordCodec.References.Cycles
import RecordCodec.Schema.Forest
import RecordCodec.Settings.Basic

/-!
Compilation of a schema into a catalog.

Records are finished depth first, so that a record comes after those it depends on. A struct field
without an identity gets a record of its own. All fields with one identity share a record, made
from the first field that owns the identity; the record is registered before its fields are
compiled, so that a reference back to it ends there.

Compiling a field descends into its nested fields, or jumps to the owner of an identity. A jump
registers an identity that was not registered before, so no more jumps can nest than the schema
has fields. The number of jumps still allowed is an argument of its own, and the descent between
two jumps follows the tree.
-/

namespace RecordCodec

/-- What is known while a schema is being compiled. -/
structure Run where
  typeNames : Naming.UsedNames
  /-- The records of identities met so far. -/
  identities : List (String × ArtifactNames)
  codecs : Reservations
  /-- Finished records, in the order in which they were finished. -/
  records : List RecordDefinition

namespace Compile

def start : Run := ⟨.empty, [], .empty, []⟩

/-- What does not change during a compilation. -/
structure Setting where
  settings : Settings
  forest : Forest

namespace Setting

def isExternal (c : Setting) (identity : String) : Bool :=
  c.forest.isExternal identity || c.settings.external.contains identity

/-- Claims the names of a new record. -/
def allocate (c : Setting) (identity : Option String) (enclosing field : String) (run : Run) :
    ArtifactNames × Run :=
  let style := c.settings.naming
  let (name, typeNames) :=
    run.typeNames.claim (style.baseName identity enclosing field) style.marker
  (style.artifactNames name, { run with typeNames })

end Setting

/-! ### Fields -/

/-- Checks a declared default against the type and gives the value it stands for. -/
def compileDefault (type : FieldType) (json : Json) (place : Place) : Except Error Value :=
  if type.isStructLeaf then .error (.defaultOnStruct place type)
  else match decodeDetached (.ofType none type) json place.text with
    | .ok v => .ok v
    | .error e => .error (if e.endsRun then e else .invalidDefault place e)

def compileDefault? (type : FieldType) (place : Place) :
    Option Json → Except Error (Option Value)
  | none => .ok none
  | some json => (compileDefault type json place).map some

/-- The compiled form of a field whose type and target are known. -/
def recordField (f : Field) (accessor constant : String) (type : FieldType)
    (target : Option Target) (default : Option Value) : RecordField where
  name := f.name
  wireKey := f.wireKey
  accessor := accessor
  constant := constant
  type := type
  target := target
  signature := signature target type
  description := f.description
  default := default
  sample := f.sample
  position := f.position

/-- The definition of a record made from its owner, once the owner's fields are compiled. -/
def recordDefinition (owner : Field) (names : ArtifactNames) (identity : Option String)
    (fields : List RecordField) : RecordDefinition where
  names := names
  identity := identity
  description := owner.description
  fields := fields
  capabilities := owner.capabilities
  fingerprint := .ofShape names.record.name (fields.map fun f => (f.name, f.signature))
    owner.capabilities
  methods := fields.map RecordField.method

/-- Adds a finished record. -/
def addRecord (owner : Field) (names : ArtifactNames) (identity : Option String)
    (fields : List RecordField) (run : Run) : Run :=
  { run with
    codecs := run.codecs.fill (.generate names fields)
    records := run.records ++ [recordDefinition owner names identity fields] }

/-- Makes a record from its owner, given how the owner's fields are compiled. Nothing is made for
a name that is reserved already. -/
def buildRecord (owner : Field) (names : ArtifactNames) (identity : Option String)
    (compileFields : Run → Except Error (List RecordField × Run)) (run : Run) :
    Except Error Run :=
  match run.codecs.reserve? names.record with
  | none => .ok run
  | some codecs =>
      match compileFields { run with codecs } with
      | .error e => .error e
      | .ok (fields, run) => .ok (addRecord owner names identity fields run)

/-! ### Structs -/

/-- How the owner of an identity is turned into a record with these names, for a reference at this
place. -/
abbrev OpenOwner := String → ArtifactNames → Place → Field → Run → Except Error Run

mutual

/-- The target of a field with a struct leaf, whose record is made if it is met for the first
time. -/
def resolveStruct (c : Setting) (openOwner : OpenOwner) (enclosing : String) (place : Place)
    (run : Run) : Field → Except Error (Target × Run)
  | f@{ properties := ps, .. } =>
      match f.identity with
      | none =>
          if ps.isEmpty then .ok (.document, run)
          else
            let (names, run) := c.allocate none enclosing f.name run
            let style := c.settings.naming
            let raw := ps.map (·.name)
            match buildRecord f names none
              (compileFields c openOwner names.record.name place (style.accessors raw)
                (style.constants raw) ps) run with
            | .error e => .error e
            | .ok run => .ok (.generated names, run)
      | some identity =>
          match run.identities.lookup identity with
          | some names => .ok (.generated names, run)
          | none =>
              match c.forest.owner? identity with
              | some owner =>
                  let (names, run) := c.allocate (some identity) enclosing f.name run
                  let run := { run with identities := (identity, names) :: run.identities }
                  match openOwner identity names place owner run with
                  | .error e => .error e
                  | .ok run => .ok (.generated names, run)
              | none =>
                  if c.isExternal identity then .ok (.document, run)
                  else .error (.unresolvedReference identity place)

/-- Compiles the fields nested at `place` in the record `enclosing`, with the accessors and
constants they are to have. -/
def compileFields (c : Setting) (openOwner : OpenOwner) (enclosing : String) (place : Place)
    (accessors constants : List String) :
    List Field → Run → Except Error (List RecordField × Run)
  | [], run => .ok ([], run)
  | f :: rest, run =>
      match f.type? c.settings.untyped with
      | none => .error (.untypedField [f.name])
      | some type =>
          let here := place ++ [f.name]
          match (if type.isStructLeaf then
              (resolveStruct c openOwner enclosing here run f).map fun p => (some p.1, p.2)
            else .ok (none, run)) with
          | .error e => .error e
          | .ok (target, run) =>
              match compileDefault? type here f.default with
              | .error e => .error e
              | .ok default =>
                  let field := recordField f (accessors.headD "") (constants.headD "") type
                    target default
                  match compileFields c openOwner enclosing place accessors.tail constants.tail
                    rest run with
                  | .error e => .error e
                  | .ok (fields, run) => .ok (field :: fields, run)

end

/-- Opens owners with so many nested jumps allowed. The schema's number of fields is enough, so
that running out is no case of its own. -/
def openOwnerWithin (c : Setting) : Nat → OpenOwner
  | 0, identity, _, place, _, _ => .error (.unresolvedReference identity place)
  | jumps + 1, identity, names, place, owner, run =>
      let style := c.settings.naming
      let raw := owner.properties.map (·.name)
      buildRecord owner names (some identity)
        (compileFields c (openOwnerWithin c jumps) names.record.name place (style.accessors raw)
          (style.constants raw) owner.properties) run

def openOwner (c : Setting) : OpenOwner := openOwnerWithin c (c.forest.fieldCount + 1)

/-! ### Roots -/

/-- Compiles one root, and gives the name of its record. -/
def compileRoot (c : Setting) (run : Run) (root : Field) : Except Error (QualifiedName × Run) :=
  match root.type? c.settings.untyped with
  | none => .error (.untypedField [root.name])
  | some .struct =>
      match resolveStruct c (openOwner c) "" [root.name] run root with
      | .error e => .error e
      | .ok (.generated names, run) => .ok (names.record, run)
      | .ok (.document, _) => .error (.rootWithoutProperties root.name)
  | some type => .error (.rootNotStruct root.name type)

/-- Compiles the roots in order, and gives the names of their records. -/
def compileRoots (c : Setting) (run : Run) :
    List Field → Except Error (List QualifiedName × Run)
  | [] => .ok ([], run)
  | root :: rest =>
      match compileRoot c run root with
      | .error e => .error e
      | .ok (name, run) =>
          match compileRoots c run rest with
          | .error e => .error e
          | .ok (names, run) => .ok (name :: names, run)

/-! ### Assembly -/

/-- Marks a record as a root and as recursive, and its fields as boxed. -/
def flagged (roots : List QualifiedName) (groups : List CycleGroup) (r : RecordDefinition) :
    RecordDefinition :=
  { r with
    root := roots.contains r.name
    recursive := isRecursive groups r.name
    fields := r.fields.map fun f => { f with boxed := needsBox groups r.name f.name } }

/-- The entries of finished records, whose codecs are taken out one by one. -/
def assemble (roots : List QualifiedName) (groups : List CycleGroup) (codecs : Reservations) :
    List RecordDefinition → Except Error (List Entry)
  | [] => .ok []
  | r :: rest =>
      match codecs.take? r.name with
      | none => .error (.unknownRecord r.name.text)
      | some (pair, codecs) =>
          let definition := flagged roots groups r
          let builder := if definition.root then some (Builder.ofRecord definition) else none
          match assemble roots groups codecs rest with
          | .error e => .error e
          | .ok entries => .ok (⟨definition, pair.decoder, pair.encoder, builder⟩ :: entries)

def finish (roots : List QualifiedName) (run : Run) : Except Error Catalog :=
  match run.codecs.pending with
  | name :: _ => .error (.unknownRecord (name.text ++ " (reserved but never generated)"))
  | [] =>
      let groups := (ReferenceGraph.ofRecords run.records).cycleGroups
      (assemble roots groups run.codecs run.records).map Catalog.mk

end Compile

/-- Compiles a schema. -/
def Forest.compile (settings : Settings) (forest : Forest) : Except Error Catalog :=
  match forest.validate settings.untyped with
  | .error e => .error e
  | .ok () =>
      match Compile.compileRoots ⟨settings, forest⟩ Compile.start forest.roots with
      | .error e => .error e
      | .ok (roots, run) => Compile.finish roots run

end RecordCodec
