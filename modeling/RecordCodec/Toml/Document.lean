import RecordCodec.Toml.Parser

/-!
TOML documents: statements put together into one table. A setting and a table may each appear once.
A header may name a table that so far only longer headers have implied; a route of keys may go on
in tables that other routes of the same table began, but not into those with a header of their own.

Tables keep their keys in the order of the text until they are whole, for the first key decides
what a table is: under the moment key a string gives a date or a time, and the table stands for it.
-/

namespace RecordCodec.Toml

/-- Where a table comes from: a header names it, longer headers imply it, a route of keys passes
through it, or it is written inline and complete. -/
inductive TableOrigin where
  | named
  | implied
  | passed
  | inline
deriving DecidableEq, Repr

/-- A part of a document under way. -/
inductive Draft where
  | quoted (s : String)
  | word (value : ConfigValue)
  | array (items : List Draft)
  | table (origin : TableOrigin) (entries : List (String × Draft))
  | tables (earlier : List (List (String × Draft))) (last : List (String × Draft))

namespace Draft

/-! ### Building -/

/-- Entries of a table on the way, as a change sees them: with the table's origin. -/
abbrev Change := TableOrigin → List (String × Draft) → Option (List (String × Draft))

/-- Changes what stands under a key; a new key comes last. -/
def atKey (key : String) (change : Option Draft → Option Draft) :
    List (String × Draft) → Option (List (String × Draft))
  | [] => (change none).map fun draft => [(key, draft)]
  | (k, d) :: rest =>
      if k = key then (change (some d)).map fun draft => (k, draft) :: rest
      else (atKey key change rest).map ((k, d) :: ·)

/-- Follows the keys and changes the table they lead to. A table that is missing on the way is
added. In an array of tables the way goes on in the last. -/
def follow (added : TableOrigin) (change : Change) : List String → Change
  | [], origin, entries => change origin entries
  | key :: keys, _, entries =>
      entries |> atKey key fun
        | none => (follow added change keys added []).map (.table added)
        | some (.tables earlier last) =>
            (follow added change keys .named last).map (.tables earlier)
        | some (.table origin inner) =>
            if origin = .inline || added = .passed && origin = .named then none
            else (follow added change keys origin inner).map (.table origin)
        | some _ => none

/-- Puts a draft under a key that is free. After a route of keys the table must be one that such
routes pass through. -/
def putNew (key : String) (routed : Bool) (draft : Draft) : Change := fun origin entries =>
  if routed && origin ≠ .passed then none
  else entries |> atKey key fun
    | none => some draft
    | some _ => none

/-- Puts a draft where a route of keys leads from a table. -/
def putAt (route : List String) (draft : Draft) : Change := fun origin entries =>
  match route.getLast? with
  | some key =>
      follow .passed (putNew key (1 < route.length) draft) route.dropLast origin entries
  | none => none

/-- Names a table, which is new or was implied so far; it comes last in either case. -/
def nameTable (key : String) : Change := fun _ entries =>
  match Entries.get? key entries with
  | none => some (entries ++ [(key, .table .named [])])
  | some (.table .implied inner) =>
      some (entries.filter (fun e => e.1 ≠ key) ++ [(key, .table .named inner)])
  | some _ => none

/-- Adds a table to an array of tables, which may be new. -/
def addTable (key : String) : Change := fun _ entries =>
  entries |> atKey key fun
    | none => some (.tables [] [])
    | some (.tables earlier last) => some (.tables (earlier ++ [last]) [])
    | some _ => none

/-! ### What a draft stands for -/

/-- A table whose first key is this one stands for a date or a time. -/
def momentKey : String := "$__toml_private_datetime"

/-- The date or time that a string gives. -/
def moment? : Draft → Option ConfigValue
  | .quoted s => (Moment.ofChars? .quoted s.toList).map fun moment => .text moment.text
  | _ => none

mutual

def value? : Draft → Option ConfigValue
  | .quoted s => some (.text s)
  | .word v => some v
  | .array items => (itemValues? items).map .list
  | .table _ entries => tableValue? entries
  | .tables earlier last =>
      match tableValues? earlier, tableValue? last with
      | some vs, some v => some (.list (vs ++ [v]))
      | _, _ => none

def itemValues? : List Draft → Option (List ConfigValue)
  | [] => some []
  | draft :: rest =>
      match draft.value?, itemValues? rest with
      | some v, some vs => some (v :: vs)
      | _, _ => none

/-- What a table stands for. Under the moment key, what follows does not count. -/
def tableValue? : List (String × Draft) → Option ConfigValue
  | [] => some (.table [])
  | (key, draft) :: rest =>
      if key = momentKey then draft.moment?
      else match draft.value?, entryValues? rest with
        | some v, some entries => some (.table (Entries.ofList ((key, v) :: entries)))
        | _, _ => none

def entryValues? : List (String × Draft) → Option (List (String × ConfigValue))
  | [] => some []
  | (key, draft) :: rest =>
      match draft.value?, entryValues? rest with
      | some v, some entries => some ((key, v) :: entries)
      | _, _ => none

def tableValues? : List (List (String × Draft)) → Option (List ConfigValue)
  | [] => some []
  | entries :: rest =>
      match tableValue? entries, tableValues? rest with
      | some v, some vs => some (v :: vs)
      | _, _ => none

end

end Draft

mutual

/-- The draft of what was written, with inline tables put together. -/
def Written.draft? : Written → Option Draft
  | .quoted s => some (.quoted s)
  | .word v => some (.word v)
  | .array items => (itemDrafts? items).map .array
  | .inlineTable settings => (addSettings? [] settings).map (.table .inline)

def itemDrafts? : List Written → Option (List Draft)
  | [] => some []
  | w :: rest =>
      match w.draft?, itemDrafts? rest with
      | some draft, some drafts => some (draft :: drafts)
      | _, _ => none

/-- Adds the settings of an inline table to its entries in turn. -/
def addSettings? (entries : List (String × Draft)) :
    List (List String × Written) → Option (List (String × Draft))
  | [] => some entries
  | (route, w) :: rest =>
      match w.draft? with
      | some draft =>
          match Draft.putAt route draft .named entries with
          | some entries => addSettings? entries rest
          | none => none
      | none => none

end

/-- A document under way: its entries so far and the route to the table that settings go to. -/
structure Document where
  entries : List (String × Draft)
  current : List String

def Document.add (d : Document) : Statement → Option Document
  | .header route =>
      route.getLast?.bind fun key =>
        (Draft.follow .implied (Draft.nameTable key) route.dropLast .named d.entries).map
          (⟨·, route⟩)
  | .arrayHeader route =>
      route.getLast?.bind fun key =>
        (Draft.follow .implied (Draft.addTable key) route.dropLast .named d.entries).map
          (⟨·, route⟩)
  | .setting route written =>
      written.draft?.bind fun draft =>
        (Draft.follow .implied (Draft.putAt route draft) d.current .named d.entries).map
          (⟨·, d.current⟩)

/-- The entries of a whole document, which must stand for a table. -/
def Document.entries? (d : Document) : Option (List (String × ConfigValue)) :=
  match Draft.tableValue? d.entries with
  | some (.table entries) => some entries
  | _ => none

/-- Reads a text, before which a byte-order mark may stand, as the entries of one table. -/
def read? (text : String) : Option (List (String × ConfigValue)) :=
  let cs := match text.toList with
    | '\uFEFF' :: rest => rest
    | cs => cs
  (readStatements cs).bind fun statements =>
    (statements.foldlM Document.add ⟨[], []⟩).bind Document.entries?

end RecordCodec.Toml
