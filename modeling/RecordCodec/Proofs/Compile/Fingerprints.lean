import RecordCodec.Proofs.Compile.Closed

/-!
What fingerprints tell apart. The fingerprint of a record is made from a text in which the parts of
its shape stand one after another, with a colon between the name and the signature of a field and
nothing between the other parts. The text does not tell where one part ends and the next begins, so
different shapes can have one text. Together with the lengths of the parts it determines the shape.
A single change to one part shows in it, and without colons in the parts it determines what stands
between the colons of the text; so renamed, reordered, added and removed fields show if none is
retyped, and retyped ones if none is renamed.
-/

namespace RecordCodec

/-- What the fingerprint of a record is made from. -/
structure Shape where
  name : String
  /-- The fields with the signatures of their types. -/
  fields : List (String × String)
  capabilities : List String
deriving DecidableEq, Repr

def RecordDefinition.shape (r : RecordDefinition) : Shape :=
  ⟨r.name.name, r.fields.map fun f => (f.name, f.signature), r.capabilities⟩

namespace Shape

/-- The text from which the fingerprint is made. -/
def text (s : Shape) : String := Fingerprint.shapeText s.name s.fields s.capabilities

/-- A field as it stands in the text. -/
def fieldChars (f : String × String) : List Char := f.1.toList ++ ':' :: f.2.toList

theorem toList_text (s : Shape) : s.text.toList =
    s.name.toList ++ (s.fields.flatMap fieldChars ++ s.capabilities.flatMap String.toList) := by
  have hfields : s.fields.flatMap fieldChars =
      s.fields.flatMap fun f => f.1.toList ++ ':' :: f.2.toList := rfl
  simp [text, Fingerprint.shapeText, String.toList_join, List.flatMap_map, hfields]

/-! ### Where the parts end -/

/-- The lengths of all parts. -/
def cuts (s : Shape) : Nat × List (Nat × Nat) × List Nat :=
  (s.name.length, s.fields.map fun f => (f.1.length, f.2.length),
    s.capabilities.map String.length)

/-- A row of parts that can be told by their sizes from what follows is determined by its sizes. -/
theorem flatMap_inj_of_sizes {α β : Type} {chars : α → List Char} {size : α → β}
    (hpart : ∀ {x y u v}, size x = size y → chars x ++ u = chars y ++ v → x = y ∧ u = v)
    {xs ys : List α} {u v : List Char} (hsizes : xs.map size = ys.map size)
    (h : xs.flatMap chars ++ u = ys.flatMap chars ++ v) : xs = ys ∧ u = v := by
  induction xs generalizing ys with
  | nil =>
      obtain rfl : ys = [] := List.map_eq_nil_iff.1 hsizes.symm
      exact ⟨rfl, by simpa using h⟩
  | cons x rest ih =>
      obtain ⟨y, later, rfl, hsize, hlater⟩ := List.map_eq_cons_iff.1 hsizes.symm
      rw [List.flatMap_cons, List.flatMap_cons, List.append_assoc, List.append_assoc] at h
      obtain ⟨rfl, hrest⟩ := hpart hsize.symm h
      obtain ⟨rfl, rfl⟩ := ih hlater.symm hrest
      exact ⟨rfl, rfl⟩

theorem string_inj_of_length {x y : String} {u v : List Char} (hsize : x.length = y.length)
    (h : x.toList ++ u = y.toList ++ v) : x = y ∧ u = v := by
  rw [← String.length_toList, ← String.length_toList] at hsize
  obtain ⟨hchars, hrest⟩ := List.append_inj h hsize
  exact ⟨String.toList_inj.1 hchars, hrest⟩

theorem field_inj_of_lengths {f g : String × String} {u v : List Char}
    (hsize : (f.1.length, f.2.length) = (g.1.length, g.2.length))
    (h : fieldChars f ++ u = fieldChars g ++ v) : f = g ∧ u = v := by
  rw [Prod.mk.injEq] at hsize
  rw [fieldChars, fieldChars, List.append_assoc, List.append_assoc] at h
  obtain ⟨hname, hrest⟩ := string_inj_of_length hsize.1 h
  rw [List.cons_append, List.cons_append, List.cons.injEq] at hrest
  obtain ⟨hsignature, hlater⟩ := string_inj_of_length hsize.2 hrest.2
  exact ⟨Prod.ext hname hsignature, hlater⟩

theorem eq_of_text_of_cuts {a b : Shape} (htext : a.text = b.text) (hcuts : a.cuts = b.cuts) :
    a = b := by
  obtain ⟨name, fields, capabilities⟩ := a
  obtain ⟨name', fields', capabilities'⟩ := b
  simp only [cuts, Prod.mk.injEq] at hcuts
  obtain ⟨hname, hfields, hcapabilities⟩ := hcuts
  rw [← String.toList_inj, toList_text, toList_text] at htext
  obtain ⟨rfl, hrest⟩ := string_inj_of_length hname htext
  obtain ⟨rfl, hrest⟩ := flatMap_inj_of_sizes field_inj_of_lengths hfields hrest
  have hends := congrArg (· ++ ([] : List Char)) hrest
  obtain ⟨rfl, _⟩ := flatMap_inj_of_sizes string_inj_of_length hcapabilities hends
  rfl

/-! ### Single changes -/

/-- One part of the first shape is changed, or one field or capability is added to it. -/
inductive Edit : Shape → Shape → Prop
  | name {name name' : String} {fields : List (String × String)} {capabilities : List String} :
      name ≠ name' → Edit ⟨name, fields, capabilities⟩ ⟨name', fields, capabilities⟩
  | rename {name field field' signature : String} {before after : List (String × String)}
      {capabilities : List String} : field ≠ field' →
      Edit ⟨name, before ++ (field, signature) :: after, capabilities⟩
        ⟨name, before ++ (field', signature) :: after, capabilities⟩
  | retype {name field signature signature' : String} {before after : List (String × String)}
      {capabilities : List String} : signature ≠ signature' →
      Edit ⟨name, before ++ (field, signature) :: after, capabilities⟩
        ⟨name, before ++ (field, signature') :: after, capabilities⟩
  | addField {name : String} {field : String × String} {before after : List (String × String)}
      {capabilities : List String} :
      Edit ⟨name, before ++ after, capabilities⟩ ⟨name, before ++ field :: after, capabilities⟩
  | capability {name capability capability' : String} {fields : List (String × String)}
      {before after : List String} : capability ≠ capability' →
      Edit ⟨name, fields, before ++ capability :: after⟩
        ⟨name, fields, before ++ capability' :: after⟩
  | addCapability {name capability : String} {fields : List (String × String)}
      {before after : List String} : capability ≠ "" →
      Edit ⟨name, fields, before ++ after⟩ ⟨name, fields, before ++ capability :: after⟩

/-- Around the changed part the texts are the same. -/
theorem Edit.text_ne {a b : Shape} (h : a.Edit b) : a.text ≠ b.text := by
  rw [Ne, ← String.toList_inj, toList_text, toList_text]
  cases h with
  | name hne => simpa [String.toList_inj] using hne
  | rename hne => simpa [fieldChars, String.toList_inj] using hne
  | retype hne => simpa [fieldChars, String.toList_inj] using hne
  | addField =>
      intro heq
      have hlength := congrArg List.length heq
      simp only [List.flatMap_append, List.flatMap_cons, List.length_append, fieldChars,
        List.length_cons] at hlength
      omega
  | capability hne => simpa [String.toList_inj] using hne
  | addCapability hne => simpa using hne

/-! ### Shapes without colons -/

/-- No part contains a colon. -/
structure Plain (s : Shape) : Prop where
  name : ':' ∉ s.name.toList
  fields : ∀ f ∈ s.fields, ':' ∉ f.1.toList ∧ ':' ∉ f.2.toList
  capabilities : ∀ c ∈ s.capabilities, ':' ∉ c.toList

instance (s : Shape) : Decidable s.Plain :=
  decidable_of_iff (':' ∉ s.name.toList ∧
      (∀ f ∈ s.fields, ':' ∉ f.1.toList ∧ ':' ∉ f.2.toList) ∧
      ∀ c ∈ s.capabilities, ':' ∉ c.toList)
    ⟨fun h => ⟨h.1, h.2.1, h.2.2⟩, fun h => ⟨h.name, h.fields, h.capabilities⟩⟩

def runsFrom (start : List Char) (capabilities : List String) :
    List (String × String) → List (List Char)
  | [] => [start ++ capabilities.flatMap String.toList]
  | f :: rest => (start ++ f.1.toList) :: runsFrom f.2.toList capabilities rest

/-- The parts of a shape as they run together: a part is told from the next only by the colon after
the name of a field. -/
def runs (s : Shape) : List (List Char) := runsFrom s.name.toList s.capabilities s.fields

@[simp] theorem length_runsFrom (start : List Char) (capabilities : List String)
    (fields : List (String × String)) :
    (runsFrom start capabilities fields).length = fields.length + 1 := by
  induction fields generalizing start with
  | nil => rfl
  | cons f rest ih => simp [runsFrom, ih]

theorem runsFrom_ne_nil (start : List Char) (capabilities : List String)
    (fields : List (String × String)) : runsFrom start capabilities fields ≠ [] := by
  cases fields with
  | nil => simp [runsFrom]
  | cons f rest => simp [runsFrom]

theorem intercalate_runsFrom (start : List Char) (capabilities : List String)
    (fields : List (String × String)) :
    [':'].intercalate (runsFrom start capabilities fields) =
      start ++ (fields.flatMap fieldChars ++ capabilities.flatMap String.toList) := by
  induction fields generalizing start with
  | nil => simp [runsFrom]
  | cons f rest ih =>
      obtain ⟨run, runs, hruns⟩ :=
        List.exists_cons_of_ne_nil (runsFrom_ne_nil f.2.toList capabilities rest)
      have hrest := ih f.2.toList
      rw [hruns] at hrest
      rw [runsFrom, hruns, List.intercalate_cons_cons, hrest]
      simp [fieldChars]

theorem not_colon_mem_runsFrom {start : List Char} {capabilities : List String}
    {fields : List (String × String)} (hstart : ':' ∉ start)
    (hfields : ∀ f ∈ fields, ':' ∉ f.1.toList ∧ ':' ∉ f.2.toList)
    (hcapabilities : ∀ c ∈ capabilities, ':' ∉ c.toList) :
    ∀ run ∈ runsFrom start capabilities fields, ':' ∉ run := by
  induction fields generalizing start with
  | nil => simpa [runsFrom, hstart] using hcapabilities
  | cons f rest ih =>
      obtain ⟨hf, hrest⟩ := List.forall_mem_cons.1 hfields
      rw [runsFrom, List.forall_mem_cons]
      exact ⟨by simp [hstart, hf.1], ih hf.2 hrest⟩

/-- Without colons the text is cut into runs at its colons. -/
theorem Plain.splitOn_text {s : Shape} (h : s.Plain) : s.text.toList.splitOn ':' = s.runs := by
  rw [toList_text, ← intercalate_runsFrom]
  exact List.splitOn_intercalate ':'
    (not_colon_mem_runsFrom h.name h.fields h.capabilities) (runsFrom_ne_nil _ _ _)

theorem text_eq_iff_runs {a b : Shape} (ha : a.Plain) (hb : b.Plain) :
    a.text = b.text ↔ a.runs = b.runs := by
  constructor
  · intro htext
    rw [← ha.splitOn_text, ← hb.splitOn_text, htext]
  · intro hruns
    rw [← String.toList_inj, toList_text, toList_text, ← intercalate_runsFrom,
      ← intercalate_runsFrom]
    exact congrArg [':'].intercalate hruns

/-- Fields of the same names in the same order, after the same start and before the same
capabilities, are told apart by their runs. -/
theorem eq_of_runsFrom_of_names {capabilities : List String} {xs ys : List (String × String)}
    {start start' : List Char} (hnames : xs.map Prod.fst = ys.map Prod.fst)
    (h : runsFrom start capabilities xs = runsFrom start' capabilities ys) :
    start = start' ∧ xs = ys := by
  induction xs generalizing ys start start' with
  | nil =>
      obtain rfl : ys = [] := List.map_eq_nil_iff.1 hnames.symm
      rw [runsFrom, runsFrom, List.cons.injEq, List.append_left_inj] at h
      exact ⟨h.1, rfl⟩
  | cons x rest ih =>
      obtain ⟨y, later, rfl, hname, hlater⟩ := List.map_eq_cons_iff.1 hnames.symm
      rw [runsFrom, runsFrom, hname, List.cons.injEq, List.append_left_inj] at h
      obtain ⟨hsignature, rfl⟩ := ih hlater.symm h.2
      exact ⟨h.1, by rw [Prod.ext hname.symm (String.toList_inj.1 hsignature)]⟩

/-- No field name has one signature here and another one there. -/
def Unretyped (xs ys : List (String × String)) : Prop :=
  ∀ f ∈ xs, ∀ g ∈ ys, f.1 = g.1 → f.2 = g.2

instance (xs ys : List (String × String)) : Decidable (Unretyped xs ys) :=
  inferInstanceAs (Decidable (∀ f ∈ xs, ∀ g ∈ ys, f.1 = g.1 → f.2 = g.2))

theorem eq_of_runsFrom_of_unretyped {capabilities : List String} {xs ys : List (String × String)}
    {start : List Char} (htypes : Unretyped xs ys)
    (h : runsFrom start capabilities xs = runsFrom start capabilities ys) : xs = ys := by
  have hlength := congrArg List.length h
  rw [length_runsFrom, length_runsFrom] at hlength
  induction xs generalizing ys start with
  | nil => exact (List.eq_nil_of_length_eq_zero (by simpa using hlength.symm)).symm
  | cons x rest ih =>
      obtain ⟨y, later, rfl⟩ := List.exists_cons_of_length_eq_add_one
        (Nat.add_right_cancel hlength).symm
      rw [runsFrom, runsFrom, List.cons.injEq, List.append_right_inj, String.toList_inj] at h
      -- the names are the same, so the signatures are, and the runs after them start alike
      have hsignature := htypes x List.mem_cons_self y List.mem_cons_self h.1
      rw [hsignature] at h
      obtain rfl := ih (fun f hf g hg => htypes f (List.mem_cons_of_mem _ hf) g
        (List.mem_cons_of_mem _ hg)) h.2 (Nat.add_right_cancel hlength)
      rw [Prod.ext h.1 hsignature]

/-! ### What the text tells -/

/-- How the texts of two shapes tell them apart. -/
structure ToldApart (a b : Shape) : Prop where
  cuts : a.text = b.text ∧ a.cuts = b.cuts ↔ a = b
  edited : a.Edit b ∨ b.Edit a → a.text ≠ b.text
  runs : a.Plain → b.Plain → (a.text = b.text ↔ a.runs = b.runs)
  /-- Making a capability of a field shows. -/
  counted : a.Plain → b.Plain → a.text = b.text → a.fields.length = b.fields.length
  /-- Changing any number of types shows. -/
  retyped : a.Plain → b.Plain → a.name = b.name → a.capabilities = b.capabilities →
    a.fields.map Prod.fst = b.fields.map Prod.fst → a.text = b.text → a = b
  /-- Renaming, reordering, adding and removing any number of fields shows. -/
  rearranged : a.Plain → b.Plain → a.name = b.name → a.capabilities = b.capabilities →
    Unretyped a.fields b.fields → a.text = b.text → a = b

theorem toldApart (a b : Shape) : a.ToldApart b := by
  constructor
  case cuts =>
    constructor
    · exact fun h => eq_of_text_of_cuts h.1 h.2
    · rintro rfl
      exact ⟨rfl, rfl⟩
  case edited =>
    rintro (hedit | hedit)
    · exact hedit.text_ne
    · exact hedit.text_ne.symm
  case runs => exact text_eq_iff_runs
  case counted =>
    intro ha hb htext
    have hlength := congrArg List.length ((text_eq_iff_runs ha hb).1 htext)
    simpa [Shape.runs] using hlength
  case retyped =>
    intro ha hb hname hcapabilities hnames htext
    have hruns := (text_eq_iff_runs ha hb).1 htext
    rw [Shape.runs, Shape.runs, hname, hcapabilities] at hruns
    obtain ⟨_, hfields⟩ := eq_of_runsFrom_of_names hnames hruns
    exact mk.injEq .. ▸ ⟨hname, hfields, hcapabilities⟩
  case rearranged =>
    intro ha hb hname hcapabilities htypes htext
    have hruns := (text_eq_iff_runs ha hb).1 htext
    rw [Shape.runs, Shape.runs, hname, hcapabilities] at hruns
    exact mk.injEq .. ▸ ⟨hname, eq_of_runsFrom_of_unretyped htypes hruns, hcapabilities⟩

end Shape

/-! ### Compiled records -/

/-- The fingerprint is the head of the digest of the shape's text. -/
def RecordDefinition.Hashed (r : RecordDefinition) : Prop :=
  r.fingerprint = .ofBytes r.shape.text.toUTF8.toList

namespace Compile

variable {c : Setting} {run run' : Run}

theorem Step.hashed (hs : Step c run run') (h : ∀ r ∈ run.records, r.Hashed) :
    ∀ r ∈ run'.records, r.Hashed := by
  cases hs with
  | claim identity enclosing field => exact h
  | register names _ => exact h
  | reserve _ => exact h
  | add names identity _ _ =>
      simp only [addRecord, List.forall_mem_append, List.forall_mem_singleton]
      exact ⟨h, rfl⟩

theorem Steps.hashed (hs : Steps c run run') (h : ∀ r ∈ run.records, r.Hashed) :
    ∀ r ∈ run'.records, r.Hashed := by
  induction hs with
  | refl => exact h
  | tail _ hstep ih => exact hstep.hashed ih

/-- Flags are no part of the shape. -/
theorem hashed_flagged (roots : List QualifiedName) (groups : List CycleGroup)
    {r : RecordDefinition} (h : r.Hashed) : (flagged roots groups r).Hashed := by
  have hshape : (flagged roots groups r).shape = r.shape := by
    simp [RecordDefinition.shape, RecordDefinition.name, flagged]
  rw [RecordDefinition.Hashed, hshape]
  exact h

end Compile

namespace Forest

open Compile

theorem hashed_of_compile {settings : Settings} {forest : Forest} {catalog : Catalog}
    (h : forest.compile settings = .ok catalog) : ∀ r ∈ catalog.records, r.Hashed := by
  obtain ⟨roots, run, hroots, hassembled⟩ := roots_of_compile h
  have hsteps := compileRoots_steps (c := ⟨settings, forest⟩) (fun _ hr => .here hr) hroots
  rw [Catalog.records, hassembled.definitions, List.forall_mem_map]
  exact fun r hr => hashed_flagged roots _ (hsteps.hashed (by simp [start]) r hr)

/-- What the hashed texts of compiled records, of one schema or of two, tell about their shapes. -/
theorem compile_toldApart (settings settings' : Settings) (forest forest' : Forest) :
    ∀ catalog catalog', forest.compile settings = .ok catalog →
      forest'.compile settings' = .ok catalog' →
      ∀ r ∈ catalog.records, ∀ r' ∈ catalog'.records,
        r.Hashed ∧ r'.Hashed ∧ r.shape.ToldApart r'.shape := by
  intro catalog catalog' h h' r hr r' hr'
  exact ⟨hashed_of_compile h r hr, hashed_of_compile h' r' hr', Shape.toldApart r.shape r'.shape⟩

/-- An order with scalar fields. -/
def order (fields : List (String × ScalarKind)) : Forest where
  roots := [{ name := "order", properties := fields.map fun f =>
    { name := f.1, type := some (.scalar f.2) } }]

theorem order_compiles : ∃ catalog,
    (order [("id", .long), ("note", .string)]).compile {} = .ok catalog ∧
    decide (catalog.records.map (·.shape) =
      [⟨"Order", [("id", "LONG"), ("note", "STRING")], []⟩]) = true :=
  exists_catalog (by decide +kernel)

theorem order_compiles_reordered : ∃ catalog,
    (order [("note", .string), ("id", .long)]).compile {} = .ok catalog ∧
    decide (catalog.records.map (·.shape) =
      [⟨"Order", [("note", "STRING"), ("id", "LONG")], []⟩]) = true :=
  exists_catalog (by decide +kernel)

/-- Two fields in the other order show. -/
theorem order_toldApart : ∃ catalog catalog',
    (order [("id", .long), ("note", .string)]).compile {} = .ok catalog ∧
    (order [("note", .string), ("id", .long)]).compile {} = .ok catalog' ∧
    ∃ r ∈ catalog.records, ∃ r' ∈ catalog'.records, r.shape ≠ r'.shape ∧
      r.shape.text ≠ r'.shape.text := by
  obtain ⟨catalog, hc, hshapes⟩ := order_compiles
  obtain ⟨catalog', hc', hshapes'⟩ := order_compiles_reordered
  obtain ⟨r, hr, hshape⟩ := List.map_eq_singleton_iff.1 (of_decide_eq_true hshapes)
  obtain ⟨r', hr', hshape'⟩ := List.map_eq_singleton_iff.1 (of_decide_eq_true hshapes')
  have hmem : r ∈ catalog.records := by simp [hr]
  have hmem' : r' ∈ catalog'.records := by simp [hr']
  obtain ⟨_, _, htold⟩ := compile_toldApart {} {} _ _ catalog catalog' hc hc' r hmem r' hmem'
  have hne : r.shape ≠ r'.shape := by
    rw [hshape, hshape']
    decide
  refine ⟨catalog, catalog', hc, hc', r, hmem, r', hmem', hne, fun htext => hne ?_⟩
  rw [hshape, hshape'] at htold htext ⊢
  exact htold.rearranged (by decide) (by decide) rfl rfl (by decide) htext

/-- The shapes of an order whose second field is named like a part of the text. Its fields in the
other order do not show, although none is retyped. -/
example : (⟨"Order", [("a", "INT"), ("a:INTa", "INT")], []⟩ : Shape).text =
    (⟨"Order", [("a:INTa", "INT"), ("a", "INT")], []⟩ : Shape).text := by decide

/-- Two roots whose names and first fields run together to the same text. -/
def lineItems : Forest where
  roots := [
    { name := "order", properties := [{ name := "Lineitem", type := some (.scalar .long) }] },
    { name := "orderLine", properties := [{ name := "item", type := some (.scalar .long) }] }]

theorem lineItems_compiles : ∃ catalog, lineItems.compile {} = .ok catalog ∧
    decide (catalog.records.map (·.shape) =
      [⟨"Order", [("Lineitem", "LONG")], []⟩, ⟨"OrderLine", [("item", "LONG")], []⟩]) = true :=
  exists_catalog (by decide +kernel)

/-- Two records of one catalog with different names and fields have the same fingerprint. -/
theorem lineItems_shareText : ∃ catalog, lineItems.compile {} = .ok catalog ∧
    ∃ r ∈ catalog.records, ∃ r' ∈ catalog.records,
      r.shape = ⟨"Order", [("Lineitem", "LONG")], []⟩ ∧
      r'.shape = ⟨"OrderLine", [("item", "LONG")], []⟩ ∧
      r.shape.text = r'.shape.text ∧ r.fingerprint = r'.fingerprint := by
  obtain ⟨catalog, hc, hshapes⟩ := lineItems_compiles
  have hshapes := of_decide_eq_true hshapes
  obtain ⟨r, hr, hshape⟩ : ∃ r ∈ catalog.records, r.shape = _ :=
    List.mem_map.1 (hshapes ▸ List.mem_cons_self)
  obtain ⟨r', hr', hshape'⟩ : ∃ r' ∈ catalog.records, r'.shape = _ :=
    List.mem_map.1 (hshapes ▸ List.mem_cons_of_mem _ List.mem_cons_self)
  have htext : r.shape.text = r'.shape.text := by
    rw [hshape, hshape']
    decide
  have hhashed := hashed_of_compile hc
  refine ⟨catalog, hc, r, hr, r', hr', hshape, hshape', htext, ?_⟩
  rw [hhashed r hr, hhashed r' hr', htext]

end Forest
end RecordCodec
