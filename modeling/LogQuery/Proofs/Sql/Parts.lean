import LogQuery.Proofs.Filter.Arrangement
import LogQuery.Sql.Condition

/-!
# Parts of a condition

A condition is written while its values are handed over on the way. What comes of it can be read off a
row of parts: fixed text, quoted names, quoted strings, and the values that fields are compared with.
Each part has a text in either mode, and the values among them are handed over in the order in which
they stand in the row.

* `Writes`: what writing gives, and which values it hands over behind those before;
* `writes_condition`, `writes_children`: one condition, and the children of a node one by one;
* `writes_filter`: writing a filter gives the text of its parts, and hands over the values among them;
* `compile_eq`, `selectList_eq`: the condition and the select list of a query.
-/

namespace LogQuery.Sql

/-- A part of a condition. -/
inductive Part where
  | fixed (text : String)
  | identifier (name : String)
  | string (s : String)
  /-- A value that a field is compared with. -/
  | operand (value : Literal)
  deriving DecidableEq

namespace Part

/-- The text of a part. -/
def render (mode : Mode) : Part → String
  | fixed text => text
  | identifier name => quoteIdentifier name
  | string s => quoteString s
  | operand value =>
    match mode with
    | .inline => literal value
    | .parameterized => "?"

/-- The value that is handed over beside the text. -/
def param? (mode : Mode) : Part → Option Literal
  | operand value =>
    match mode with
    | .inline => none
    | .parameterized => some value
  | _ => none

end Part

/-- The text of a row of parts. -/
def render (mode : Mode) : List Part → String
  | [] => ""
  | part :: rest => part.render mode ++ render mode rest

/-- The values handed over beside the text, in the order of their placeholders. -/
def params (mode : Mode) (parts : List Part) : List Literal := parts.filterMap (Part.param? mode)

theorem render_append (mode : Mode) (as bs : List Part) :
    render mode (as ++ bs) = render mode as ++ render mode bs := by
  induction as with
  | nil => exact (String.empty_append ..).symm
  | cons part as ih => rw [List.cons_append, render, ih, render, String.append_assoc]

theorem render_singleton (mode : Mode) (part : Part) : render mode [part] = part.render mode :=
  String.append_empty ..

theorem params_append (mode : Mode) (as bs : List Part) :
    params mode (as ++ bs) = params mode as ++ params mode bs :=
  List.filterMap_append

/-! ## Rows with separators -/

/-- Rows of parts with a separator between them. -/
def separate (separator : String) (rows : List (List Part)) : List Part :=
  List.intercalate [.fixed separator] rows

theorem render_separate (mode : Mode) (separator : String) (rows : List (List Part)) :
    render mode (separate separator rows) =
      String.intercalate separator (rows.map (render mode)) := by
  induction rows with
  | nil => exact String.intercalate_nil.symm
  | cons row rows ih =>
    cases rows with
    | nil => rw [separate, List.intercalate_singleton, List.map_singleton,
        String.intercalate_singleton]
    | cons next rows =>
      rw [separate, List.intercalate_cons_cons, render_append, render_append, render_singleton,
        ← separate, ih, List.map_cons, List.map_cons, List.map_cons,
        String.intercalate_cons_cons, Part.render]

/-- Separators hold no values. -/
theorem params_separate (mode : Mode) (separator : String) (rows : List (List Part)) :
    params mode (separate separator rows) = rows.flatMap (params mode) := by
  induction rows with
  | nil => rfl
  | cons row rows ih =>
    cases rows with
    | nil => rw [separate, List.intercalate_singleton, List.flatMap_singleton]
    | cons next rows =>
      have hseparator : params mode [.fixed separator] = [] := rfl
      rw [List.flatMap_cons, separate, List.intercalate_cons_cons, params_append, params_append,
        hseparator, List.append_nil, ← separate, ih]

/-! ## The parts of a filter and of a select list -/

/-- The expression that reads a field. -/
def access (schema : Option Schema) : Field → List Part
  | .simple name => [.identifier name]
  | .nested base path =>
    if columnKind schema base = .map then
      [.identifier base, .fixed "[", .string (String.intercalate "." path), .fixed "]"]
    else
      [.fixed "JSONExtractString(", .identifier base, .fixed ", "] ++
        separate ", " (path.map fun segment => [.string segment]) ++ [.fixed ")"]

/-- A value that a field is compared with; null is never handed over beside the text. -/
def operand : Literal → Part
  | .null => .fixed "NULL"
  | value => .operand value

/-- The test whether a text occurs in a field, whatever the case of letters. -/
def search (field : List Part) (value : Literal) (test : String) : List Part :=
  [.fixed "positionCaseInsensitive("] ++ field ++
    [.fixed ", ", .operand (.string value.text), .fixed (")" ++ test)]

/-- The comparison of a field with a value. -/
def compared (field : List Part) (comparison : Comparison) (value : Literal) : List Part :=
  field ++ [.fixed (" " ++ comparison.symbol ++ " "), operand value]

/-- The parts of a condition. -/
def condition (schema : Option Schema) (c : LogQuery.Condition) : List Part :=
  let field := access schema c.field
  match c.comparison, c.value with
  | .equal, .null => field ++ [.fixed " IS NULL"]
  | .notEqual, .null => field ++ [.fixed " IS NOT NULL"]
  | .contains, value => search field value " > 0"
  | .notContains, value => search field value " = 0"
  | comparison, value => compared field comparison value

/-- How the parts of a filter stand in a row. -/
def partArrangement (schema : Option Schema) : Arrangement Part :=
  ⟨condition schema, fun op => [.fixed (connective op)], [.fixed "("], [.fixed ")"]⟩

/-- The parts of a filter. -/
def filter (schema : Option Schema) (f : Filter) : List Part := (partArrangement schema).row f

/-- The parts of the condition of a query; without a filter there are none. -/
def queryParts (schema : Option Schema) (q : Query) : List Part :=
  match q.filter with
  | none => []
  | some f => filter schema f

/-- A selected field; a nested one is given its dotted path as its name. -/
def selected (schema : Option Schema) (f : Field) : List Part :=
  match f with
  | .simple _ => access schema f
  | .nested .. => access schema f ++ [.fixed " AS ", .identifier f.dotted]

/-- The parts of a select list. -/
def selectParts (schema : Option Schema) (orderField : String) (fields : List Field) : List Part :=
  separate ", " ([.identifier orderField] :: fields.map (selected schema))

/-! ## Texts of parts -/

theorem render_access (mode : Mode) (schema : Option Schema) (f : Field) :
    render mode (access schema f) = accessText schema f := by
  cases f with
  | simple name => exact render_singleton mode (.identifier name)
  | nested base path =>
    rw [access, accessText]
    split
    · simp only [render, Part.render, String.append_empty, String.append_assoc]
    · have hsegment : render mode ∘ (fun segment => [Part.string segment]) = quoteString :=
        funext fun segment => render_singleton mode (.string segment)
      rw [render_append, render_append, render_separate, List.map_map, hsegment]
      simp only [render, Part.render, String.append_empty, String.append_assoc]

/-- The field of a condition is read without values. -/
theorem params_access (mode : Mode) (schema : Option Schema) (f : Field) :
    params mode (access schema f) = [] := by
  cases f with
  | simple name => rfl
  | nested base path =>
    rw [access]
    split
    · rfl
    · have hpath : params mode (separate ", " (path.map fun segment => [.string segment])) = [] := by
        rw [params_separate, List.flatMap_eq_nil_iff]
        intro row hrow
        obtain ⟨segment, -, rfl⟩ := List.mem_map.mp hrow
        rfl
      rw [params_append, params_append, hpath]
      rfl

theorem render_search (mode : Mode) (schema : Option Schema) (f : Field) (value : Literal)
    (test : String) :
    render mode (search (access schema f) value test) =
      "positionCaseInsensitive(" ++ accessText schema f ++ ", " ++
        (operand (.string value.text)).render mode ++ ")" ++ test := by
  rw [search, render_append, render_append, render_access]
  simp only [render, Part.render, operand, String.append_empty, String.append_assoc]

theorem render_compared (mode : Mode) (schema : Option Schema) (f : Field)
    (comparison : Comparison) (value : Literal) :
    render mode (compared (access schema f) comparison value) =
      accessText schema f ++ " " ++ comparison.symbol ++ " " ++ (operand value).render mode := by
  rw [compared, render_append, render_access, render, render_singleton, Part.render]
  simp only [String.append_assoc]

/-- The select list of a query is the text of its parts. -/
theorem selectList_eq (schema : Option Schema) (orderField : String) (fields : List Field) :
    selectList schema orderField fields =
      render .inline (selectParts schema orderField fields) := by
  have hselected : render .inline ∘ selected schema = selectedText schema := by
    funext f
    cases f with
    | simple name => exact render_access .inline schema (.simple name)
    | nested base path =>
      rw [Function.comp_apply, selected, selectedText, render_append, render_access]
      simp only [render, Part.render, String.append_empty, String.append_assoc]
  rw [selectParts, render_separate, List.map_cons, render_singleton, List.map_map, hselected,
    selectList, Part.render]

/-! ## Writing -/

/-- Whatever has been handed over before, `w` gives `a` and hands `values` over behind it. -/
def Writes {α : Type} (w : Writing α) (a : α) (values : List Literal) : Prop :=
  ∀ before, w.run before = (a, before ++ values)

section

variable {α β : Type}

theorem writes_pure (a : α) : Writes (pure a) a [] := by
  intro before
  rw [List.append_nil]
  rfl

theorem Writes.bind {w : Writing α} {next : α → Writing β} {a : α} {b : β}
    {values values' : List Literal} (h : Writes w a values) (h' : Writes (next a) b values') :
    Writes (w >>= next) b (values ++ values') := by
  intro before
  show (next (w.run before).1).run (w.run before).2 = _
  rw [h before, h', List.append_assoc]

/-- What is done with the text afterwards hands nothing over. -/
theorem Writes.andThen {w : Writing α} {a : α} {values : List Literal} (h : Writes w a values)
    (f : α → β) : Writes (w >>= fun a => pure (f a)) (f a) values := by
  have hbind : Writes (w >>= fun a => pure (f a)) (f a) (values ++ []) :=
    h.bind (writes_pure (f a))
  rwa [List.append_nil] at hbind

end

theorem writes_handOver (value : Literal) : Writes (handOver value) () [value] := fun _ => rfl

variable (mode : Mode) (schema : Option Schema)

theorem writes_operand (value : Literal) :
    Writes (writeValue mode value) ((operand value).render mode) (params mode [operand value]) := by
  by_cases hnull : value = .null
  · subst hnull
    exact writes_pure "NULL"
  · have hoperand : operand value = .operand value := by cases value <;> simp_all [operand]
    unfold writeValue
    rw [if_neg hnull, hoperand]
    cases mode with
    | inline => exact writes_pure (literal value)
    | parameterized => exact (writes_handOver value).bind (writes_pure "?")

/-- The search for a text in a field. -/
theorem writes_search (f : Field) (value : Literal) (test : String) :
    Writes (writeSearch mode (accessText schema f) value test)
      (render mode (search (access schema f) value test))
      (params mode (search (access schema f) value test)) := by
  have hparams : params mode (search (access schema f) value test) =
      params mode [operand (.string value.text)] := by
    rw [search, params_append, params_append, params_access]
    cases mode <;> rfl
  rw [render_search, hparams]
  exact (writes_operand mode (.string value.text)).andThen _

/-- A test of a field that needs no value. -/
theorem writes_test (f : Field) (test : String) :
    Writes (pure (accessText schema f ++ test)) (render mode (access schema f ++ [.fixed test]))
      (params mode (access schema f ++ [.fixed test])) := by
  rw [render_append, render_access, render_singleton, params_append, params_access]
  exact writes_pure _

/-- The comparison of a field with a value. -/
theorem writes_compared (f : Field) (comparison : Comparison) (value : Literal) :
    Writes
      (writeValue mode value >>= fun text =>
        pure (accessText schema f ++ " " ++ comparison.symbol ++ " " ++ text))
      (render mode (compared (access schema f) comparison value))
      (params mode (compared (access schema f) comparison value)) := by
  have hparams : params mode (compared (access schema f) comparison value) =
      params mode [operand value] := by
    rw [compared, params_append, params_access]
    rfl
  rw [render_compared, hparams]
  exact (writes_operand mode value).andThen _

/-- Writing a condition gives the text of its parts, and hands over the value among them. -/
theorem writes_condition (c : LogQuery.Condition) :
    Writes (writeCondition mode schema c) (render mode (condition schema c))
      (params mode (condition schema c)) := by
  obtain ⟨field, comparison, value, quoted⟩ := c
  cases comparison with
  | equal =>
    cases value with
    | null => exact writes_test mode schema field " IS NULL"
    | _ => exact writes_compared mode schema field .equal _
  | notEqual =>
    cases value with
    | null => exact writes_test mode schema field " IS NOT NULL"
    | _ => exact writes_compared mode schema field .notEqual _
  | contains => exact writes_search mode schema field value " > 0"
  | notContains => exact writes_search mode schema field value " = 0"
  | _ => exact writes_compared mode schema field _ value

/-! ## Filters -/

theorem render_enclose (parts : List Part) :
    render mode ((partArrangement schema).enclose parts) = parens (render mode parts) := by
  rw [Arrangement.enclose, render_append, render_append]
  show render mode [.fixed "("] ++ _ ++ render mode [.fixed ")"] = _
  rw [render_singleton, render_singleton, Part.render, Part.render, parens]

theorem params_enclose (parts : List Part) :
    params mode ((partArrangement schema).enclose parts) = params mode parts := by
  rw [Arrangement.enclose, params_append, params_append]
  exact List.append_nil _

theorem render_childRow (op : Connective) (child : Filter) :
    render mode ((partArrangement schema).childRow op child) =
      if child.needsParens op then parens (render mode (filter schema child))
      else render mode (filter schema child) := by
  rw [Arrangement.childRow]
  split
  · exact render_enclose mode schema _
  · rfl

/-- Parentheses hold no values. -/
theorem params_childRow (op : Connective) (child : Filter) :
    params mode ((partArrangement schema).childRow op child) =
      params mode (filter schema child) := by
  rw [Arrangement.childRow]
  split
  · exact params_enclose mode schema _
  · rfl

/-- The children of a node are written one by one, each handing its values over behind those of the
children before it. -/
theorem writes_children (op : Connective) {children : List Filter}
    (h : ∀ child ∈ children, Writes (writeFilter mode schema child)
      (render mode (filter schema child)) (params mode (filter schema child))) :
    Writes (writeChildren mode schema op children)
      (children.map fun child => render mode ((partArrangement schema).childRow op child))
      (children.flatMap fun child => params mode ((partArrangement schema).childRow op child)) := by
  induction children with
  | nil => exact writes_pure []
  | cons child rest ih =>
    have hchild := h child List.mem_cons_self
    have hrest := ih fun other hmem => h other (List.mem_cons_of_mem _ hmem)
    rw [writeChildren, List.map_cons, List.flatMap_cons, render_childRow, params_childRow]
    exact hchild.bind (hrest.andThen _)

/-- The children of a node with separators between them, and what is put around the whole. -/
theorem writes_joinedRows (op : Connective) {children : List Filter}
    (h : ∀ child ∈ children, Writes (writeFilter mode schema child)
      (render mode (filter schema child)) (params mode (filter schema child)))
    (around : String → String) :
    Writes
      (writeChildren mode schema op children >>= fun texts =>
        pure (around (String.intercalate (connective op) texts)))
      (around (render mode ((partArrangement schema).joinedRows op children)))
      (params mode ((partArrangement schema).joinedRows op children)) := by
  have hchildren := (writes_children mode schema op h).andThen fun texts =>
    around (String.intercalate (connective op) texts)
  show Writes _ (around (render mode (separate (connective op) _)))
    (params mode (separate (connective op) _))
  rw [render_separate, params_separate, List.map_map, List.flatMap_map]
  exact hchildren

/-- Writing a filter gives the text of its parts, and hands over the values among them, in their
order, behind all that were handed over before. -/
theorem writes_filter (f : Filter) :
    Writes (writeFilter mode schema f) (render mode (filter schema f))
      (params mode (filter schema f)) := by
  induction f using Filter.byChildren with
  | condition c => exact writes_condition mode schema c
  | logical op children ih =>
    rw [writeFilter, filter, Arrangement.row_logical]
    exact writes_joinedRows mode schema op ih id
  | group children ih =>
    rw [writeFilter, filter, Arrangement.row_group, render_enclose, params_enclose]
    exact writes_joinedRows mode schema .and ih parens

/-- The condition of a query is the text of its parts, with the values among them. -/
theorem compile_eq (q : Query) :
    compile mode schema q =
      ⟨render mode (queryParts schema q), params mode (queryParts schema q)⟩ := by
  obtain ⟨_ | f, select⟩ := q
  · rfl
  · have h := writes_filter mode schema f []
    rw [List.nil_append] at h
    rw [compile, queryParts]
    dsimp only
    rw [h]

/-- What is written for a single condition. -/
theorem sql_compile_condition (c : LogQuery.Condition) (select : List Field) :
    (compile mode schema ⟨some (.condition c), select⟩).sql = render mode (condition schema c) := by
  rw [compile_eq]
  rfl

end LogQuery.Sql
