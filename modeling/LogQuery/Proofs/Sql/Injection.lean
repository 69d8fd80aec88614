import LogQuery.Proofs.Sql.Tokens

/-!
# Quoted text stays quoted

Whatever characters the columns, path segments and string values of a query hold, the texts written
for it are cut into the tokens that are read off its tree, where each of these strings is the content
of a single token (`queryTokens`, `selectTokens`). So a string cannot end its own quotes: two queries
that differ only in such strings (`Query.sameShape`) are cut into tokens of the same kinds.
-/

namespace LogQuery

/-! ## Queries that differ only in their strings -/

/-- Are two fields alike but for their strings? Their columns must be of one kind and their paths of
one length. -/
def Field.sameShape (schema schema' : Option Schema) : Field → Field → Bool
  | simple _, simple _ => true
  | nested base path, nested base' path' =>
    Sql.columnKind schema base = Sql.columnKind schema' base' && path.length = path'.length
  | _, _ => false

/-- Are two literals equal, or both strings? -/
def Literal.sameShape : Literal → Literal → Bool
  | string _, string _ => true
  | a, b => a = b

def Condition.sameShape (schema schema' : Option Schema) (c d : Condition) : Bool :=
  c.field.sameShape schema schema' d.field && c.comparison = d.comparison &&
    c.value.sameShape d.value

mutual

/-- Are two filters alike but for their strings? -/
def Filter.sameShape (schema schema' : Option Schema) : Filter → Filter → Bool
  | .condition c, .condition d => c.sameShape schema schema' d
  | .logical op as, .logical op' bs => op = op' && Filter.sameShapes schema schema' as bs
  | .group as, .group bs => Filter.sameShapes schema schema' as bs
  | _, _ => false

/-- Are the filters of two lists alike, one by one? -/
def Filter.sameShapes (schema schema' : Option Schema) : List Filter → List Filter → Bool
  | [], [] => true
  | a :: as, b :: bs => a.sameShape schema schema' b && Filter.sameShapes schema schema' as bs
  | _, _ => false

end

/-- Are the fields of two lists alike, one by one? -/
def Field.sameShapes (schema schema' : Option Schema) : List Field → List Field → Bool
  | [], [] => true
  | a :: as, b :: bs => a.sameShape schema schema' b && Field.sameShapes schema schema' as bs
  | _, _ => false

/-- Are two queries, each with the schema it is written for, alike but for their strings? -/
def Query.sameShape (schema schema' : Option Schema) (q q' : Query) : Bool :=
  (match q.filter, q'.filter with
    | none, none => true
    | some f, some g => f.sameShape schema schema' g
    | _, _ => false) &&
  Field.sameShapes schema schema' q.select q'.select

namespace Sql

/-- The kinds of some tokens. -/
def kinds (ts : List Token) : List Token.Kind := ts.map Token.kind

@[simp] theorem kinds_append (as bs : List Token) : kinds (as ++ bs) = kinds as ++ kinds bs :=
  List.map_append

@[simp] theorem kinds_nil : kinds [] = [] := rfl

@[simp] theorem kinds_cons (t : Token) (ts : List Token) : kinds (t :: ts) = t.kind :: kinds ts :=
  rfl

theorem kinds_intercalate (separator : List Token) (rows : List (List Token)) :
    kinds (List.intercalate separator rows) =
      List.intercalate (kinds separator) (rows.map kinds) :=
  Arrangement.apply_intercalate rfl kinds_append separator rows

variable {schema schema' : Option Schema}

/-! ## Conditions -/

/-- The segments of a path only count. -/
theorem kinds_segments (path : List String) :
    kinds (listed (path.map fun segment => [.string segment])) =
      List.intercalate [.punctuation ","] (List.replicate path.length [.string]) := by
  rw [listed, kinds_intercalate, List.map_map]
  have hrow : kinds ∘ (fun segment => [Token.string segment]) = Function.const _ [.string] := rfl
  rw [hrow, List.map_const]
  rfl

theorem kinds_access {f g : Field} (h : f.sameShape schema schema' g = true) :
    kinds (accessTokens schema f) = kinds (accessTokens schema' g) := by
  cases f with
  | simple name =>
    cases g with
    | simple name' => rfl
    | nested => simp [Field.sameShape] at h
  | nested base path =>
    cases g with
    | simple => simp [Field.sameShape] at h
    | nested base' path' =>
      simp only [Field.sameShape, Bool.and_eq_true, decide_eq_true_eq] at h
      obtain ⟨hkind, hlength⟩ := h
      rw [accessTokens, accessTokens, hkind]
      split
      · rfl
      · rw [kinds_append, kinds_append, kinds_segments, hlength, kinds_append, kinds_append,
          kinds_segments]
        rfl

theorem kinds_operand (mode : Mode) {a b : Literal} (h : a.sameShape b = true) :
    kinds (operandTokens mode a) = kinds (operandTokens mode b) := by
  unfold Literal.sameShape at h
  split at h
  · cases mode <;> rfl
  · rw [of_decide_eq_true h]

theorem kinds_search (mode : Mode) {field field' : List Token} (h : kinds field = kinds field')
    (a b : Literal) (test : String) :
    kinds (searchTokens mode field a test) = kinds (searchTokens mode field' b test) := by
  have hvalue := kinds_operand mode (a := .string a.text) (b := .string b.text) rfl
  simp only [searchTokens, kinds_append, h, hvalue]

theorem kinds_condition (mode : Mode) {c d : LogQuery.Condition}
    (h : c.sameShape schema schema' d = true) :
    kinds (conditionTokens mode schema c) = kinds (conditionTokens mode schema' d) := by
  obtain ⟨field, comparison, value, quoted⟩ := c
  obtain ⟨field', comparison', value', quoted'⟩ := d
  simp only [LogQuery.Condition.sameShape, Bool.and_eq_true, decide_eq_true_eq] at h
  obtain ⟨⟨hfield, rfl⟩, hvalue⟩ := h
  have haccess := kinds_access hfield
  have hplain : kinds (accessTokens schema field ++ [.punctuation comparison.symbol] ++
      operandTokens mode value) = kinds (accessTokens schema' field' ++
        [.punctuation comparison.symbol] ++ operandTokens mode value') := by
    rw [kinds_append, kinds_append, haccess, kinds_operand mode hvalue, ← kinds_append,
      ← kinds_append]
  -- Null is tested for and not compared with, so it is set apart for `=` and `!=`.
  cases comparison with
  | equal =>
    cases value with
    | null =>
      cases value' with
      | null => simp only [conditionTokens, kinds_append, haccess]
      | _ => simp [Literal.sameShape] at hvalue
    | _ =>
      cases value' with
      | null => simp [Literal.sameShape] at hvalue
      | _ => exact hplain
  | notEqual =>
    cases value with
    | null =>
      cases value' with
      | null => simp only [conditionTokens, kinds_append, haccess]
      | _ => simp [Literal.sameShape] at hvalue
    | _ =>
      cases value' with
      | null => simp [Literal.sameShape] at hvalue
      | _ => exact hplain
  | contains => exact kinds_search mode haccess value value' ">"
  | notContains => exact kinds_search mode haccess value value' "="
  | _ => exact hplain

/-! ## Filters -/

theorem needsParens_of_sameShape (op : Connective) {f g : Filter}
    (h : f.sameShape schema schema' g = true) : f.needsParens op = g.needsParens op := by
  cases f <;> cases g <;> simp_all [Filter.sameShape, Filter.needsParens]

theorem kinds_enclose (mode : Mode) {as bs : List Token} (h : kinds as = kinds bs) :
    kinds ((tokenArrangement mode schema).enclose as) =
      kinds ((tokenArrangement mode schema').enclose bs) := by
  rw [Arrangement.enclose, Arrangement.enclose, kinds_append, kinds_append, kinds_append,
    kinds_append, h]
  rfl

/-- Children that are alike one by one have tokens of the same kinds. -/
theorem kinds_joinedRows (mode : Mode) (op : Connective) {as bs : List Filter}
    (h : Filter.sameShapes schema schema' as bs = true)
    (ih : ∀ a ∈ as, ∀ b, a.sameShape schema schema' b = true →
      kinds (filterTokens mode schema a) = kinds (filterTokens mode schema' b)) :
    kinds ((tokenArrangement mode schema).joinedRows op as) =
      kinds ((tokenArrangement mode schema').joinedRows op bs) := by
  have hrows : (as.map ((tokenArrangement mode schema).childRow op)).map kinds =
      (bs.map ((tokenArrangement mode schema').childRow op)).map kinds := by
    induction as generalizing bs with
    | nil =>
      cases bs with
      | nil => rfl
      | cons => simp [Filter.sameShapes] at h
    | cons a as iha =>
      cases bs with
      | nil => simp [Filter.sameShapes] at h
      | cons b bs =>
        simp only [Filter.sameShapes, Bool.and_eq_true] at h
        have hrest := iha h.2 fun a' ha' => ih a' (List.mem_cons_of_mem _ ha')
        have hchild := ih a List.mem_cons_self b h.1
        rw [List.map_cons, List.map_cons, List.map_cons, List.map_cons, hrest]
        refine congrArg (· :: _) ?_
        rw [Arrangement.childRow, Arrangement.childRow, needsParens_of_sameShape op h.1]
        split
        · exact kinds_enclose mode hchild
        · exact hchild
  rw [Arrangement.joinedRows, Arrangement.joinedRows, kinds_intercalate, kinds_intercalate, hrows]
  rfl

theorem kinds_filter (mode : Mode) {f g : Filter} (h : f.sameShape schema schema' g = true) :
    kinds (filterTokens mode schema f) = kinds (filterTokens mode schema' g) := by
  induction f using Filter.byChildren generalizing g with
  | condition c =>
    cases g with
    | condition d => exact kinds_condition mode (by simpa only [Filter.sameShape] using h)
    | _ => simp [Filter.sameShape] at h
  | logical op as ih =>
    cases g with
    | logical op' bs =>
      simp only [Filter.sameShape, Bool.and_eq_true, decide_eq_true_eq] at h
      obtain ⟨rfl, h⟩ := h
      rw [filterTokens, filterTokens, Arrangement.row_logical, Arrangement.row_logical]
      exact kinds_joinedRows mode op h fun a ha _ => ih a ha
    | _ => simp [Filter.sameShape] at h
  | group as ih =>
    cases g with
    | group bs =>
      simp only [Filter.sameShape] at h
      rw [filterTokens, filterTokens, Arrangement.row_group, Arrangement.row_group]
      exact kinds_enclose mode (kinds_joinedRows mode .and h fun a ha _ => ih a ha)
    | _ => simp [Filter.sameShape] at h

/-! ## Queries -/

theorem spells_query (mode : Mode) (schema : Option Schema) (q : Query) :
    Spells (compile mode schema q).sql.toList (queryTokens mode schema q) := by
  rw [compile_eq]
  obtain ⟨_ | f, select⟩ := q
  · exact ⟨[], lexesClosed_nil.lexes, rfl⟩
  · exact spells_filter mode schema f

/-- A selected field is cut into its tokens. -/
theorem spells_selected (mode : Mode) (schema : Option Schema) (f : Field) :
    Spells (render mode (selected schema f)).toList (selectedTokens schema f) := by
  have haccess := spells_access mode schema f
  cases f with
  | simple name => exact haccess.spells
  | nested base path =>
    have hword : Spells (phrase ["AS"]) [.word "AS"] := spells_phrase (by decide)
    have has : SpellsClosed " AS ".toList [.word "AS"] :=
      hword.append_closed spells_blank (by decide) (breaks_cons rfl _)
    have h := (haccess.append has).append (spells_identifier (Field.nested base path).dotted)
    rw [selected, toList_render_append]
    simpa [render, Part.render, selectedTokens] using h.spells

/-- The text of a select list is cut into its tokens. -/
theorem spells_select (schema : Option Schema) (orderField : String) (fields : List Field) :
    Spells (selectList schema orderField fields).toList (selectTokens schema orderField fields) := by
  -- The column to order by is a row of its own, so rows are numbered by it and the fields.
  have hrows := spells_listed .inline
    (fun row : Option Field => row.elim [.identifier orderField] (selected schema))
    (fun row => row.elim [.identifier orderField] (selectedTokens schema))
    (none :: fields.map some) fun row _ => by
      cases row with
      | none =>
        rw [Option.elim_none, toList_render_singleton]
        exact (spells_identifier orderField).spells
      | some f => exact spells_selected .inline schema f
  rw [List.map_cons, List.map_cons, List.map_map, List.map_map] at hrows
  rw [selectList_eq]
  exact hrows

theorem kinds_query (mode : Mode) {q q' : Query} (h : q.sameShape schema schema' q' = true) :
    kinds (queryTokens mode schema q) = kinds (queryTokens mode schema' q') := by
  obtain ⟨filter, select⟩ := q
  obtain ⟨filter', select'⟩ := q'
  rw [Query.sameShape, Bool.and_eq_true] at h
  cases filter with
  | none =>
    cases filter' with
    | none => rfl
    | some g => simp at h
  | some f =>
    cases filter' with
    | none => simp at h
    | some g => exact kinds_filter mode h.1

theorem kinds_selected {f g : Field} (h : f.sameShape schema schema' g = true) :
    kinds (selectedTokens schema f) = kinds (selectedTokens schema' g) := by
  have haccess := kinds_access h
  cases f with
  | simple name =>
    cases g with
    | simple name' => exact haccess
    | nested => simp [Field.sameShape] at h
  | nested base path =>
    cases g with
    | simple => simp [Field.sameShape] at h
    | nested base' path' => simp [selectedTokens, haccess, Token.kind]

theorem kinds_select (orderField orderField' : String) {fields fields' : List Field}
    (h : Field.sameShapes schema schema' fields fields' = true) :
    kinds (selectTokens schema orderField fields) =
      kinds (selectTokens schema' orderField' fields') := by
  have hrows : (fields.map (selectedTokens schema)).map kinds =
      (fields'.map (selectedTokens schema')).map kinds := by
    induction fields generalizing fields' with
    | nil =>
      cases fields' with
      | nil => rfl
      | cons => simp [Field.sameShapes] at h
    | cons f fields ih =>
      cases fields' with
      | nil => simp [Field.sameShapes] at h
      | cons g fields' =>
        simp only [Field.sameShapes, Bool.and_eq_true] at h
        simp only [List.map_cons, ih h.2, kinds_selected h.1]
  rw [selectTokens, selectTokens, listed, listed, kinds_intercalate, kinds_intercalate,
    List.map_cons, List.map_cons, hrows]
  rfl

/-- The condition and the select list of a query are cut into the tokens that are read off it, each
of its strings the content of one token; and another query with the same shape has tokens of the same
kinds. -/
theorem tokens_of_texts (mode : Mode) (schema : Option Schema) (orderField : String) (q : Query) :
    tokens (compile mode schema q).sql.toList = some (queryTokens mode schema q) ∧
    tokens (selectList schema orderField q.select).toList =
      some (selectTokens schema orderField q.select) ∧
    ∀ (schema' : Option Schema) (orderField' : String) (q' : Query),
      q.sameShape schema schema' q' = true →
      (tokens (compile mode schema q).sql.toList).map kinds =
        (tokens (compile mode schema' q').sql.toList).map kinds ∧
      (tokens (selectList schema orderField q.select).toList).map kinds =
        (tokens (selectList schema' orderField' q'.select).toList).map kinds := by
  have hquery := fun schema q => (spells_query mode schema q).tokens_eq
  have hselect := fun schema orderField fields =>
    (spells_select schema orderField fields).tokens_eq
  refine ⟨hquery schema q, hselect schema orderField q.select, fun schema' orderField' q' h => ?_⟩
  rw [hquery, hquery, hselect, hselect, Option.map_some, Option.map_some, Option.map_some,
    Option.map_some, kinds_query mode h]
  rw [Query.sameShape, Bool.and_eq_true] at h
  rw [kinds_select orderField orderField' h.2]
  exact ⟨rfl, rfl⟩

/-- A string that would close its quotes and go on with a condition of its own, against a plain one:
in a column, in a path and in a value. -/
theorem tokens_of_texts_hostile :
    let hostile : Query :=
      ⟨some (.logical .or [
        .condition ⟨.nested "a` OR `\\" ["'), ('", "\\'"], .equal, .string "\\' OR 1 = 1 --", true⟩,
        .condition ⟨.simple "`", .contains, .string "''\\", true⟩]),
       [.nested "b`, `" ["x"]]⟩
    let plain : Query :=
      ⟨some (.logical .or [
        .condition ⟨.nested "a" ["b", "c"], .equal, .string "d", true⟩,
        .condition ⟨.simple "e", .contains, .string "f", true⟩]),
       [.nested "g" ["h"]]⟩
    hostile.sameShape none none plain = true ∧
    (tokens (compile .inline none hostile).sql.toList).map kinds =
      (tokens (compile .inline none plain).sql.toList).map kinds := by
  intro hostile plain
  have h : hostile.sameShape none none plain = true := by decide
  exact ⟨h, ((tokens_of_texts .inline none "timestamp" hostile).2.2 none "timestamp" plain h).1⟩

end Sql

end LogQuery
