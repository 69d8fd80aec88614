import LogQuery.Query.Basic
import LogQuery.Schema
import LogQuery.Sql.Quoting

/-!
# Conditions and select lists

A filter becomes a ClickHouse condition. How a nested field is reached depends on its column: by key
in a map, by path in everything else. `and` binds tighter than `or` there, so a child that joins its
own children with the other connective is put in parentheses.

The values that fields are compared with are written in place, or as `?` with the value handed over
beside the text. A value is handed over at the moment when its `?` is written, behind those handed
over before (`Writing`).
-/

namespace LogQuery.Sql

/-- How the values of comparisons are handed over. -/
inductive Mode where
  | inline
  | parameterized
  deriving DecidableEq

/-! ## Fields -/

/-- How data nested in a column is reached; without a schema nothing is known of a column. -/
def columnKind (schema : Option Schema) (column : String) : ColumnKind :=
  match schema with
  | none => .unknown
  | some s => s.kindOf column

/-- The expression that reads a field. -/
def accessText (schema : Option Schema) : Field → String
  | .simple name => quoteIdentifier name
  | .nested base path =>
    if columnKind schema base = .map then
      quoteIdentifier base ++ "[" ++ quoteString (String.intercalate "." path) ++ "]"
    else
      "JSONExtractString(" ++ quoteIdentifier base ++ ", " ++
        String.intercalate ", " (path.map quoteString) ++ ")"

/-- A selected field; a nested one is given its dotted path as its name. -/
def selectedText (schema : Option Schema) (f : Field) : String :=
  match f with
  | .simple _ => accessText schema f
  | .nested .. => accessText schema f ++ " AS " ++ quoteIdentifier f.dotted

/-- The text of a select list: the column to order by, then the selected fields. -/
def selectList (schema : Option Schema) (orderField : String) (fields : List Field) : String :=
  String.intercalate ", " (quoteIdentifier orderField :: fields.map (selectedText schema))

/-! ## Conditions -/

/-- Writing that hands values over on the way. The state holds those handed over so far. -/
abbrev Writing := StateM (List Literal)

/-- Hands a value over, behind all others. -/
def handOver (value : Literal) : Writing Unit := modify (· ++ [value])

/-- Writes a value that a field is compared with; null is never handed over. -/
def writeValue (mode : Mode) (value : Literal) : Writing String :=
  if value = .null then return "NULL"
  else match mode with
    | .inline => return literal value
    | .parameterized => do
      handOver value
      return "?"

/-- Writes the test whether a text occurs in a field, whatever the case of letters. -/
def writeSearch (mode : Mode) (field : String) (value : Literal) (test : String) :
    Writing String := do
  let text ← writeValue mode (.string value.text)
  return "positionCaseInsensitive(" ++ field ++ ", " ++ text ++ ")" ++ test

def writeCondition (mode : Mode) (schema : Option Schema) (c : LogQuery.Condition) :
    Writing String :=
  let field := accessText schema c.field
  match c.comparison, c.value with
  | .equal, .null => return field ++ " IS NULL"
  | .notEqual, .null => return field ++ " IS NOT NULL"
  | .contains, value => writeSearch mode field value " > 0"
  | .notContains, value => writeSearch mode field value " = 0"
  | comparison, value => do
    let text ← writeValue mode value
    return field ++ " " ++ comparison.symbol ++ " " ++ text

/-- The word between two children. -/
def connective : Connective → String
  | .and => " AND "
  | .or => " OR "

/-- A text in parentheses. -/
def parens (text : String) : String := "(" ++ text ++ ")"

mutual

def writeFilter (mode : Mode) (schema : Option Schema) : Filter → Writing String
  | .condition c => writeCondition mode schema c
  | .logical op children => do
    let texts ← writeChildren mode schema op children
    return String.intercalate (connective op) texts
  | .group children => do
    let texts ← writeChildren mode schema .and children
    return parens (String.intercalate (connective .and) texts)

/-- Writes the children of `op` one by one, each in parentheses where it needs them. -/
def writeChildren (mode : Mode) (schema : Option Schema) (op : Connective) :
    List Filter → Writing (List String)
  | [] => return []
  | child :: rest => do
    let text ← writeFilter mode schema child
    let texts ← writeChildren mode schema op rest
    return (if child.needsParens op then parens text else text) :: texts

end

/-- The text of a condition and the values handed over beside it. -/
structure Fragment where
  sql : String
  params : List Literal
  deriving DecidableEq

/-- The condition of a query. -/
def compile (mode : Mode) (schema : Option Schema) (q : Query) : Fragment :=
  match q.filter with
  | none => ⟨"", []⟩
  | some f =>
    let (sql, params) := (writeFilter mode schema f).run []
    ⟨sql, params⟩

end LogQuery.Sql
