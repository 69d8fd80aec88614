import LogQuery.Cache.Operation
import LogQuery.Query.Analysis
import LogQuery.Sql.Condition

/-!
# Compiling queries

A query text is compiled into a condition and a select list. A faulty text gives no condition but
diagnostics; a text whose faults are all recoverable gives both. Only results without any
diagnostics are kept in the cache, together with the mode they were compiled in, since the condition
differs between modes (`cacheText`). The select list is made anew each time, as it depends on the
column to order by.
-/

namespace LogQuery

/-- A compiled query, as the cache keeps it. -/
structure Compiled where
  query : Query
  sql : String
  params : List Literal
  deriving DecidableEq

/-- How a query text is to be compiled. -/
structure Options where
  /-- The version of the schema, which results are kept apart by. -/
  schemaVersion : Option String
  parameterized : Bool
  /-- The column that comes first in a select list. -/
  orderField : Option String
  deriving DecidableEq

/-- The column that comes first unless another one is given. -/
def defaultOrderField : String := "timestamp"

/-- What a query text is compiled to. -/
structure Compilation where
  query : Option Query
  /-- The condition; an empty one filters nothing. -/
  sql : String
  params : List Literal
  selectClause : Option String
  diagnostics : List Diagnostic
  /-- Did the result come from the cache? -/
  cached : Bool
  deriving DecidableEq

namespace Compilation

/-- Is there no diagnostic that blocks the query? -/
def isValid (c : Compilation) : Bool := !c.diagnostics.any Diagnostic.isError

end Compilation

namespace Options

def default : Options := ⟨none, false, none⟩

def mode (o : Options) : Sql.Mode := if o.parameterized then .parameterized else .inline

/-- The text that a result is kept under. -/
def cacheText (o : Options) (query : String) : String :=
  if o.parameterized then query ++ "\x00parameterized" else query

/-- The select list of a query that selects fields. -/
def selectClause (o : Options) (schema : Option Schema) (q : Query) : Option String :=
  if q.select.isEmpty then none
  else some (Sql.selectList schema (o.orderField.getD defaultOrderField) q.select)

end Options

/-- Compiles a query. -/
def Query.compile (mode : Sql.Mode) (schema : Option Schema) (q : Query) : Compiled :=
  let fragment := Sql.compile mode schema q
  ⟨q, fragment.sql, fragment.params⟩

namespace Compilation

/-- The result that a compiled query gives. -/
def ofCompiled (schema : Option Schema) (o : Options) (diagnostics : List Diagnostic)
    (cached : Bool) (c : Compiled) : Compilation :=
  ⟨some c.query, c.sql, c.params, o.selectClause schema c.query, diagnostics, cached⟩

/-- The result for a text without a query. -/
def rejected (diagnostics : List Diagnostic) : Compilation :=
  ⟨none, "", [], none, diagnostics, false⟩

/-- Compiles a query text without a cache, and gives what is to be kept. -/
def fresh (schema : Option Schema) (o : Options) (query : String) :
    Compilation × Option Compiled :=
  let a := analyse query
  match a.query? with
  | none => (rejected a.diagnostics, none)
  | some q =>
    let compiled := q.compile o.mode schema
    (ofCompiled schema o a.diagnostics false compiled,
      if a.diagnostics.isEmpty then some compiled else none)

end Compilation

/-- Compiles a query text, by way of the cache, which is asked at `readAt` and written to at
`storedAt`. -/
def compileText (schema : Option Schema) (o : Options) (query : String) (readAt storedAt : Int)
    (cache : Cache Compiled) : Compilation × Cache Compiled :=
  match cache.get (o.cacheText query) o.schemaVersion readAt with
  | (some compiled, cache) => (.ofCompiled schema o [] true compiled, cache)
  | (none, cache) =>
    match Compilation.fresh schema o query with
    | (result, none) => (result, cache)
    | (result, some compiled) =>
      (result, cache.set (o.cacheText query) o.schemaVersion compiled storedAt)

end LogQuery
