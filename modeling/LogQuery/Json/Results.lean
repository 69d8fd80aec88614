import LogQuery.Json.Queries
import LogQuery.Json.Reports
import LogQuery.Settings
import LogQuery.Compilation

/-!
# Schemas, settings and results as JSON
-/

namespace LogQuery

namespace Column

def toJson (c : Column) : Json := .object [("name", .string c.name), ("type", .string c.type)]

def ofJson? (j : Json) : Option Column := do
  let fields ← j.fields? ["name", "type"] 2
  let name ← Json.require fields "name" Json.string?
  let type ← Json.require fields "type" Json.string?
  return ⟨name, type⟩

end Column

namespace Schema

def toJson (s : Schema) : Json := .object [("columns", .ofList Column.toJson s.columns)]

def ofJson? (j : Json) : Option Schema := do
  let fields ← j.fields? ["columns"] 1
  let columns ← Json.require fields "columns" (Json.list? Column.ofJson?)
  return ⟨columns⟩

end Schema

namespace Settings

def toJson (s : Settings) : Json :=
  .object [("capacity", .nat s.capacity), ("ttl_secs", .nat s.ttlSeconds)]

def ofJson? (j : Json) : Option Settings := do
  let fields ← j.fields? ["capacity", "ttl_secs"] 2
  let capacity ← Json.require fields "capacity" Json.nat?
  let ttlSeconds ← Json.require fields "ttl_secs" Json.nat?
  return ⟨capacity, ttlSeconds⟩

end Settings

namespace Sql.Mode

/-- The mode as the flag whether values are handed over beside the text. -/
def toJson (m : Mode) : Json := .object [("parameterized", .bool (m = .parameterized))]

def ofJson? (j : Json) : Option Mode := do
  let fields ← j.fields? ["parameterized"] 1
  let parameterized ← Json.require fields "parameterized" Json.bool?
  return if parameterized then .parameterized else .inline

end Sql.Mode

namespace Sql.Fragment

def toJson (f : Fragment) : Json :=
  .object [("sql", .string f.sql), ("params", .ofList Literal.toJson f.params)]

def ofJson? (j : Json) : Option Fragment := do
  let fields ← j.fields? ["sql", "params"] 2
  let sql ← Json.require fields "sql" Json.string?
  let params ← Json.require fields "params" (Json.list? Literal.ofJson?)
  return ⟨sql, params⟩

end Sql.Fragment

namespace Compiled

def toJson (c : Compiled) : Json :=
  .object [("ast", c.query.toJson), ("sql", .string c.sql),
    ("params", .ofList Literal.toJson c.params)]

def ofJson? (j : Json) : Option Compiled := do
  let fields ← j.fields? ["ast", "sql", "params"] 3
  let query ← Json.require fields "ast" Query.ofJson?
  let sql ← Json.require fields "sql" Json.string?
  let params ← Json.require fields "params" (Json.list? Literal.ofJson?)
  return ⟨query, sql, params⟩

end Compiled

namespace Cache.Stats

def toJson (s : Stats) : Json :=
  .object [("size", .nat s.size), ("total_requests", .nat s.requests), ("total_hits", .nat s.hits),
    ("hit_rate", .ofBinary64 s.hitRate)]

def ofJson? (j : Json) : Option Stats := do
  let fields ← j.fields? ["size", "total_requests", "total_hits", "hit_rate"] 4
  let size ← Json.require fields "size" Json.nat?
  let requests ← Json.require fields "total_requests" Json.nat?
  let hits ← Json.require fields "total_hits" Json.nat?
  let hitRate ← Json.require fields "hit_rate" Json.number?
  return ⟨size, requests, hits, hitRate⟩

end Cache.Stats

namespace Options

def toJson (o : Options) : Json :=
  .object [("schema_version", .ofOption .string o.schemaVersion),
    ("parameterized", .bool o.parameterized), ("order_field", .ofOption .string o.orderField)]

def ofJson? (j : Json) : Option Options := do
  let fields ← j.fields? ["schema_version", "parameterized", "order_field"] 3
  let schemaVersion ← Json.default fields "schema_version" (Json.optional? Json.string?) none
  let parameterized ← Json.default fields "parameterized" Json.bool? false
  let orderField ← Json.default fields "order_field" (Json.optional? Json.string?) none
  return ⟨schemaVersion, parameterized, orderField⟩

end Options

namespace Compilation

/-- The members of a compilation. -/
def toMembers (c : Compilation) : List (String × Json) :=
  [("ast", .ofOption Query.toJson c.query), ("sql", .string c.sql),
    ("params", .ofList Literal.toJson c.params),
    ("select_clause", .ofOption .string c.selectClause),
    ("diagnostics", .ofList Diagnostic.toJson c.diagnostics), ("cached", .bool c.cached)]

def toJson (c : Compilation) : Json := .object c.toMembers

def ofJson? (j : Json) : Option Compilation := do
  let fields ←
    j.fields? ["ast", "sql", "params", "select_clause", "diagnostics", "cached"] 6
  let query ← Json.default fields "ast" (Json.optional? Query.ofJson?) none
  let sql ← Json.require fields "sql" Json.string?
  let params ← Json.require fields "params" (Json.list? Literal.ofJson?)
  let selectClause ← Json.default fields "select_clause" (Json.optional? Json.string?) none
  let diagnostics ← Json.require fields "diagnostics" (Json.list? Diagnostic.ofJson?)
  let cached ← Json.require fields "cached" Json.bool?
  return ⟨query, sql, params, selectClause, diagnostics, cached⟩

end Compilation

end LogQuery
