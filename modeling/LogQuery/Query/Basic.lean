import LogQuery.Filter

/-!
# Queries

A query is an optional filter and a list of selected fields.
-/

namespace LogQuery

structure Query where
  filter : Option Filter
  select : List Field
  deriving DecidableEq

namespace Query

/-- The query that neither filters nor selects. -/
def empty : Query := ⟨none, []⟩

def isEmpty (q : Query) : Bool := q.filter.isNone && q.select.isEmpty

/-- The query as text: the filter, and the selected fields after a pipe. -/
def print (q : Query) : String :=
  let filter := match q.filter with
    | none => ""
    | some f => f.print
  if q.select.isEmpty then filter
  else
    filter ++ (if q.filter.isSome then " " else "") ++ "| " ++
      String.intercalate ", " (q.select.map Field.print)

end Query

end LogQuery
