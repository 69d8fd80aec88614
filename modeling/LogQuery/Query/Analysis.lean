import LogQuery.Query.Outcome
import LogQuery.Token.Tokenization

/-!
# Reading queries from text

A query text is cut into tokens, and these are read as a query even if the text has lexical faults,
so that all faults are reported at once: first the lexical ones, then the syntactic ones. A text
with a lexical fault or a fatal syntactic one has no query (`Query.ofText`).
-/

namespace LogQuery

/-- All that is known of a query text. -/
structure Analysis where
  tokenization : Tokenization
  outcome : Outcome
  deriving DecidableEq

/-- Cuts a query text into tokens and reads these as a query. -/
def analyse (query : String) : Analysis :=
  let tokenization := tokenize query
  ⟨tokenization, Query.ofTokens tokenization.tokens⟩

namespace Analysis

/-- All faults, the lexical ones first. -/
def diagnostics (a : Analysis) : List Diagnostic :=
  a.tokenization.diagnostics ++ a.outcome.diagnostics

/-- The query, if the text has no lexical fault and no fatal syntactic one. -/
def query? (a : Analysis) : Option Query :=
  if a.tokenization.faults.isEmpty then a.outcome.query else none

end Analysis

/-- The faults of a query text. -/
def validate (query : String) : List Diagnostic := (analyse query).diagnostics

/-- The query that a text stands for, or all faults of the text if one of them blocks the query. -/
def Query.ofText (text : String) : Except (List Diagnostic) Query :=
  let a := analyse text
  if !a.tokenization.faults.isEmpty || a.outcome.hasFatal then .error a.diagnostics
  else .ok (a.outcome.query.getD .empty)

end LogQuery
