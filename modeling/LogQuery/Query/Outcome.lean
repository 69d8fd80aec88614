import LogQuery.Query.Basic
import LogQuery.Query.Reading

/-!
# Reading queries from tokens

A query is an optional filter, and optionally a pipe and the selected fields. Reading one never
fails outright: `Query.ofTokens` gives an `Outcome`, which holds every fault found, and the query
unless one of them is fatal. After a filter that is at fault, what follows each further keyword is
still read, only for its faults (`recover`).
-/

namespace LogQuery

/-- What reading a row of tokens as a query gives. -/
structure Outcome where
  query : Option Query
  faults : List (Located SyntaxFault)
  deriving DecidableEq

namespace Outcome

/-- Is some fault fatal? -/
def isFatal (faults : List (Located SyntaxFault)) : Bool :=
  faults.any fun f => !f.value.isRecoverable

def hasFatal (o : Outcome) : Bool := isFatal o.faults

def isClean (o : Outcome) : Bool := o.faults.isEmpty

/-- The faults as they are reported. -/
def reports (o : Outcome) : List (Report SyntaxCode) := o.faults.map SyntaxFault.report

/-- The faults flattened for an editor. -/
def diagnostics (o : Outcome) : List Diagnostic := o.reports.map Diagnostic.ofSyntax

end Outcome

/-- The field that a token selects. -/
def selectedField? (t : Token) : Option Field :=
  match t.kind with
  | .key => some (.ofKey t.text)
  | .value => if t.quoted then some (.simple t.text) else none
  | _ => none

/-- The fields selected after the pipe or comma `separator`, up to the first fault. -/
def readSelect (separator : Token) : List Token → List Field × List (Located SyntaxFault)
  | [] => ([], [⟨.missingField separator.text, separator.position⟩])
  | [t] =>
    match selectedField? t with
    | none => ([], [⟨.notField t.text, t.position⟩])
    | some f => ([f], [])
  | t :: s :: rest =>
    match selectedField? t with
    | none => ([], [⟨.notField t.text, t.position⟩])
    | some f =>
      if s.kind = .comma then
        let r := readSelect s rest
        (f :: r.1, r.2)
      else ([f], [⟨.notComma s.text, s.position⟩])

/-- The faults of what follows each further keyword, up to the pipe. -/
def recover (last : Position) : List Token → List (Located SyntaxFault)
  | [] => []
  | t :: rest =>
    match t.kind with
    | .pipe => []
    | .bool =>
      let r := readExpression last 0 rest
      r.faults ++ recover last r.rest
    | _ => recover last rest
termination_by ts => ts.length
decreasing_by
  · have := (shorter_readExpression last 0 rest).1
    simp
    omega
  · simp

/-- What follows the filter: nothing, or the selected fields. -/
def readTail : List Token → List Field × List (Located SyntaxFault)
  | [] => ([], [])
  | t :: rest =>
    if t.kind = .pipe then readSelect t rest
    else if t.kind = .paren ∧ t.text = ")" then ([], [⟨.unmatchedParen, t.position⟩])
    else ([], [⟨.unexpected t.kind t.text, t.position⟩])

/-- Is there no filter in front of the tokens? -/
def startsTail : List Token → Bool
  | [] => true
  | t :: _ => t.kind = .pipe

/-- Where the last token stands. -/
def lastPosition (ts : List Token) : Position :=
  match ts.getLast? with
  | none => .start
  | some t => t.position

namespace Query

/-- The query with the given filter and tail, unless a fault is fatal. -/
def assemble (filter : Option Filter) (faults : List (Located SyntaxFault)) (ts : List Token) :
    Outcome :=
  let tail := readTail ts
  let all := faults ++ tail.2
  ⟨if Outcome.isFatal all then none else some ⟨filter, tail.1⟩, all⟩

/-- Reads a row of tokens as a query. -/
def ofTokens (ts : List Token) : Outcome :=
  if startsTail ts then assemble none [] ts
  else
    let last := lastPosition ts
    let r := readExpression last 0 ts
    match r.value with
    | none => ⟨none, r.faults ++ recover last r.rest⟩
    | some filter => assemble (some filter) r.faults r.rest

end Query

end LogQuery
