import LogQuery.Json.Basic
import LogQuery.Report
import LogQuery.Token.Basic

/-!
# Tokens, reports and diagnostics as JSON
-/

namespace LogQuery

namespace Position

def toJson (p : Position) : Json := .object [("line", .nat p.line), ("column", .nat p.column)]

def ofJson? (j : Json) : Option Position := do
  let fields ← j.fields? ["line", "column"] 2
  let line ← Json.require fields "line" Json.nat?
  let column ← Json.require fields "column" Json.nat?
  return ⟨line, column⟩

end Position

namespace Token

def toJson (t : Token) : Json :=
  .object [("kind", .string t.kind.name), ("text", .string t.text),
    ("position", t.position.toJson), ("quoted", .bool t.quoted)]

def ofJson? (j : Json) : Option Token := do
  let fields ← j.fields? ["kind", "text", "position", "quoted"] 3
  let kind ← Json.require fields "kind" (Json.oneOf? .outer TokenKind.all TokenKind.name)
  let text ← Json.require fields "text" Json.string?
  let position ← Json.require fields "position" Position.ofJson?
  let quoted ← Json.default fields "quoted" Json.bool? false
  return ⟨kind, text, position, quoted⟩

end Token

namespace Report

variable {κ : Type}

/-- A report with its code under the given name. -/
def toJson (name : κ → String) (r : Report κ) : Json :=
  .object [("code", .string (name r.code)), ("message", .string r.message),
    ("position", r.position.toJson)]

def ofJson? (all : List κ) (name : κ → String) (j : Json) : Option (Report κ) := do
  let fields ← j.fields? ["code", "message", "position"] 3
  let code ← Json.require fields "code" (Json.oneOf? .outer all name)
  let message ← Json.require fields "message" Json.string?
  let position ← Json.require fields "position" Position.ofJson?
  return ⟨code, message, position⟩

end Report

namespace Severity

def name : Severity → String
  | error => "error"
  | warning => "warning"

def all : List Severity := [error, warning]

end Severity

namespace Diagnostic

def toJson (d : Diagnostic) : Json :=
  .object [("code", .string d.code), ("message", .string d.message),
    ("position", d.position.toJson), ("severity", .string d.severity.name),
    ("suggestion", .string d.suggestion)]

def ofJson? (j : Json) : Option Diagnostic := do
  let fields ← j.fields? ["code", "message", "position", "severity", "suggestion"] 5
  let code ← Json.require fields "code" Json.string?
  let message ← Json.require fields "message" Json.string?
  let position ← Json.require fields "position" Position.ofJson?
  let severity ← Json.require fields "severity" (Json.oneOf? .outer Severity.all Severity.name)
  let suggestion ← Json.require fields "suggestion" Json.string?
  return ⟨code, message, position, severity, suggestion⟩

end Diagnostic

end LogQuery
