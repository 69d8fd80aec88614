import LogQuery.Position

/-!
# What the user is told about a faulty query

Faults of a query text come in two families, lexical and syntactic, each with its own codes. A
`Report` is a code, a message and a place; a `Diagnostic` is a report flattened for an editor, with
a severity and a hint. The only fault that does not block a query is a missing boolean operator
(`SyntaxCode.isRecoverable`).
-/

namespace LogQuery

/-- Codes of lexical faults. -/
inductive LexicalCode where
  | unterminatedString
  | unexpectedCharacter
  deriving DecidableEq

namespace LexicalCode

def name : LexicalCode → String
  | unterminatedString => "UNTERMINATED_STRING"
  | unexpectedCharacter => "UNEXPECTED_CHARACTER"

/-- How to mend the query. -/
def suggestion : LexicalCode → String
  | unterminatedString => "Add the missing closing quote"
  | unexpectedCharacter => "Remove the character or quote the value"

def all : List LexicalCode := [unterminatedString, unexpectedCharacter]

end LexicalCode

/-- Codes of syntactic faults. -/
inductive SyntaxCode where
  | unexpectedEnd
  | unexpectedToken
  | expectedOperator
  | expectedValue
  | expectedClosingParen
  | unknownOperator
  | unknownBooleanOperator
  | invalidTokenType
  | parseError
  deriving DecidableEq

namespace SyntaxCode

def name : SyntaxCode → String
  | unexpectedEnd => "UNEXPECTED_END"
  | unexpectedToken => "UNEXPECTED_TOKEN"
  | expectedOperator => "EXPECTED_OPERATOR"
  | expectedValue => "EXPECTED_VALUE"
  | expectedClosingParen => "EXPECTED_CLOSING_PAREN"
  | unknownOperator => "UNKNOWN_OPERATOR"
  | unknownBooleanOperator => "UNKNOWN_BOOLEAN_OPERATOR"
  | invalidTokenType => "INVALID_TOKEN_TYPE"
  | parseError => "PARSE_ERROR"

/-- How to mend the query. -/
def suggestion : SyntaxCode → String
  | unexpectedEnd => "Complete the expression"
  | unexpectedToken => "Check the query syntax near this token"
  | expectedOperator => "Use one of =, !=, ~, !~, >, <, >=, <="
  | expectedValue => "Add a value after the operator, e.g. level = \"error\""
  | expectedClosingParen => "Add the missing ')'"
  | unknownOperator => "Use one of =, !=, ~, !~, >, <, >=, <="
  | unknownBooleanOperator => "Combine conditions with 'and' or 'or'"
  | invalidTokenType => "Field names must not be quoted on their own"
  | parseError => "Insert 'and' or 'or' between conditions"

/-- Is a query with this fault still given a meaning? -/
def isRecoverable (code : SyntaxCode) : Bool := code = parseError

def all : List SyntaxCode :=
  [unexpectedEnd, unexpectedToken, expectedOperator, expectedValue, expectedClosingParen,
    unknownOperator, unknownBooleanOperator, invalidTokenType, parseError]

end SyntaxCode

/-- A fault as it is reported: what kind, in words, and where. -/
structure Report (κ : Type) where
  code : κ
  message : String
  position : Position
  deriving DecidableEq

/-- The message with its place. -/
def Report.describe {κ : Type} (r : Report κ) : String :=
  r.message ++ " at " ++ r.position.describe

/-- Does a diagnostic block the query? -/
inductive Severity where
  | error
  | warning
  deriving DecidableEq

/-- A report flattened for an editor. -/
structure Diagnostic where
  code : String
  message : String
  position : Position
  severity : Severity
  suggestion : String
  deriving DecidableEq

namespace Diagnostic

/-- Does the diagnostic block the query? -/
def isError (d : Diagnostic) : Bool := d.severity = .error

def ofLexical (r : Report LexicalCode) : Diagnostic :=
  ⟨r.code.name, r.message, r.position, .error, r.code.suggestion⟩

def ofSyntax (r : Report SyntaxCode) : Diagnostic :=
  ⟨r.code.name, r.message, r.position, if r.code.isRecoverable then .warning else .error,
    r.code.suggestion⟩

end Diagnostic

end LogQuery
