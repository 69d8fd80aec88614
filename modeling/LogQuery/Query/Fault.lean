import LogQuery.Report
import LogQuery.Token.Basic

/-!
# Syntactic faults

What can be wrong with a row of tokens. A fault names its cause; `SyntaxFault.code` and
`SyntaxFault.message` give it its code and its words.
-/

namespace LogQuery

inductive SyntaxFault where
  /-- The tokens end where a condition is needed. -/
  | missingCondition
  /-- The tokens end where a selected field is needed. -/
  | missingField (separator : String)
  /-- A closing parenthesis that none opens. -/
  | unmatchedParen
  /-- A token after the end of a filter that cannot follow it. -/
  | unexpected (kind : TokenKind) (text : String)
  /-- A token that starts no condition. -/
  | notCondition (kind : TokenKind) (text : String)
  /-- Too many changes between `and` and `or`. -/
  | connectivesTooDeep
  | parensTooDeep
  | emptyParens
  /-- A token that names no field to select. -/
  | notField (text : String)
  /-- A token after a selected field that is no comma. -/
  | notComma (text : String)
  /-- The tokens go on without an operator after a key, or end there. -/
  | missingOperator (key : String) (found : Option String)
  /-- The tokens go on without a value after an operator, or end there. -/
  | missingValue (operator : String) (found : Option String)
  /-- The tokens end inside parentheses. -/
  | unclosedParen
  /-- A pipe stands inside parentheses. -/
  | unclosedParenAtPipe
  | unknownOperator (text : String)
  | unknownConnective (text : String)
  /-- A value stands where a field is needed. -/
  | valueAsField (text : String)
  /-- A key follows a complete condition; `and` is understood. -/
  | missingConnective (key : String)
  deriving DecidableEq

namespace SyntaxFault

def code : SyntaxFault → SyntaxCode
  | missingCondition => .unexpectedEnd
  | missingField _ => .unexpectedEnd
  | unmatchedParen => .unexpectedToken
  | unexpected .. => .unexpectedToken
  | notCondition .. => .unexpectedToken
  | connectivesTooDeep => .unexpectedToken
  | parensTooDeep => .unexpectedToken
  | emptyParens => .unexpectedToken
  | notField _ => .unexpectedToken
  | notComma _ => .unexpectedToken
  | missingOperator .. => .expectedOperator
  | missingValue .. => .expectedValue
  | unclosedParen => .expectedClosingParen
  | unclosedParenAtPipe => .expectedClosingParen
  | unknownOperator _ => .unknownOperator
  | unknownConnective _ => .unknownBooleanOperator
  | valueAsField _ => .invalidTokenType
  | missingConnective _ => .parseError

/-- A text in single quotes. -/
def quote (text : String) : String := "'" ++ text ++ "'"

/-- The token that was found instead, if the tokens did not end. -/
def foundText : Option String → String
  | none => ""
  | some text => ", found " ++ quote text

def message : SyntaxFault → String
  | missingCondition => "Unexpected end of query, expected a condition"
  | missingField separator => "Expected a field name after " ++ quote separator
  | unmatchedParen => "Unmatched ')'"
  | unexpected kind text => "Unexpected " ++ kind.name ++ " " ++ quote text
  | notCondition kind text =>
    "Unexpected " ++ kind.name ++ " " ++ quote text ++ ", expected a condition"
  | connectivesTooDeep => "Boolean operators nested too deeply"
  | parensTooDeep => "Parentheses nested too deeply"
  | emptyParens => "Empty parentheses"
  | notField text => "Expected a field name, found " ++ quote text
  | notComma text => "Expected ',' between fields, found " ++ quote text
  | missingOperator key found => "Expected operator after " ++ quote key ++ foundText found
  | missingValue operator found => "Expected value after " ++ quote operator ++ foundText found
  | unclosedParen => "Missing closing parenthesis"
  | unclosedParenAtPipe => "Missing closing parenthesis before '|'"
  | unknownOperator text => "Unknown operator " ++ quote text
  | unknownConnective text => "Unknown boolean operator " ++ quote text
  | valueAsField text => "Expected a field name, found value " ++ quote text
  | missingConnective key => "missing boolean operator before " ++ quote key

/-- Does a query with this fault still get a meaning? -/
def isRecoverable (f : SyntaxFault) : Bool := f.code.isRecoverable

/-- The fault as it is reported. -/
def report (f : Located SyntaxFault) : Report SyntaxCode :=
  ⟨f.value.code, f.value.message, f.position⟩

end SyntaxFault

end LogQuery
