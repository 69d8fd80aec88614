import LogQuery.Position
import LogQuery.Text.Alphabetic
import LogQuery.Text.Blank
import LogQuery.Text.Numeric
import LogQuery.Text.Quoted

/-!
# Tokens

A query text is a row of tokens: keys, comparison operators, values, parentheses, the pipe before
the selected fields, the keywords `and` and `or`, and commas. This module holds the tokens and the
classes of characters that they are made of.
-/

namespace LogQuery

inductive TokenKind where
  /-- A field name, possibly dotted and with quoted segments. -/
  | key
  /-- A comparison operator. -/
  | operator
  /-- A value to compare with. -/
  | value
  /-- An opening or closing parenthesis. -/
  | paren
  /-- The mark between the filter and the selected fields. -/
  | pipe
  /-- One of the keywords `and` and `or`. -/
  | bool
  /-- The mark between two selected fields. -/
  | comma
  deriving DecidableEq

namespace TokenKind

def name : TokenKind → String
  | key => "key"
  | operator => "operator"
  | value => "value"
  | paren => "paren"
  | pipe => "pipe"
  | bool => "bool"
  | comma => "comma"

def all : List TokenKind := [key, operator, value, paren, pipe, bool, comma]

end TokenKind

/-- A token. A value from a quoted text carries what the text stands for; a key keeps its quoted
segments as they were written. -/
structure Token where
  kind : TokenKind
  text : String
  position : Position
  /-- Was part of the token written in quotes? -/
  quoted : Bool
  deriving DecidableEq

namespace Text

/-- Is `c` a letter or a numeral? -/
def isAlphanumeric (c : Char) : Bool := isAlphabetic c || isNumeric c

/-- May `c` stand in a name written without quotes? -/
def isNameChar (c : Char) : Bool := isAlphanumeric c || c == '_' || c == ':' || c == '-'

/-- May `c` stand in a key outside quotes? A key is a row of names with dots between them. -/
def isKeyChar (c : Char) : Bool := isNameChar c || c == '.'

/-- May `c` stand in a comparison operator? -/
def isOperatorChar (c : Char) : Bool := c == '=' || c == '!' || c == '~' || c == '>' || c == '<'

/-- Does `c` end a value written without quotes, and never start one? -/
def isDelimiter (c : Char) : Bool := c == '(' || c == ')' || c == '|'

end Text

end LogQuery
