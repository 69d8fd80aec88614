import LogQuery.Literal

/-!
# Quoted text in SQL

Strings stand in single quotes and names in backquotes. What could end the quotes is escaped by
replacing one character after the other in the whole text, the backslash first, so that the
backslashes of later replacements stay as they are.
-/

namespace LogQuery.Sql

/-- The text with every `c` replaced by `replacement`. -/
def replaceChar (c : Char) (replacement text : String) : String :=
  String.ofList (text.toList.flatMap fun d => if d = c then replacement.toList else [d])

/-- A string as the content of a text in single quotes: backslashes are doubled, and then single
quotes. -/
def escapeString (s : String) : String := replaceChar '\'' "''" (replaceChar '\\' "\\\\" s)

/-- A string in single quotes. -/
def quoteString (s : String) : String := "'" ++ escapeString s ++ "'"

/-- A name in backquotes: backslashes are doubled, and then a backslash is put before each
backquote. -/
def quoteIdentifier (name : String) : String :=
  "`" ++ replaceChar '`' "\\`" (replaceChar '\\' "\\\\" name) ++ "`"

/-- A literal as a value in a condition. -/
def literal : Literal → String
  | .string s => quoteString s
  | .null => "NULL"
  | l => l.text

end LogQuery.Sql
