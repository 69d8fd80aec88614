import LogQuery.Report

/-!
# Lexical faults

What can be wrong with a stretch of text before any grammar is looked at.
-/

namespace LogQuery

inductive LexicalFault where
  /-- A quoted text or segment that never closes. -/
  | unterminated
  /-- A character that starts no token. -/
  | stray (c : Char)
  deriving DecidableEq

namespace LexicalFault

def code : LexicalFault → LexicalCode
  | unterminated => .unterminatedString
  | stray _ => .unexpectedCharacter

def message : LexicalFault → String
  | unterminated => "Unterminated string"
  | stray c => "Unexpected character '" ++ String.singleton c ++ "'"

/-- The fault as it is reported. -/
def report (f : Located LexicalFault) : Report LexicalCode :=
  ⟨f.value.code, f.value.message, f.position⟩

end LexicalFault

end LogQuery
