import LogQuery.Token.Fault
import LogQuery.Token.Piece

/-!
# Cutting a query text into tokens

`tokenize` never fails: it gives every token that it finds together with the lexical faults, both
in the order of the text and each at the place where its piece starts.
-/

namespace LogQuery

namespace Piece

/-- The pieces with the places where they start, the first of them at `p`. -/
def locate (p : Position) : List Piece → List (Located Piece)
  | [] => []
  | piece :: rest => ⟨piece, p⟩ :: locate (p.after piece.source) rest

/-- The token that a piece is the lexeme of. -/
def token? (piece : Located Piece) : Option Token :=
  match piece.value with
  | token l => some ⟨l.kind, l.text, piece.position, l.quoted⟩
  | _ => none

/-- What is wrong with a piece. -/
def fault? (piece : Located Piece) : Option (Located LexicalFault) :=
  match piece.value with
  | stray c => some ⟨.stray c, piece.position⟩
  | unclosed _ => some ⟨.unterminated, piece.position⟩
  | _ => none

end Piece

/-- The tokens of a text and its lexical faults. -/
structure Tokenization where
  tokens : List Token
  faults : List (Located LexicalFault)
  deriving DecidableEq

/-- The pieces of a query text with the places where they start. -/
def locatedPieces (query : String) : List (Located Piece) :=
  Piece.locate .start (pieces false query.toList)

/-- Cuts a query text into tokens. -/
def tokenize (query : String) : Tokenization :=
  ⟨(locatedPieces query).filterMap Piece.token?, (locatedPieces query).filterMap Piece.fault?⟩

namespace Tokenization

/-- The faults as they are reported. -/
def reports (t : Tokenization) : List (Report LexicalCode) := t.faults.map LexicalFault.report

/-- The faults flattened for an editor. -/
def diagnostics (t : Tokenization) : List Diagnostic := t.reports.map Diagnostic.ofLexical

end Tokenization

end LogQuery
