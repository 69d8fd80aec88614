import LogQuery.Text.Word
import LogQuery.Token.Key

/-!
# Pieces of a query text

A query text is cut, from left to right, into pieces: blanks, the lexemes of tokens, characters
that start no token, and possibly a last piece that opens a quote and never closes it. How a piece
is cut depends on the text from there on and on one bit of what came before: a value is expected
right after a comparison operator.

* `source_nextPiece`: a piece and the rest make up the text;
* `source_ne_nil_of_nextPiece`: no piece is empty;
* `flatMap_source_pieces`: the pieces of a text make up the text.
-/

namespace LogQuery

open Text

/-- The stretch of text that a token is made of. -/
structure Lexeme where
  kind : TokenKind
  source : List Char
  /-- Was part of it written in quotes? -/
  quoted : Bool
  deriving DecidableEq

/-- The text of the token. A quoted value stands for what is between its quotes, the operator `==` is
another spelling of `=`, and all else is taken as written. -/
def Lexeme.text (l : Lexeme) : String :=
  match l.kind, l.quoted with
  | .value, true => String.ofList (unescape l.source.tail.dropLast)
  | .operator, _ => if l.source = ['=', '='] then "=" else String.ofList l.source
  | _, _ => String.ofList l.source

/-- A piece of a query text. -/
inductive Piece where
  | blank (c : Char)
  | token (l : Lexeme)
  | stray (c : Char)
  | unclosed (source : List Char)
  deriving DecidableEq

namespace Piece

/-- The characters that the piece was cut from. -/
def source : Piece → List Char
  | blank c => [c]
  | token l => l.source
  | stray c => [c]
  | unclosed cs => cs

/-- Is a value expected after the piece, if `before` says whether one was expected before it? -/
def expectsValue (before : Bool) : Piece → Bool
  | token l => l.kind = .operator
  | _ => before

end Piece

/-- A piece and the text after it. -/
abbrev Cut := Piece × List Char

/-- The operator that starts with `c`: two characters where they make one, else `c` alone. -/
def cutOperator (c : Char) (rest : List Char) : Cut :=
  match c, rest with
  | '>', '=' :: rest => (.token ⟨.operator, ['>', '='], false⟩, rest)
  | '<', '=' :: rest => (.token ⟨.operator, ['<', '='], false⟩, rest)
  | '!', '=' :: rest => (.token ⟨.operator, ['!', '='], false⟩, rest)
  | '=', '=' :: rest => (.token ⟨.operator, ['=', '='], false⟩, rest)
  | '!', '~' :: rest => (.token ⟨.operator, ['!', '~'], false⟩, rest)
  | c, rest => (.token ⟨.operator, [c], false⟩, rest)

/-- The quoted value that the quote `c` opens. -/
def cutQuotedValue (c : Char) (rest : List Char) : Cut :=
  match readQuoted c rest with
  | none => (.unclosed (c :: rest), [])
  | some (body, rest) => (.token ⟨.value, c :: body ++ [c], true⟩, rest)

/-- May `c` stand in a value written without quotes? -/
def isBareChar (c : Char) : Bool := !isBlank c && !isDelimiter c

/-- The value written without quotes that starts with `c`. -/
def cutBareValue (c : Char) (rest : List Char) : Cut :=
  (.token ⟨.value, c :: rest.takeWhile isBareChar, false⟩, rest.dropWhile isBareChar)

/-- Is the text one of the keywords? -/
def isKeyword (word : List Char) : Bool :=
  sameWord (String.ofList word) "and" || sameWord (String.ofList word) "or"

/-- Does the text go on with a key character? -/
def startsKey : List Char → Bool
  | [] => false
  | c :: _ => isKeyChar c

/-- The lexeme of a key. A quoted segment on its own is a value. -/
def keyLexeme (parts : List KeyPart) : Lexeme :=
  match parts with
  | [.segment quote body] => ⟨.value, (KeyPart.segment quote body).source, true⟩
  | parts => ⟨.key, parts.flatMap KeyPart.source, parts.any KeyPart.isSegment⟩

/-- The keyword at the start of a text, and the rest: a run of letters that no key character
follows. -/
def keyword? (cs : List Char) : Option (List Char × List Char) :=
  if isKeyword (cs.takeWhile isAlphabetic) && !startsKey (cs.dropWhile isAlphabetic) then
    some (cs.takeWhile isAlphabetic, cs.dropWhile isAlphabetic)
  else none

/-- The keyword, key or quoted value at the start of a text. -/
def cutWord (cs : List Char) : Cut :=
  match keyword? cs with
  | some (word, rest) => (.token ⟨.bool, word, false⟩, rest)
  | none =>
    match readKey true cs with
    | none => (.unclosed cs, [])
    | some (parts, rest) => (.token (keyLexeme parts), rest)

/-- The first piece of the text `c :: rest`. -/
def nextPiece (expectsValue : Bool) (c : Char) (rest : List Char) : Cut :=
  if isBlank c then (.blank c, rest)
  else if expectsValue && !isOperatorChar c && !isDelimiter c then
    if isQuote c then cutQuotedValue c rest else cutBareValue c rest
  else if c = '(' ∨ c = ')' then (.token ⟨.paren, [c], false⟩, rest)
  else if c = '|' then (.token ⟨.pipe, [c], false⟩, rest)
  else if c = ',' then (.token ⟨.comma, [c], false⟩, rest)
  else if isOperatorChar c then cutOperator c rest
  else if isQuote c || isKeyChar c then cutWord (c :: rest)
  else (.stray c, rest)

theorem source_cutOperator (c : Char) (rest : List Char) :
    (cutOperator c rest).1.source ++ (cutOperator c rest).2 = c :: rest := by
  unfold cutOperator
  split <;> rfl

theorem source_cutQuotedValue (c : Char) (rest : List Char) :
    (cutQuotedValue c rest).1.source ++ (cutQuotedValue c rest).2 = c :: rest := by
  unfold cutQuotedValue
  split
  · simp [Piece.source]
  · rename_i body rest' h
    simp [Piece.source, append_of_readQuoted h]

theorem source_cutBareValue (c : Char) (rest : List Char) :
    (cutBareValue c rest).1.source ++ (cutBareValue c rest).2 = c :: rest := by
  simp [cutBareValue, Piece.source, List.takeWhile_append_dropWhile]

theorem source_keyLexeme (parts : List KeyPart) :
    (keyLexeme parts).source = parts.flatMap KeyPart.source := by
  unfold keyLexeme
  split <;> simp

theorem append_of_keyword? {cs word rest : List Char} (h : keyword? cs = some (word, rest)) :
    word ++ rest = cs := by
  unfold keyword? at h
  split at h <;> simp_all
  rw [← h.1, ← h.2, List.takeWhile_append_dropWhile]

theorem isKeyword_of_keyword? {cs word rest : List Char} (h : keyword? cs = some (word, rest)) :
    isKeyword word = true := by
  unfold keyword? at h
  split at h <;> simp_all

theorem source_cutWord (cs : List Char) : (cutWord cs).1.source ++ (cutWord cs).2 = cs := by
  unfold cutWord
  split
  · rename_i h
    exact append_of_keyword? h
  · split
    · exact List.append_nil cs
    · rename_i h
      simp [Piece.source, source_keyLexeme, source_of_readKey h]

/-- A piece and the rest make up the text. -/
theorem source_nextPiece (expectsValue : Bool) (c : Char) (rest : List Char) :
    (nextPiece expectsValue c rest).1.source ++ (nextPiece expectsValue c rest).2 = c :: rest := by
  unfold nextPiece
  split
  · rfl
  split
  · split
    · exact source_cutQuotedValue c rest
    · exact source_cutBareValue c rest
  split
  · rfl
  split
  · rfl
  split
  · rfl
  split
  · exact source_cutOperator c rest
  split
  · exact source_cutWord (c :: rest)
  · rfl

theorem flatMap_source_ne_nil {parts : List KeyPart} (h : parts ≠ []) :
    parts.flatMap KeyPart.source ≠ [] := by
  cases parts with
  | nil => exact absurd rfl h
  | cons part parts => cases part <;> simp [KeyPart.source]

theorem source_cutWord_ne_nil {c : Char} (rest : List Char)
    (hc : (isQuote c || isKeyChar c) = true) : (cutWord (c :: rest)).1.source ≠ [] := by
  unfold cutWord
  split
  · rename_i word _ h
    have hword := isKeyword_of_keyword? h
    rintro rfl
    exact absurd hword (by decide)
  · split
    · simp [Piece.source]
    · rename_i h
      simpa [Piece.source, source_keyLexeme] using flatMap_source_ne_nil (readKey_ne_nil hc h)

theorem source_cutQuotedValue_ne_nil (c : Char) (rest : List Char) :
    (cutQuotedValue c rest).1.source ≠ [] := by
  unfold cutQuotedValue
  split <;> simp [Piece.source]

theorem source_cutOperator_ne_nil (c : Char) (rest : List Char) :
    (cutOperator c rest).1.source ≠ [] := by
  unfold cutOperator
  split <;> simp [Piece.source]

/-- No piece is empty. -/
theorem source_ne_nil_of_nextPiece (expectsValue : Bool) (c : Char) (rest : List Char) :
    (nextPiece expectsValue c rest).1.source ≠ [] := by
  unfold nextPiece
  split
  · exact List.cons_ne_nil _ _
  split
  · split
    · exact source_cutQuotedValue_ne_nil c rest
    · exact List.cons_ne_nil _ _
  split
  · exact List.cons_ne_nil _ _
  split
  · exact List.cons_ne_nil _ _
  split
  · exact List.cons_ne_nil _ _
  split
  · exact source_cutOperator_ne_nil c rest
  split
  · rename_i h
    exact source_cutWord_ne_nil rest h
  · exact List.cons_ne_nil _ _

theorem length_nextPiece_lt (expectsValue : Bool) (c : Char) (rest : List Char) :
    (nextPiece expectsValue c rest).2.length < (c :: rest).length := by
  have hsource := congrArg List.length (source_nextPiece expectsValue c rest)
  have hne := List.length_pos_iff.mpr (source_ne_nil_of_nextPiece expectsValue c rest)
  rw [List.length_append] at hsource
  omega

/-- The pieces of a text. -/
def pieces (expectsValue : Bool) : List Char → List Piece
  | [] => []
  | c :: rest =>
    let cut := nextPiece expectsValue c rest
    cut.1 :: pieces (cut.1.expectsValue expectsValue) cut.2
termination_by cs => cs.length
decreasing_by exact length_nextPiece_lt expectsValue c rest

/-- The pieces of a text make up the text. -/
theorem flatMap_source_pieces (expectsValue : Bool) (cs : List Char) :
    (pieces expectsValue cs).flatMap Piece.source = cs := by
  fun_induction pieces expectsValue cs with
  | case1 => rfl
  | case2 expectsValue c rest cut ih =>
    simp only [List.flatMap_cons, ih]
    exact source_nextPiece expectsValue c rest

end LogQuery
