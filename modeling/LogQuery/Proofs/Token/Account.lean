import LogQuery.Token.Tokenization

/-!
# Every character is accounted for

Cutting a text into tokens loses nothing and makes nothing up: the text is a row of blanks, lexemes
of tokens, characters that start no token, and possibly a last stretch with a quote that never
closes. `Account` states this without the pieces that the text is cut into: it lists the tokens and
the reported faults of a text, each at the line and column where its stretch starts.

* `Position.after_ofText`: lines and columns can be counted from the text before a place;
* `quotes_of_readQuoted`, `readQuoted_of_quotes`: a quoted text is read up to its closing quote;
* `isSound_nextPiece`: every piece is what its kind says;
* `account_tokenize`: the tokens and faults of a text account for it.
-/

namespace LogQuery

open Text

/-! ## Places -/

namespace Position

/-- The place right after a text: one line more for each newline, and one column more for each
character since the last newline. -/
def ofText (before : List Char) : Position :=
  ⟨1 + before.count '\n', 1 + (before.reverse.takeWhile (· ≠ '\n')).length⟩

theorem next_ofText (before : List Char) (c : Char) :
    (ofText before).next c = ofText (before ++ [c]) := by
  by_cases hc : c = '\n'
  · simp [next, ofText, hc, Nat.add_assoc]
  · simp [next, ofText, hc, Nat.add_assoc]

theorem after_ofText (before cs : List Char) : (ofText before).after cs = ofText (before ++ cs) := by
  induction cs generalizing before with
  | nil => rw [after_nil, List.append_nil]
  | cons c cs ih => rw [after_cons, next_ofText, ih, List.append_assoc, List.singleton_append]

end Position

/-! ## Quoted texts -/

/-- Between two quotes, `body` stands for `text`: a backslash goes and the character after it stays,
and no other character is the quote. -/
inductive Quotes (quote : Char) : List Char → List Char → Prop
  | nil : Quotes quote [] []
  | escape {c : Char} {body text : List Char} (h : Quotes quote body text) :
      Quotes quote ('\\' :: c :: body) (c :: text)
  | plain {c : Char} {body text : List Char} (hescape : c ≠ '\\') (hquote : c ≠ quote)
      (h : Quotes quote body text) : Quotes quote (c :: body) (c :: text)

/-- What is read between two quotes stands for the body without its escaping backslashes. -/
theorem quotes_of_readQuoted {quote : Char} {cs body rest : List Char}
    (h : readQuoted quote cs = some (body, rest)) : Quotes quote body (unescape body) := by
  fun_induction readQuoted quote cs generalizing body rest with
  | case1 => cases h
  | case2 => cases h
  | case3 c tail ih =>
    obtain ⟨⟨inner, rest'⟩, hr, heq⟩ := Option.map_eq_some_iff.mp h
    cases heq
    exact .escape (ih hr)
  | case4 =>
    cases h
    exact .nil
  | case5 c tail hlone hpair hquote ih =>
    obtain ⟨⟨inner, rest'⟩, hr, heq⟩ := Option.map_eq_some_iff.mp h
    cases heq
    have hescape : c ≠ '\\' := by
      rintro rfl
      cases tail with
      | nil => exact hlone rfl rfl
      | cons d tail => exact hpair d tail rfl rfl
    have hunescape : unescape (c :: inner) = c :: unescape inner := by
      rw [unescape]
      · simp [hescape]
      · simp [hescape]
    rw [hunescape]
    exact .plain hescape hquote (ih hr)

/-- A quoted text is read up to its closing quote. -/
theorem readQuoted_of_quotes {quote : Char} (hquote : quote ≠ '\\') {body text : List Char}
    (h : Quotes quote body text) (rest : List Char) :
    readQuoted quote (body ++ quote :: rest) = some (body, rest) := by
  induction h with
  | nil =>
    rw [List.nil_append, readQuoted, if_pos rfl]
    · simp [hquote]
    · simp [hquote]
  | escape h ih => rw [List.cons_append, List.cons_append, readQuoted, ih, Option.map_some]
  | plain hescape hne h ih =>
    rw [List.cons_append, readQuoted, if_neg hne, ih, Option.map_some]
    · simp [hescape]
    · simp [hescape]

/-- Some quote of the text is not closed by any later one. -/
def NeverCloses (cs : List Char) : Prop :=
  ∃ before quote after, cs = before ++ quote :: after ∧ isQuote quote = true ∧
    ∀ body text rest, after = body ++ quote :: rest → ¬ Quotes quote body text

theorem ne_escape_of_isQuote {c : Char} (h : isQuote c = true) : c ≠ '\\' := by
  rintro rfl
  exact absurd h (by decide)

theorem neverCloses_of_readQuoted {quote : Char} (hquote : isQuote quote = true) {cs : List Char}
    (h : readQuoted quote cs = none) : NeverCloses (quote :: cs) := by
  refine ⟨[], quote, cs, rfl, hquote, ?_⟩
  rintro body text rest rfl hquotes
  rw [readQuoted_of_quotes (ne_escape_of_isQuote hquote) hquotes] at h
  cases h

theorem NeverCloses.append {cs : List Char} (h : NeverCloses cs) (front : List Char) :
    NeverCloses (front ++ cs) := by
  obtain ⟨before, quote, after, rfl, hquote, hnever⟩ := h
  exact ⟨front ++ before, quote, after, (List.append_assoc ..).symm, hquote, hnever⟩

/-! ## What a token is cut from -/

/-- A key character outside quotes, or a quoted segment. -/
def KeyPart.IsWellFormed : KeyPart → Prop
  | plain c => isKeyChar c = true
  | segment quote body => isQuote quote = true ∧ ∃ text, Quotes quote body text

/-- The ways to write an operator; two of them, `=` and `==`, mean the same. -/
def operatorSpellings : List (List Char) :=
  [['='], ['!'], ['~'], ['>'], ['<'], ['>', '='], ['<', '='], ['!', '='], ['=', '='], ['!', '~']]

/-- What a token is written with, apart from quoted values and operators. -/
def IsWrittenAs (kind : TokenKind) (quoted : Bool) (lexeme : List Char) : Prop :=
  match kind with
  | .paren => lexeme = ['('] ∨ lexeme = [')']
  | .pipe => lexeme = ['|']
  | .comma => lexeme = [',']
  | .bool => isKeyword lexeme = true
  | .key => ∃ parts : List KeyPart, lexeme = parts.flatMap KeyPart.source ∧
      (∀ part ∈ parts, part.IsWellFormed) ∧ quoted = parts.any KeyPart.isSegment
  | .value => ∀ c ∈ lexeme, isBareChar c = true
  | .operator => False

/-- `lexeme` is what the token is written with, and the text of the token follows from it: a quoted
value stands for what is between its quotes, `==` reads `=`, and every other token is taken as
written. -/
def Token.IsCutFrom (t : Token) (lexeme : List Char) : Prop :=
  match t.kind, t.quoted with
  | .value, true => ∃ quote body, isQuote quote = true ∧ lexeme = quote :: (body ++ [quote]) ∧
      Quotes quote body t.text.toList
  | .operator, _ => lexeme ∈ operatorSpellings ∧
      t.text.toList = if lexeme = ['=', '='] then ['='] else lexeme
  | kind, quoted => t.text.toList = lexeme ∧ IsWrittenAs kind quoted lexeme

/-- May the character start neither a token nor a blank? -/
def startsNothing (c : Char) : Bool :=
  !isBlank c && !isDelimiter c && c != ',' && !isOperatorChar c && !isQuote c && !isKeyChar c

/-- `ts` and `reports` are the tokens and the faults of the text `cs` that stands after `before`. -/
inductive Account : List Char → List Char → List Token → List (Report LexicalCode) → Prop
  | nothing {before : List Char} : Account before [] [] []
  | blank {before cs : List Char} {c : Char} {ts : List Token} {reports : List (Report LexicalCode)}
      (hblank : isBlank c = true) (h : Account (before ++ [c]) cs ts reports) :
      Account before (c :: cs) ts reports
  | token {before cs lexeme : List Char} {t : Token} {ts : List Token}
      {reports : List (Report LexicalCode)} (hne : lexeme ≠ []) (hcut : t.IsCutFrom lexeme)
      (hplace : t.position = .ofText before) (h : Account (before ++ lexeme) cs ts reports) :
      Account before (lexeme ++ cs) (t :: ts) reports
  | stray {before cs : List Char} {c : Char} {ts : List Token} {report : Report LexicalCode}
      {reports : List (Report LexicalCode)} (hc : startsNothing c = true)
      (hcode : report.code = .unexpectedCharacter) (hplace : report.position = .ofText before)
      (h : Account (before ++ [c]) cs ts reports) : Account before (c :: cs) ts (report :: reports)
  | unclosed {before cs : List Char} {report : Report LexicalCode} (hcs : NeverCloses cs)
      (hcode : report.code = .unterminatedString) (hplace : report.position = .ofText before) :
      Account before cs [] [report]

/-! ## Pieces -/

/-- The piece is what its kind says, if `rest` comes after it. -/
def Piece.IsSound (rest : List Char) : Piece → Prop
  | blank c => isBlank c = true
  | token l => ∀ p, Token.IsCutFrom ⟨l.kind, l.text, p, l.quoted⟩ l.source
  | stray c => startsNothing c = true
  | unclosed cs => NeverCloses cs ∧ rest = []

/-- A lexeme that is taken as written. -/
theorem isSound_token {kind : TokenKind} {quoted : Bool} {lexeme : List Char} (rest : List Char)
    (h : IsWrittenAs kind quoted lexeme) (hplain : kind = .value → quoted = false) :
    (Piece.token ⟨kind, lexeme, quoted⟩).IsSound rest := by
  intro p
  have htext : (Lexeme.text ⟨kind, lexeme, quoted⟩).toList = lexeme := by
    cases kind with
    | operator => exact h.elim
    | value =>
      rw [hplain rfl]
      exact String.toList_ofList
    | _ => exact String.toList_ofList
  cases kind with
  | operator => exact h.elim
  | value =>
    cases quoted with
    | true => cases hplain rfl
    | false => exact ⟨htext, h⟩
  | _ => exact ⟨htext, h⟩

theorem isSound_cutOperator {c : Char} (hc : isOperatorChar c = true) (rest : List Char) :
    (cutOperator c rest).1.IsSound (cutOperator c rest).2 := by
  have hspelled : ∀ {lexeme : List Char} (rest : List Char), lexeme ∈ operatorSpellings →
      (Piece.token ⟨.operator, lexeme, false⟩).IsSound rest := by
    intro lexeme rest hmem p
    refine ⟨hmem, ?_⟩
    show (if lexeme = ['=', '='] then "=" else String.ofList lexeme).toList = _
    split
    · rfl
    · exact String.toList_ofList
  unfold cutOperator
  split
  · exact hspelled _ (by decide)
  · exact hspelled _ (by decide)
  · exact hspelled _ (by decide)
  · exact hspelled _ (by decide)
  · exact hspelled _ (by decide)
  · refine hspelled _ ?_
    simp only [isOperatorChar, Bool.or_eq_true, beq_iff_eq] at hc
    rcases hc with (((rfl | rfl) | rfl) | rfl) | rfl <;> decide

theorem isSound_quoted {quote : Char} (hquote : isQuote quote = true) {cs body rest : List Char}
    (h : readQuoted quote cs = some (body, rest)) :
    (Piece.token ⟨.value, quote :: body ++ [quote], true⟩).IsSound rest := by
  intro p
  refine ⟨quote, body, hquote, rfl, ?_⟩
  show Quotes quote body (String.ofList (unescape (body ++ [quote]).dropLast)).toList
  rw [String.toList_ofList, List.dropLast_concat]
  exact quotes_of_readQuoted h

theorem isSound_cutQuotedValue {quote : Char} (hquote : isQuote quote = true) (rest : List Char) :
    (cutQuotedValue quote rest).1.IsSound (cutQuotedValue quote rest).2 := by
  unfold cutQuotedValue
  split
  · rename_i h
    exact ⟨neverCloses_of_readQuoted hquote h, rfl⟩
  · rename_i h
    exact isSound_quoted hquote h

theorem isSound_cutBareValue {c : Char} (hc : isBareChar c = true) (rest : List Char) :
    (cutBareValue c rest).1.IsSound (cutBareValue c rest).2 := by
  refine isSound_token _ (List.forall_mem_cons.mpr ⟨hc, fun d hd => ?_⟩) fun _ => rfl
  exact List.all_eq_true.mp List.all_takeWhile d hd

/-! ## Keys -/

/-- The parts of a key are well formed; a key without an end has a quote that never closes. -/
theorem of_readKey (opening : Bool) (cs : List Char) :
    match readKey opening cs with
    | none => NeverCloses cs
    | some (parts, _) => ∀ part ∈ parts, part.IsWellFormed := by
  fun_induction readKey opening cs with
  | case1 => simp
  | case2 opening c rest hc ih =>
    cases hread : readKey (c == '.') rest with
    | none =>
      rw [hread] at ih
      exact ih.append [c]
    | some r =>
      rw [hread] at ih
      exact List.forall_mem_cons.mpr ⟨hc, ih⟩
  | case3 opening c rest hc hquote hread =>
    rw [Bool.and_eq_true] at hquote
    exact neverCloses_of_readQuoted hquote.1 hread
  | case4 opening c rest hc hquote body rest' hread ih =>
    rw [Bool.and_eq_true] at hquote
    cases hmore : readKey false rest' with
    | none =>
      rw [hmore] at ih
      rw [append_of_readQuoted hread]
      have := ih.append (c :: (body ++ [c]))
      simpa using this
    | some r =>
      rw [hmore] at ih
      exact List.forall_mem_cons.mpr ⟨⟨hquote.1, _, quotes_of_readQuoted hread⟩, ih⟩
  | case5 => simp

theorem isSound_keyLexeme {parts : List KeyPart} (h : ∀ part ∈ parts, part.IsWellFormed)
    (rest : List Char) : (Piece.token (keyLexeme parts)).IsSound rest := by
  unfold keyLexeme
  split
  · rename_i quote body
    obtain ⟨hquote, text, hquotes⟩ := h _ List.mem_cons_self
    exact isSound_quoted hquote (readQuoted_of_quotes (ne_escape_of_isQuote hquote) hquotes rest)
  · exact isSound_token rest ⟨parts, rfl, h, rfl⟩ nofun

theorem isSound_cutWord (cs : List Char) : (cutWord cs).1.IsSound (cutWord cs).2 := by
  have hkey := of_readKey true cs
  unfold cutWord
  split
  · rename_i h
    exact isSound_token _ (isKeyword_of_keyword? h) nofun
  · split
    · rename_i hread
      rw [hread] at hkey
      exact ⟨hkey, rfl⟩
    · rename_i hread
      rw [hread] at hkey
      exact isSound_keyLexeme hkey _

/-- Every piece is what its kind says. -/
theorem isSound_nextPiece (expectsValue : Bool) (c : Char) (rest : List Char) :
    (nextPiece expectsValue c rest).1.IsSound (nextPiece expectsValue c rest).2 := by
  unfold nextPiece
  split
  · rename_i hblank
    exact hblank
  rename_i hblank
  split
  · rename_i hvalue
    split
    · rename_i hquote
      exact isSound_cutQuotedValue hquote rest
    · refine isSound_cutBareValue ?_ rest
      simp only [Bool.and_eq_true, Bool.not_eq_true'] at hvalue
      rw [isBareChar, hvalue.2, Bool.eq_false_iff.mpr hblank]
      rfl
  split
  · rename_i hparen
    refine isSound_token _ ?_ nofun
    rcases hparen with rfl | rfl
    · exact .inl rfl
    · exact .inr rfl
  rename_i hparen
  split
  · rename_i hpipe
    rw [hpipe]
    exact isSound_token _ rfl nofun
  rename_i hpipe
  split
  · rename_i hcomma
    rw [hcomma]
    exact isSound_token _ rfl nofun
  rename_i hcomma
  split
  · rename_i hoperator
    exact isSound_cutOperator hoperator rest
  rename_i hoperator
  split
  · exact isSound_cutWord (c :: rest)
  · rename_i hword
    have hdelimiter : isDelimiter c = false := by
      simpa [isDelimiter, hpipe] using hparen
    simp only [Bool.or_eq_true, not_or, Bool.not_eq_true] at hword hblank hoperator
    show startsNothing c = true
    simp [startsNothing, hblank, hdelimiter, hcomma, hoperator, hword]

/-! ## Texts -/

/-- The tokens and the faults of the pieces of a text account for it. -/
theorem account_pieces (before : List Char) (expectsValue : Bool) (cs : List Char) :
    Account before cs ((Piece.locate (.ofText before) (pieces expectsValue cs)).filterMap Piece.token?)
      (((Piece.locate (.ofText before) (pieces expectsValue cs)).filterMap Piece.fault?).map
        LexicalFault.report) := by
  fun_induction pieces expectsValue cs generalizing before with
  | case1 => exact .nothing
  | case2 expectsValue c rest cut ih =>
    have hsound : cut.1.IsSound cut.2 := isSound_nextPiece expectsValue c rest
    have hsource : cut.1.source ++ cut.2 = c :: rest := source_nextPiece expectsValue c rest
    have hne : cut.1.source ≠ [] := source_ne_nil_of_nextPiece expectsValue c rest
    have hrest := ih (before ++ cut.1.source)
    rw [← Position.after_ofText] at hrest
    rw [← hsource]
    obtain ⟨piece, rest'⟩ := cut
    cases piece with
    | blank d => exact .blank hsound hrest
    | token l => exact .token hne (hsound _) rfl hrest
    | stray d => exact .stray hsound rfl rfl hrest
    | unclosed source =>
      obtain ⟨hnever, rfl⟩ := hsound
      rw [pieces, List.append_nil]
      exact .unclosed hnever rfl rfl

/-- The tokens and the reported faults of a text account for all of it. -/
theorem account_tokenize (query : String) :
    Account [] query.toList (tokenize query).tokens (tokenize query).reports :=
  account_pieces [] false query.toList

end LogQuery
