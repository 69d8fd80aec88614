import LogQuery.Proofs.Token.PrintedField
import LogQuery.Proofs.Token.PrintedValue

/-!
# Tokens with blanks between them

The tokens of a text, written with one blank between any two, are cut into the same tokens again. A
token is cut by what comes before and after it: a value is expected right after an operator, a
keyword ends where no key character follows, and an operator may have one character or two. Each
token stands where it is cut the same way before a blank (`Piece.Recurs`):

* `readsParts_of_readKey`: a key is read again wherever it stands;
* `recurs_nextPiece`: every piece, by the kind of its first character;
* `readsAgain_tokensAt`: the tokens of a text, by the pieces that the text is cut into.
-/

namespace LogQuery

open Text

/-! ## Tokens as they are written -/

namespace Token

/-- What a token says, apart from its place. -/
def content (t : Token) : TokenKind × String × Bool := (t.kind, t.text, t.quoted)

/-- The token as it is written: a value that was in quotes is in double quotes, and all else is its
text. -/
def print (t : Token) : String :=
  if t.kind = .value ∧ t.quoted = true then (Literal.string t.text).print else t.text

/-- The tokens as they are written, with a blank between any two. -/
def spaced (ts : List Token) : String := String.intercalate " " (ts.map print)

theorem spaced_singleton (t : Token) : spaced [t] = t.print := String.intercalate_singleton

theorem toList_spaced_cons_cons (t u : Token) (ts : List Token) :
    (spaced (t :: u :: ts)).toList = t.print.toList ++ ' ' :: (spaced (u :: ts)).toList := by
  rw [spaced, spaced, List.map_cons, List.map_cons, String.intercalate_cons_cons]
  simp

end Token

/-- The token of a lexeme that starts at `p`. -/
def Lexeme.tokenAt (l : Lexeme) (p : Position) : Token := ⟨l.kind, l.text, p, l.quoted⟩

/-- A token, written before a blank in the same place, is cut again. -/
def Piece.Recurs (before : Bool) : Piece → Prop
  | token l => ∀ p, Reads before (l.tokenAt p).print.toList (l.kind = .operator) (· == ' ')
      (IsToken l.kind l.text l.quoted)
  | _ => True

/-- A token that is written as its text is cut again if the text is. -/
theorem recurs_of_text {before : Bool} {l : Lexeme} {text : List Char}
    (hvalue : ¬ (l.kind = .value ∧ l.quoted = true)) (htext : l.text = String.ofList text)
    (h : Reads before text (l.kind = .operator) (· == ' ') (IsToken l.kind l.text l.quoted)) :
    (Piece.token l).Recurs before := by
  intro p
  have hprint : (l.tokenAt p).print.toList = text := by
    show (if l.kind = .value ∧ l.quoted = true then _ else l.text).toList = _
    rw [if_neg hvalue, htext, String.toList_ofList]
  rw [hprint]
  exact h

/-! ## Operators and values -/

/-- An operator is cut off in the same way whether a value is expected or not. -/
theorem recurs_cutOperator {before : Bool} {c : Char} (hc : isOperatorChar c = true)
    (rest : List Char) : (cutOperator c rest).1.Recurs before := by
  unfold cutOperator
  split
  · exact recurs_of_text (by simp) rfl (reads_double rfl fun _ => rfl)
  · exact recurs_of_text (by simp) rfl (reads_double rfl fun _ => rfl)
  · exact recurs_of_text (by simp) rfl (reads_double rfl fun _ => rfl)
  · -- `==` is written as `=`
    exact recurs_of_text (by simp) rfl (reads_single (c := '=') rfl)
  · exact recurs_of_text (by simp) rfl (reads_double rfl fun _ => rfl)
  · exact recurs_of_text (by simp) (if_neg (by simp)) (reads_single hc)

/-- A quoted value where one is expected. -/
theorem recurs_cutQuotedValue (c : Char) (rest : List Char) :
    (cutQuotedValue c rest).1.Recurs true := by
  unfold cutQuotedValue
  split
  · trivial
  · intro p
    exact (reads_quoted _).restrict fun _ _ => rfl

theorem recurs_cutBareValue {c : Char} (hc : startsBare c = true) (rest : List Char) :
    (cutBareValue c rest).1.Recurs true := by
  refine recurs_of_text (by simp) rfl ?_
  refine (reads_bareChars hc (List.all_eq_true.mp List.all_takeWhile)).restrict fun d hd => ?_
  rw [beq_iff_eq.mp hd]
  decide

/-! ## Words -/

/-- What follows a key is no key character. -/
theorem isKeyChar_of_readKey {opening : Bool} {cs rest : List Char} {parts : List KeyPart}
    (h : readKey opening cs = some (parts, rest)) : ∀ c ∈ rest.head?, isKeyChar c = false := by
  fun_induction readKey opening cs generalizing parts rest with
  | case1 =>
    cases h
    simp
  | case2 opening c tail hc ih =>
    obtain ⟨r, hr, heq⟩ := Option.map_eq_some_iff.mp h
    cases heq
    exact ih hr
  | case3 => cases h
  | case4 opening c tail hc hquote body tail' hbody ih =>
    obtain ⟨r, hr, heq⟩ := Option.map_eq_some_iff.mp h
    cases heq
    exact ih hr
  | case5 opening c tail hc hquote =>
    cases h
    rintro d ⟨⟩
    exact Bool.eq_false_iff.mpr hc

/-- What follows a keyword is no key character. -/
theorem isKeyChar_of_keyword? {cs word rest : List Char} (h : keyword? cs = some (word, rest)) :
    ∀ c ∈ rest.head?, isKeyChar c = false := by
  unfold keyword? at h
  split at h
  · rename_i hkeyword
    cases h
    rw [Bool.and_eq_true, Bool.not_eq_true'] at hkeyword
    cases hrest : cs.dropWhile isAlphabetic with
    | nil => simp
    | cons c rest =>
      rw [hrest] at hkeyword
      rintro d ⟨⟩
      exact hkeyword.2
  · cases h

/-- A key is read again wherever it stands. -/
theorem readsParts_of_readKey {opening : Bool} {cs rest : List Char} {parts : List KeyPart}
    (h : readKey opening cs = some (parts, rest)) : ∃ next, ReadsParts opening parts next := by
  have hnil : ∀ opening, ReadsParts opening [] opening := fun opening rest => by simp
  fun_induction readKey opening cs generalizing parts rest with
  | case1 =>
    cases h
    exact ⟨_, hnil _⟩
  | case2 opening c tail hc ih =>
    obtain ⟨⟨parts, rest⟩, hread, heq⟩ := Option.map_eq_some_iff.mp h
    cases heq
    obtain ⟨next, hparts⟩ := ih hread
    exact ⟨next, (readsParts_plain opening hc).append hparts⟩
  | case3 => cases h
  | case4 opening c tail hc hquote body tail' hbody ih =>
    obtain ⟨⟨parts, rest⟩, hread, heq⟩ := Option.map_eq_some_iff.mp h
    cases heq
    obtain ⟨hisQuote, rfl⟩ := Bool.and_eq_true_iff.mp hquote
    obtain ⟨next, hparts⟩ := ih hread
    exact ⟨next, (readsParts_quoted hisQuote (quotes_of_readQuoted hbody)).append hparts⟩
  | case5 =>
    cases h
    exact ⟨_, hnil _⟩

/-- Whether a text starts with a keyword does not rest on what follows it, if that is no key
character. -/
theorem keyword?_append_eq_none_iff {cs rest : List Char}
    (hrest : ∀ c ∈ rest.head?, isKeyChar c = false) :
    keyword? (cs ++ rest) = none ↔ keyword? cs = none := by
  have hsame : (cs ++ rest).takeWhile isAlphabetic = cs.takeWhile isAlphabetic ∧
      startsKey ((cs ++ rest).dropWhile isAlphabetic) = startsKey (cs.dropWhile isAlphabetic) := by
    induction cs with
    | nil =>
      cases rest with
      | nil => exact ⟨rfl, rfl⟩
      | cons c rest =>
        have hc : ¬ isAlphabetic c = true :=
          Bool.eq_false_iff.mp (isAlphabetic_of_isKeyChar (hrest c rfl))
        rw [List.nil_append, List.takeWhile_cons_of_neg hc, List.dropWhile_cons_of_neg hc]
        exact ⟨rfl, hrest c rfl⟩
    | cons c cs ih =>
      rw [List.cons_append]
      by_cases hc : isAlphabetic c = true
      · rw [List.takeWhile_cons_of_pos hc, List.takeWhile_cons_of_pos hc,
          List.dropWhile_cons_of_pos hc, List.dropWhile_cons_of_pos hc, ih.1]
        exact ⟨rfl, ih.2⟩
      · rw [List.takeWhile_cons_of_neg hc, List.takeWhile_cons_of_neg hc,
          List.dropWhile_cons_of_neg hc, List.dropWhile_cons_of_neg hc]
        exact ⟨rfl, rfl⟩
  rw [keyword?, keyword?, hsame.1, hsame.2]
  split <;> simp

/-- A quoted value where none is expected: a segment on its own. -/
theorem reads_quotedWord (s : String) :
    Reads false (Literal.string s).print.toList false endsField (IsToken .value s true) := by
  have hquotes := quotes_of_readQuoted (readQuoted_escape s.toList [])
  have hread : Reads false ([KeyPart.segment '"' (escape s.toList)].flatMap KeyPart.source) false
      endsField _ :=
    reads_parts ⟨_, _, rfl, rfl⟩ (readsParts_quoted rfl hquotes) fun rest _ => keyword?_quote rfl _
  have hsource : [KeyPart.segment '"' (escape s.toList)].flatMap KeyPart.source =
      (Literal.string s).print.toList := by
    simp [KeyPart.source, Literal.print]
  have htext : (keyLexeme [.segment '"' (escape s.toList)]).text = s := by
    show String.ofList (unescape (escape s.toList ++ ['"']).dropLast) = s
    rw [List.dropLast_concat, unescape_escape, String.ofList_toList]
  rw [hsource, htext] at hread
  exact hread

theorem endsField_of_blank {c : Char} (h : (c == ' ') = true) : endsField c = true := by
  rw [endsField, h, Bool.true_or]

/-- A key that is no keyword before what follows it is none before a blank either. -/
theorem recurs_keyLexeme {c : Char} (hc : startsWord c = true) {cs rest : List Char}
    {parts : List KeyPart} (hkeyword : keyword? (c :: cs) = none)
    (hread : readKey true (c :: cs) = some (parts, rest)) :
    (Piece.token (keyLexeme parts)).Recurs false := by
  obtain ⟨next, hparts⟩ := readsParts_of_readKey hread
  by_cases hsegment : ∃ quote body, parts = [.segment quote body]
  · obtain ⟨quote, body, rfl⟩ := hsegment
    intro p
    exact (reads_quotedWord _).restrict fun _ => endsField_of_blank
  · have hsource := source_of_readKey hread
    have hstarts : Starts startsWord (parts.flatMap KeyPart.source) := by
      cases hfirst : parts.flatMap KeyPart.source with
      | nil => exact absurd hfirst (flatMap_source_ne_nil (readKey_ne_nil hc hread))
      | cons d ds =>
        rw [hfirst] at hsource
        exact ⟨d, ds, rfl, (List.cons.inj hsource).1 ▸ hc⟩
    have hagain := reads_parts hstarts hparts fun rest' hrest' => by
      rw [keyword?_append_eq_none_iff fun d hd => isKeyChar_of_endsField (hrest' d hd),
        ← keyword?_append_eq_none_iff (isKeyChar_of_readKey hread), hsource]
      exact hkeyword
    rw [keyLexeme_eq_key fun quote body heq => hsegment ⟨quote, body, heq⟩] at hagain ⊢
    exact recurs_of_text (by simp) rfl (hagain.restrict fun _ => endsField_of_blank)

/-- A keyword, a key or a quoted value. -/
theorem recurs_cutWord {c : Char} (hc : startsWord c = true) (rest : List Char) :
    (cutWord (c :: rest)).1.Recurs false := by
  unfold cutWord
  split
  · rename_i word rest' hword
    unfold keyword? at hword
    split at hword
    · rename_i hkeyword
      cases hword
      rw [Bool.and_eq_true] at hkeyword
      exact recurs_of_text (by simp) rfl (reads_isKeyword List.all_takeWhile hkeyword.1)
    · cases hword
  · rename_i hkeyword
    split
    · trivial
    · rename_i parts rest' hread
      exact recurs_keyLexeme hc hkeyword hread

/-! ## Texts -/

/-- Every piece that is a token is cut again before a blank. -/
theorem recurs_nextPiece (before : Bool) (c : Char) (rest : List Char) :
    (nextPiece before c rest).1.Recurs before := by
  unfold nextPiece
  split
  · trivial
  rename_i hblank
  split
  · -- a value is expected, and no operator or delimiter stands there
    rename_i hvalue
    rw [Bool.and_eq_true, Bool.and_eq_true, Bool.not_eq_true', Bool.not_eq_true'] at hvalue
    obtain ⟨⟨rfl, hoperator⟩, hdelimiter⟩ := hvalue
    split
    · exact recurs_cutQuotedValue c rest
    · rename_i hquote
      refine recurs_cutBareValue ?_ rest
      rw [startsBare, isBareChar, Bool.eq_false_iff.mpr hblank, hdelimiter, hoperator,
        Bool.eq_false_iff.mpr hquote]
      rfl
  rename_i hvalue
  split
  · rename_i hparen
    refine recurs_of_text (by simp) rfl (reads_token fun rest' _ => ?_)
    rw [List.nil_append, nextPiece, if_neg hblank, if_neg hvalue, if_pos hparen]
  rename_i hparen
  split
  · rename_i hpipe
    refine recurs_of_text (by simp) rfl (reads_token fun rest' _ => ?_)
    rw [List.nil_append, nextPiece, if_neg hblank, if_neg hvalue, if_neg hparen, if_pos hpipe]
  rename_i hpipe
  split
  · rename_i hcomma
    refine recurs_of_text (by simp) rfl (reads_token fun rest' _ => ?_)
    rw [List.nil_append, nextPiece, if_neg hblank, if_neg hvalue, if_neg hparen, if_neg hpipe,
      if_pos hcomma]
  split
  · rename_i hoperator
    exact recurs_cutOperator hoperator rest
  split
  · rename_i hword
    -- where a value is expected, the character would have started one
    have hbefore : before = false := by
      rw [isOperatorChar_of_startsWord hword, isDelimiter_of_startsWord hword] at hvalue
      simpa using hvalue
    rw [hbefore]
    exact recurs_cutWord hword rest
  · trivial

/-- The text is cut without fault into tokens that say what `ts` say. -/
def ReadsAgain (before : Bool) (text : String) (after : Bool) (ts : List Token) : Prop :=
  Reads before text.toList after (· == ' ') fun us => us.map Token.content = ts.map Token.content

/-- A token and a blank in front of tokens that are cut again. -/
theorem readsAgain_cons {before mid after : Bool} {t : Token} {ts : List Token}
    (hfirst : Reads before t.print.toList mid (· == ' ') (IsToken t.kind t.text t.quoted))
    (hrest : ReadsAgain mid (Token.spaced ts) after ts) :
    ∃ after, ReadsAgain before (Token.spaced (t :: ts)) after (t :: ts) := by
  have hcontent : ∀ us, IsToken t.kind t.text t.quoted us → us.map Token.content = [t.content] := by
    rintro us ⟨u, rfl, hkind, htext, hquoted⟩
    rw [List.map_singleton, Token.content, hkind, htext, hquoted]
    rfl
  cases ts with
  | nil =>
    rw [Token.spaced_singleton]
    exact ⟨mid, hfirst.mono hcontent⟩
  | cons next ts =>
    refine ⟨after, ?_⟩
    rw [ReadsAgain, Token.toList_spaced_cons_cons]
    refine (hfirst.append_blank hrest rfl).mono ?_
    rintro _ ⟨us, vs, rfl, hus, hvs⟩
    rw [List.map_append, hcontent us hus, hvs]
    rfl

/-- The tokens of a text, with blanks between them, are cut again. -/
theorem readsAgain_tokensAt (before : Bool) (cs : List Char) (p : Position) :
    ∃ after, ReadsAgain before (Token.spaced (Piece.tokensAt p (pieces before cs))) after
      (Piece.tokensAt p (pieces before cs)) := by
  fun_induction pieces before cs generalizing p with
  | case1 before =>
    refine ⟨before, (reads_nil.restrict fun _ _ => rfl).mono ?_⟩
    rintro us rfl
    rfl
  | case2 before c rest cut ih =>
    have hrecurs : cut.1.Recurs before := recurs_nextPiece before c rest
    obtain ⟨after, hrest⟩ := ih (p.after cut.1.source)
    obtain ⟨piece, rest'⟩ := cut
    cases piece with
    | blank d => exact ⟨after, hrest⟩
    | token l => exact readsAgain_cons (hrecurs p) hrest
    | stray d => exact ⟨after, hrest⟩
    | unclosed source => exact ⟨after, hrest⟩

/-- The tokens of any text, written with one blank between any two, have no lexical fault and are the
same again but for their places. -/
theorem tokenize_spaced (text : String) :
    (tokenize (Token.spaced (tokenize text).tokens)).faults = [] ∧
      (tokenize (Token.spaced (tokenize text).tokens)).tokens.map Token.content =
        (tokenize text).tokens.map Token.content := by
  obtain ⟨after, h⟩ := readsAgain_tokensAt false text.toList .start
  exact tokenize_of_reads h

example : Token.spaced (tokenize "a=='it\"s'and(b.'c'!~,d)|e,f # g").tokens =
    "a = \"it\\\"s\" and ( b.'c' !~ ,d ) | e , f g" := by
  decide +kernel

end LogQuery
