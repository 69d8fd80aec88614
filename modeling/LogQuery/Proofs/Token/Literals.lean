import LogQuery.Proofs.Token.PrintedField

/-!
# Quoted values on their own and behind operators

A quoted value is read in two ways. Where a value is expected it is cut off at its closing quote;
anywhere else it is read like a key, as a quoted segment that nothing follows. Both close it at the
first quote that is not escaped, whichever quotes, backslashes and newlines stand before that.

* `readQuoted_eq_some_iff`, `readQuoted_eq_none_iff`: where a quoted text closes, in terms of the
  text alone;
* `nextPiece_closed`, `nextPiece_unclosed`: the first piece of a text that starts with a quote,
  whether or not a value is expected;
* `tokenize_quoted`: the tokens and faults of such a text on its own and behind an operator.
-/

namespace LogQuery

open Text

/-! ## Escaped characters -/

/-- Is a character right behind `before` escaped? It is if `before` ends in a backslash that is not
escaped itself. -/
def isEscapedBehind (before : List Char) : Bool :=
  before.foldl (fun escaped c => c == '\\' && !escaped) false

/-- Every occurrence of the character is escaped. -/
def AllEscaped (quote : Char) (cs : List Char) : Prop :=
  ∀ before after, cs = before ++ quote :: after → isEscapedBehind before = true

/-- Behind `body` stands the first occurrence of the quote that is not escaped. -/
structure Closes (quote : Char) (cs body rest : List Char) : Prop where
  split : cs = body ++ quote :: rest
  unescaped : isEscapedBehind body = false
  first : AllEscaped quote body

theorem isEscapedBehind_pair (c : Char) (before : List Char) :
    isEscapedBehind ('\\' :: c :: before) = isEscapedBehind before := by
  simp [isEscapedBehind]

theorem isEscapedBehind_cons {c : Char} (h : c ≠ '\\') (before : List Char) :
    isEscapedBehind (c :: before) = isEscapedBehind before := by
  simp [isEscapedBehind, beq_false_of_ne h]

section

variable {quote : Char} {cs body rest : List Char}

theorem allEscaped_nil (quote : Char) : AllEscaped quote [] := by
  intro before after h
  simp at h

/-- A character behind an escaping backslash closes nothing. -/
theorem AllEscaped.pair (h : AllEscaped quote cs) (hquote : quote ≠ '\\') (c : Char) :
    AllEscaped quote ('\\' :: c :: cs) := by
  intro before after heq
  cases before with
  | nil => exact absurd (List.cons.inj heq).1.symm hquote
  | cons d before =>
    obtain ⟨rfl, htail⟩ := List.cons.inj heq
    cases before with
    | nil => rfl
    | cons e before =>
      rw [isEscapedBehind_pair]
      exact h before after (List.cons.inj htail).2

/-- Nor does a character that is neither a backslash nor the quote. -/
theorem AllEscaped.cons (h : AllEscaped quote cs) {c : Char} (hescape : c ≠ '\\')
    (hquote : c ≠ quote) : AllEscaped quote (c :: cs) := by
  intro before after heq
  cases before with
  | nil => exact absurd (List.cons.inj heq).1 hquote
  | cons d before =>
    obtain ⟨rfl, htail⟩ := List.cons.inj heq
    rw [isEscapedBehind_cons hescape]
    exact h before after htail

theorem Closes.pair (h : Closes quote cs body rest) (hquote : quote ≠ '\\') (c : Char) :
    Closes quote ('\\' :: c :: cs) ('\\' :: c :: body) rest :=
  ⟨by rw [h.split]; rfl, (isEscapedBehind_pair c body).trans h.unescaped, h.first.pair hquote c⟩

theorem Closes.cons (h : Closes quote cs body rest) {c : Char} (hescape : c ≠ '\\')
    (hquote : c ≠ quote) : Closes quote (c :: cs) (c :: body) rest :=
  ⟨by rw [h.split]; rfl, (isEscapedBehind_cons hescape body).trans h.unescaped,
    h.first.cons hescape hquote⟩

/-- A text closes in one place at most. -/
theorem Closes.unique {body' rest' : List Char} (h : Closes quote cs body rest)
    (h' : Closes quote cs body' rest') : body = body' ∧ rest = rest' := by
  rcases List.append_eq_append_iff.mp (h.split.symm.trans h'.split) with
    ⟨more, hbody, hrest⟩ | ⟨more, hbody, hrest⟩
  · cases more with
    | nil =>
      rw [List.append_nil] at hbody
      exact ⟨hbody.symm, (List.cons.inj hrest).2⟩
    | cons c more =>
      obtain ⟨rfl, -⟩ := List.cons.inj hrest
      have hescaped := h'.first body more hbody
      rw [h.unescaped] at hescaped
      cases hescaped
  · cases more with
    | nil =>
      rw [List.append_nil] at hbody
      exact ⟨hbody, (List.cons.inj hrest).2.symm⟩
    | cons c more =>
      obtain ⟨rfl, -⟩ := List.cons.inj hrest
      have hescaped := h.first body' more hbody
      rw [h'.unescaped] at hescaped
      cases hescaped

/-! ## Where a quoted text closes -/

/-- What is read closes at the first quote that is not escaped; if there is none, nothing is read. -/
theorem readQuoted_cases (hquote : quote ≠ '\\') (cs : List Char) :
    (readQuoted quote cs = none ∧ AllEscaped quote cs) ∨
      ∃ body rest, readQuoted quote cs = some (body, rest) ∧ Closes quote cs body rest := by
  fun_induction readQuoted quote cs with
  | case1 => exact .inl ⟨rfl, allEscaped_nil quote⟩
  | case2 =>
    refine .inl ⟨rfl, fun before after heq => ?_⟩
    cases before with
    | nil => exact absurd (List.cons.inj heq).1.symm hquote
    | cons d before => simp at heq
  | case3 c tail ih =>
    rcases ih with ⟨hread, hescaped⟩ | ⟨body, rest, hread, hcloses⟩
    · rw [hread]
      exact .inl ⟨rfl, hescaped.pair hquote c⟩
    · rw [hread]
      exact .inr ⟨_, _, rfl, hcloses.pair hquote c⟩
  | case4 tail => exact .inr ⟨[], tail, rfl, rfl, rfl, allEscaped_nil quote⟩
  | case5 c tail hlone hpair hne ih =>
    have hescape : c ≠ '\\' := by
      rintro rfl
      cases tail with
      | nil => exact hlone rfl rfl
      | cons d tail => exact hpair d tail rfl rfl
    rcases ih with ⟨hread, hescaped⟩ | ⟨body, rest, hread, hcloses⟩
    · rw [hread]
      exact .inl ⟨rfl, hescaped.cons hescape hne⟩
    · rw [hread]
      exact .inr ⟨_, _, rfl, hcloses.cons hescape hne⟩

/-- If every quote is escaped, the text closes nowhere. -/
theorem Closes.not_allEscaped (h : Closes quote cs body rest) : ¬ AllEscaped quote cs := by
  intro hall
  have hescaped := hall body rest h.split
  rw [h.unescaped] at hescaped
  cases hescaped

/-- A quoted text is read up to the first quote that is not escaped. -/
theorem readQuoted_eq_some_iff (hquote : quote ≠ '\\') :
    readQuoted quote cs = some (body, rest) ↔ Closes quote cs body rest := by
  obtain ⟨hread, hescaped⟩ | ⟨body', rest', hread, hcloses⟩ := readQuoted_cases hquote cs
  · simp only [hread, reduceCtorEq, false_iff]
    exact fun h => h.not_allEscaped hescaped
  · rw [hread, Option.some.injEq, Prod.mk.injEq]
    refine ⟨?_, fun h => hcloses.unique h⟩
    rintro ⟨rfl, rfl⟩
    exact hcloses

/-- A quoted text never closes exactly if every later quote is escaped. -/
theorem readQuoted_eq_none_iff (hquote : quote ≠ '\\') :
    readQuoted quote cs = none ↔ AllEscaped quote cs := by
  obtain ⟨hread, hescaped⟩ | ⟨body', rest', hread, hcloses⟩ := readQuoted_cases hquote cs
  · simp only [hread, hescaped]
  · simp only [hread, reduceCtorEq, false_iff]
    exact hcloses.not_allEscaped

end

/-! ## The first piece -/

section

variable {quote : Char} {cs : List Char}

theorem startsWord_of_isQuote (h : isQuote quote = true) : startsWord quote = true := by
  rw [startsWord, h, Bool.true_or]

/-- Where a value is expected, a quote opens a quoted value. -/
theorem nextPiece_value (h : isQuote quote = true) (cs : List Char) :
    nextPiece true quote cs = cutQuotedValue quote cs := by
  have hword := startsWord_of_isQuote h
  rw [nextPiece, isBlank_of_startsWord hword, isOperatorChar_of_startsWord hword,
    isDelimiter_of_startsWord hword, h]
  rfl

/-- A quoted segment opens a key, which goes on behind its closing quote. -/
theorem readKey_quote (h : isQuote quote = true) (cs : List Char) :
    readKey true (quote :: cs) =
      (readQuoted quote cs).bind fun r =>
        (readKey false r.2).map fun s => (.segment quote r.1 :: s.1, s.2) := by
  have hkey : ¬ isKeyChar quote = true :=
    Bool.eq_false_iff.mp (class_apart isQuote_of_isKeyChar h)
  rw [readKey, if_neg hkey, h, Bool.and_true, if_pos rfl]
  split
  · rename_i hread
    rw [hread]
    rfl
  · rename_i hread
    rw [hread]
    rfl

/-- Where no segment may start, a key ends before anything but a key character. -/
theorem readKey_ends {rest : List Char} (h : ∀ c ∈ rest.head?, isKeyChar c = false) :
    readKey false rest = some ([], rest) := by
  cases rest with
  | nil => rw [readKey]
  | cons c rest => simp [readKey, h c rfl]

/-- A quoted text that closes before the end of the text, or before anything but a key character, is
a value whether or not one is expected. -/
theorem nextPiece_closed (before : Bool) (hquote : isQuote quote = true) {body rest : List Char}
    (hread : readQuoted quote cs = some (body, rest))
    (hrest : ∀ c ∈ rest.head?, isKeyChar c = false) :
    nextPiece before quote cs = (.token ⟨.value, quote :: body ++ [quote], true⟩, rest) := by
  cases before with
  | true => rw [nextPiece_value hquote, cutQuotedValue, hread]
  | false =>
    rw [nextPiece_word (startsWord_of_isQuote hquote), cutWord, keyword?_quote hquote,
      readKey_quote hquote, hread, Option.bind_some, readKey_ends hrest]
    rfl

/-- A quote that never closes takes up all of the text. -/
theorem nextPiece_unclosed (before : Bool) (hquote : isQuote quote = true)
    (hread : readQuoted quote cs = none) :
    nextPiece before quote cs = (.unclosed (quote :: cs), []) := by
  cases before with
  | true => rw [nextPiece_value hquote, cutQuotedValue, hread]
  | false =>
    rw [nextPiece_word (startsWord_of_isQuote hquote), cutWord, keyword?_quote hquote,
      readKey_quote hquote, hread]
    rfl

end

/-! ## Whole texts -/

/-- The pieces in front of a value that `x` is compared with. -/
def comparing : List Piece :=
  [.token ⟨.key, ['x'], false⟩, .blank ' ', .token ⟨.operator, ['='], false⟩, .blank ' ']

theorem pieces_comparing (cs : List Char) :
    pieces false ("x = ".toList ++ cs) = comparing ++ pieces true cs := by
  have hends : ∀ c ∈ (' ' :: '=' :: ' ' :: cs).head?, isKeyChar c = false := by
    rintro c ⟨⟩
    rfl
  have hkeyword : keyword? (['x'] ++ ' ' :: '=' :: ' ' :: cs) = none :=
    keyword?_of_run (List.forall_mem_singleton.mpr rfl)
      (.inr ⟨fun c hc => isAlphabetic_of_isKeyChar (hends c hc), rfl⟩)
  have hread : readKey true (['x'] ++ ' ' :: '=' :: ' ' :: cs) =
      some ([.plain 'x'], ' ' :: '=' :: ' ' :: cs) := by
    have hplain : ReadsParts true [.plain 'x'] false := readsParts_plain true rfl
    exact (hplain _).trans (by rw [readKey_ends hends]; rfl)
  have hkey : nextPiece false 'x' ([] ++ ' ' :: '=' :: ' ' :: cs) =
      (.token ⟨.key, ['x'], false⟩, ' ' :: '=' :: ' ' :: cs) := by
    rw [nextPiece_word (startsWord_of_isKeyChar rfl)]
    show cutWord (['x'] ++ ' ' :: '=' :: ' ' :: cs) = _
    rw [cutWord, hkeyword, hread]
    rfl
  have hblank : ∀ before rest, pieces before (' ' :: rest) = .blank ' ' :: pieces before rest :=
    fun before rest => by rw [pieces]; rfl
  have hoperator : pieces false ('=' :: ' ' :: cs) =
      .token ⟨.operator, ['='], false⟩ :: pieces true (' ' :: cs) := by rw [pieces]; rfl
  have hstart : "x = ".toList ++ cs = ['x'] ++ ' ' :: '=' :: ' ' :: cs := by simp
  rw [hstart, pieces_cons hkey]
  show _ :: pieces false (' ' :: '=' :: ' ' :: cs) = _
  rw [hblank, hoperator, hblank]
  rfl

/-- The tokens in front of the value. -/
def comparingTokens : List Token :=
  [⟨.key, "x", ⟨1, 1⟩, false⟩, ⟨.operator, "=", ⟨1, 3⟩, false⟩]

/-- A quoted text at the start of a query, where `quote` opens it, and the same text behind `x = `. If
the first later quote that is not escaped stands at the end of the text or before anything but a key
character, both are read as one value; if there is none, both are reported at the opening quote, and
nothing else is read of them. -/
theorem tokenize_quoted {text : String} {quote : Char} {cs : List Char}
    (htext : text.toList = quote :: cs) (hquote : isQuote quote = true) :
    (∀ body rest, Closes quote cs body rest → (∀ c ∈ rest.head?, isKeyChar c = false) →
      (tokenize text).tokens[0]? =
        some ⟨.value, String.ofList (unescape body), ⟨1, 1⟩, true⟩ ∧
      (tokenize ("x = " ++ text)).tokens[2]? =
        some ⟨.value, String.ofList (unescape body), ⟨1, 5⟩, true⟩) ∧
    (AllEscaped quote cs →
      (tokenize text).tokens = [] ∧
      (tokenize text).reports = [⟨.unterminatedString, "Unterminated string", ⟨1, 1⟩⟩] ∧
      (tokenize ("x = " ++ text)).tokens = comparingTokens ∧
      (tokenize ("x = " ++ text)).reports =
        [⟨.unterminatedString, "Unterminated string", ⟨1, 5⟩⟩]) := by
  have hescape := ne_escape_of_isQuote hquote
  have halone : ∀ piece rest, nextPiece false quote cs = (piece, rest) →
      locatedPieces text =
        ⟨piece, ⟨1, 1⟩⟩ :: Piece.locate (Position.start.after piece.source)
          (pieces (piece.expectsValue false) rest) := by
    intro piece rest hpiece
    rw [locatedPieces, htext, pieces, hpiece]
    rfl
  have hbehind : ∀ piece rest, nextPiece true quote cs = (piece, rest) →
      locatedPieces ("x = " ++ text) =
        Piece.locate .start comparing ++ ⟨piece, ⟨1, 5⟩⟩ ::
          Piece.locate (Position.after ⟨1, 5⟩ piece.source)
            (pieces (piece.expectsValue true) rest) := by
    intro piece rest hpiece
    rw [locatedPieces, String.toList_append, htext, pieces_comparing, Piece.locate_append, pieces,
      hpiece]
    rfl
  constructor
  · intro body rest hcloses hrest
    have hread := (readQuoted_eq_some_iff hescape).mpr hcloses
    have htokenText : Lexeme.text ⟨.value, quote :: body ++ [quote], true⟩ =
        String.ofList (unescape body) := by
      show String.ofList (unescape (body ++ [quote]).dropLast) = _
      rw [List.dropLast_concat]
    rw [tokenize, tokenize, halone _ _ (nextPiece_closed false hquote hread hrest),
      hbehind _ _ (nextPiece_closed true hquote hread hrest), ← htokenText]
    exact ⟨rfl, rfl⟩
  · intro hescaped
    have hread := (readQuoted_eq_none_iff hescape).mpr hescaped
    have hend : ∀ before, pieces before [] = [] := fun before => by rw [pieces]
    rw [Tokenization.reports, Tokenization.reports, tokenize, tokenize,
      halone _ _ (nextPiece_unclosed false hquote hread),
      hbehind _ _ (nextPiece_unclosed true hquote hread), hend, hend]
    exact ⟨rfl, rfl, rfl, rfl⟩

/-- A value with an escaped quote, a newline, the other quote and, last, an escaped backslash; and one
whose only later quote is escaped. -/
theorem tokenize_quoted_mixed :
    let closed := "'a\\'\n\"b\\\\'=1"
    let unclosed := "\"a\\\"b' = 'c"
    Closes '\'' ("a\\'\n\"b\\\\'=1".toList) ("a\\'\n\"b\\\\".toList) ['=', '1'] ∧
    (tokenize closed).tokens[0]? = some ⟨.value, "a'\n\"b\\", ⟨1, 1⟩, true⟩ ∧
    (tokenize ("x = " ++ closed)).tokens[2]? = some ⟨.value, "a'\n\"b\\", ⟨1, 5⟩, true⟩ ∧
    AllEscaped '"' ("a\\\"b' = 'c".toList) ∧
    (tokenize unclosed).tokens = [] ∧
    (tokenize unclosed).reports = [⟨.unterminatedString, "Unterminated string", ⟨1, 1⟩⟩] ∧
    (tokenize ("x = " ++ unclosed)).tokens = comparingTokens ∧
    (tokenize ("x = " ++ unclosed)).reports =
      [⟨.unterminatedString, "Unterminated string", ⟨1, 5⟩⟩] := by
  intro closed unclosed
  have hcloses : Closes '\'' ("a\\'\n\"b\\\\'=1".toList) ("a\\'\n\"b\\\\".toList) ['=', '1'] :=
    (readQuoted_eq_some_iff (by decide)).mp (by decide +kernel)
  have hescaped : AllEscaped '"' ("a\\\"b' = 'c".toList) :=
    (readQuoted_eq_none_iff (by decide)).mp (by decide +kernel)
  have htext : closed.toList = '\'' :: "a\\'\n\"b\\\\'=1".toList := by decide +kernel
  have htext' : unclosed.toList = '"' :: "a\\\"b' = 'c".toList := by decide +kernel
  obtain ⟨hfirst, hthird⟩ :=
    (tokenize_quoted htext rfl).1 _ _ hcloses (by rintro c ⟨⟩; rfl)
  have hvalue : String.ofList (unescape "a\\'\n\"b\\\\".toList) = "a'\n\"b\\" := by decide +kernel
  rw [hvalue] at hfirst hthird
  exact ⟨hcloses, hfirst, hthird, hescaped, (tokenize_quoted htext' rfl).2 hescaped⟩

end LogQuery
