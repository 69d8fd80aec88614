import LogQuery.Filter
import LogQuery.Proofs.Text.Classes
import LogQuery.Token.Tokenization

/-!
# The tokens of printed text

What is printed is cut into the tokens that it was printed for. `Reads before text after ends G`
says that `text`, where a value is expected if `before`, is cut into pieces without fault whose
tokens have the property `G`, wherever the text stands, as long as it ends or a character that
`ends` allows comes next; `after` says whether a value is expected then.

* `Reads.append`: texts side by side are cut one by one;
* `reads_token`: what one token is cut from;
* `reads_blank`, `reads_mark`, `reads_operator`, `reads_keyword`: what stands between fields and
  values;
* `tokenize_of_reads`: the tokens of a whole text.
-/

namespace LogQuery

open Text

/-! ## Texts that are cut without fault -/

namespace Piece

/-- A piece that is not at fault. -/
def isClean : Piece → Bool
  | blank _ => true
  | token _ => true
  | _ => false

/-- The tokens of pieces that start at `p`. -/
def tokensAt (p : Position) (ps : List Piece) : List Token := (locate p ps).filterMap token?

theorem locate_append (p : Position) (ps qs : List Piece) :
    locate p (ps ++ qs) = locate p ps ++ locate (p.after (ps.flatMap source)) qs := by
  induction ps generalizing p with
  | nil => rfl
  | cons piece ps ih =>
    rw [List.cons_append, locate, locate, ih, List.cons_append, List.flatMap_cons,
      Position.after_append]

theorem tokensAt_append (p : Position) (ps qs : List Piece) :
    tokensAt p (ps ++ qs) = tokensAt p ps ++ tokensAt (p.after (ps.flatMap source)) qs := by
  rw [tokensAt, locate_append, List.filterMap_append]
  rfl

theorem faults_of_clean {ps : List Piece} (h : ∀ piece ∈ ps, piece.isClean = true) (p : Position) :
    (locate p ps).filterMap fault? = [] := by
  induction ps generalizing p with
  | nil => rfl
  | cons piece ps ih =>
    have hpiece := h piece List.mem_cons_self
    have hrest := ih (fun other hmem => h other (List.mem_cons_of_mem _ hmem))
      (p.after piece.source)
    cases piece with
    | blank c => exact hrest
    | token l => exact hrest
    | stray c => cases hpiece
    | unclosed cs => cases hpiece

end Piece

/-- `text` is cut without fault into tokens with the property `G`, if the text ends or `ends` allows
what comes next. -/
def Reads (before : Bool) (text : List Char) (after : Bool) (ends : Char → Bool)
    (G : List Token → Prop) : Prop :=
  ∃ ps, (∀ piece ∈ ps, piece.isClean = true) ∧ (∀ p, G (Piece.tokensAt p ps)) ∧
    ∀ rest, (∀ c ∈ rest.head?, ends c = true) →
      pieces before (text ++ rest) = ps ++ pieces after rest

/-- The text starts with a character that `ends` allows. -/
def Starts (ends : Char → Bool) (text : List Char) : Prop :=
  ∃ c rest, text = c :: rest ∧ ends c = true

/-- Anything may come next. -/
def anything (_ : Char) : Bool := true

variable {before mid after : Bool} {ends ends' : Char → Bool} {text text' : List Char}
  {G H : List Token → Prop}

/-- A text that starts as `ends` allows may come next, whatever follows it. -/
theorem Starts.next (h : Starts ends text) (rest : List Char) :
    ∀ c ∈ (text ++ rest).head?, ends c = true := by
  obtain ⟨c, tail, rfl, hc⟩ := h
  intro d hd
  cases hd
  exact hc

theorem Reads.mono (h : Reads before text after ends G) (hG : ∀ ts, G ts → H ts) :
    Reads before text after ends H := by
  obtain ⟨ps, hclean, htokens, hpieces⟩ := h
  exact ⟨ps, hclean, fun p => hG _ (htokens p), hpieces⟩

theorem Reads.restrict (h : Reads before text after ends G)
    (hends : ∀ c, ends' c = true → ends c = true) : Reads before text after ends' G := by
  obtain ⟨ps, hclean, htokens, hpieces⟩ := h
  exact ⟨ps, hclean, htokens, fun rest hrest => hpieces rest fun c hc => hends c (hrest c hc)⟩

/-- Texts side by side are cut one by one. -/
theorem Reads.append (h : Reads before text mid ends G) (h' : Reads mid text' after ends' H)
    (hnext : ∀ rest, ∀ c ∈ (text' ++ rest).head?, ends c = true) :
    Reads before (text ++ text') after ends' fun ts => ∃ us vs, ts = us ++ vs ∧ G us ∧ H vs := by
  obtain ⟨ps, hclean, htokens, hpieces⟩ := h
  obtain ⟨qs, hclean', htokens', hpieces'⟩ := h'
  refine ⟨ps ++ qs, List.forall_mem_append.mpr ⟨hclean, hclean'⟩, fun p => ?_, fun rest hrest => ?_⟩
  · exact ⟨_, _, Piece.tokensAt_append p ps qs, htokens p, htokens' _⟩
  · rw [List.append_assoc, hpieces _ (hnext rest), hpieces' rest hrest, List.append_assoc]

/-- After a text that nothing can go on with, another is cut on its own. -/
theorem Reads.append_any (h : Reads before text mid anything G)
    (h' : Reads mid text' after ends' H) :
    Reads before (text ++ text') after ends' fun ts => ∃ us vs, ts = us ++ vs ∧ G us ∧ H vs :=
  h.append h' fun _ _ _ => rfl

/-- Nothing is cut from no text. -/
theorem reads_nil : Reads before [] before anything (· = []) :=
  ⟨[], by simp, fun _ => rfl, fun rest _ => by simp⟩

/-- What one piece is cut from. -/
theorem pieces_cons {c : Char} {cs rest : List Char} {piece : Piece}
    (h : nextPiece before c (cs ++ rest) = (piece, rest)) :
    pieces before (c :: cs ++ rest) = piece :: pieces (piece.expectsValue before) rest := by
  rw [List.cons_append, pieces, h]

theorem reads_blank : Reads before [' '] before anything (· = []) := by
  refine ⟨[.blank ' '], by simp [Piece.isClean], fun _ => rfl, fun rest _ => ?_⟩
  exact pieces_cons (by simp [nextPiece, show isBlank ' ' = true from rfl])

/-- Texts with a blank between them are cut one by one. -/
theorem Reads.append_blank (h : Reads before text mid ends G) (h' : Reads mid text' after ends' H)
    (hends : ends ' ' = true) :
    Reads before (text ++ ' ' :: text') after ends'
      fun ts => ∃ us vs, ts = us ++ vs ∧ G us ∧ H vs := by
  have hnext : Starts ends (' ' :: text') := ⟨' ', text', rfl, hends⟩
  refine (h.append (reads_blank.append_any h') hnext.next).mono ?_
  rintro ts ⟨us, ws, rfl, hus, _, vs, rfl, rfl, hvs⟩
  exact ⟨us, vs, rfl, hus, hvs⟩

/-- One token of the given kind, text and quoting. -/
def IsToken (kind : TokenKind) (text : String) (quoted : Bool) (ts : List Token) : Prop :=
  ∃ t, ts = [t] ∧ t.kind = kind ∧ t.text = text ∧ t.quoted = quoted

/-- A text that one token is cut from. -/
theorem reads_token {c : Char} {cs : List Char} {l : Lexeme}
    (h : ∀ rest, (∀ d ∈ rest.head?, ends d = true) →
      nextPiece before c (cs ++ rest) = (.token l, rest)) :
    Reads before (c :: cs) (l.kind = .operator) ends (IsToken l.kind l.text l.quoted) := by
  refine ⟨[.token l], by simp [Piece.isClean], fun p => ?_, fun rest hrest => ?_⟩
  · exact ⟨⟨l.kind, l.text, p, l.quoted⟩, rfl, rfl, rfl, rfl⟩
  · exact pieces_cons (h rest hrest)

/-! ## Marks, operators and keywords -/

/-- A mark of one character. -/
theorem reads_mark {c : Char} {kind : TokenKind}
    (h : (c, kind) ∈ [('(', TokenKind.paren), (')', .paren), ('|', .pipe), (',', .comma)]) :
    Reads false [c] false anything (IsToken kind (String.ofList [c]) false) := by
  simp only [List.mem_cons, Prod.mk.injEq, List.not_mem_nil, or_false] at h
  rcases h with ⟨rfl, rfl⟩ | ⟨rfl, rfl⟩ | ⟨rfl, rfl⟩ | ⟨rfl, rfl⟩
  · exact reads_token (l := ⟨.paren, ['('], false⟩) fun _ _ => rfl
  · exact reads_token (l := ⟨.paren, [')'], false⟩) fun _ _ => rfl
  · exact reads_token (l := ⟨.pipe, ['|'], false⟩) fun _ _ => rfl
  · exact reads_token (l := ⟨.comma, [','], false⟩) fun _ _ => rfl

/-- A blank, or the end of the text, ends an operator of one character. -/
theorem cutOperator_blank (c : Char) {rest : List Char} (h : ∀ d ∈ rest.head?, (d == ' ') = true) :
    cutOperator c rest = (.token ⟨.operator, [c], false⟩, rest) := by
  cases rest with
  | nil => simp [cutOperator]
  | cons d rest =>
    obtain rfl := beq_iff_eq.mp (h d rfl)
    simp [cutOperator]

/-- An operator is cut off wherever it stands, also where a value is expected. -/
theorem nextPiece_operator {c : Char} (h : isOperatorChar c = true) (rest : List Char) :
    nextPiece before c rest = cutOperator c rest := by
  simp only [isOperatorChar, Bool.or_eq_true, beq_iff_eq] at h
  cases before <;> rcases h with (((rfl | rfl) | rfl) | rfl) | rfl <;> rfl

/-- An operator of one character before a blank. -/
theorem reads_single {c : Char} (hc : isOperatorChar c = true) :
    Reads before [c] true (· == ' ')
      (IsToken .operator (Lexeme.text ⟨.operator, [c], false⟩) false) := by
  refine reads_token (l := ⟨.operator, [c], false⟩) fun rest hrest => ?_
  rw [List.nil_append, nextPiece_operator hc, cutOperator_blank c hrest]

/-- An operator of two characters. -/
theorem reads_double {c d : Char} (hc : isOperatorChar c = true)
    (hcut : ∀ rest, cutOperator c (d :: rest) = (.token ⟨.operator, [c, d], false⟩, rest)) :
    Reads before [c, d] true (· == ' ')
      (IsToken .operator (Lexeme.text ⟨.operator, [c, d], false⟩) false) := by
  refine reads_token (l := ⟨.operator, [c, d], false⟩) fun rest _ => ?_
  rw [List.singleton_append, nextPiece_operator hc, hcut]

/-- A comparison's symbol before a blank. -/
theorem reads_operator (comparison : Comparison) :
    Reads false comparison.symbol.toList true (· == ' ')
      (IsToken .operator comparison.symbol false) := by
  cases comparison with
  | equal => exact reads_single rfl
  | notEqual => exact reads_double rfl fun _ => rfl
  | contains => exact reads_single rfl
  | notContains => exact reads_double rfl fun _ => rfl
  | greater => exact reads_single rfl
  | less => exact reads_single rfl
  | greaterOrEqual => exact reads_double rfl fun _ => rfl
  | lessOrEqual => exact reads_double rfl fun _ => rfl

/-- Does `c` start a keyword, a key or a quoted name? -/
def startsWord (c : Char) : Bool := isQuote c || isKeyChar c

theorem startsWord_of_isKeyChar {c : Char} (h : isKeyChar c = true) : startsWord c = true := by
  rw [startsWord, h, Bool.or_true]

theorem isBlank_of_startsWord {c : Char} (h : startsWord c = true) : isBlank c = false := by
  rcases Bool.or_eq_true_iff.mp h with hc | hc
  · simp only [isQuote, Bool.or_eq_true, beq_iff_eq] at hc
    rcases hc with rfl | rfl <;> rfl
  · exact isBlank_of_isKeyChar hc

theorem isOperatorChar_of_startsWord {c : Char} (h : startsWord c = true) :
    isOperatorChar c = false := by
  refine Bool.eq_false_iff.mpr fun hc => ?_
  simp only [isOperatorChar, Bool.or_eq_true, beq_iff_eq] at hc
  rcases hc with (((rfl | rfl) | rfl) | rfl) | rfl <;> exact absurd h (by decide)

theorem isDelimiter_of_startsWord {c : Char} (h : startsWord c = true) : isDelimiter c = false := by
  refine Bool.eq_false_iff.mpr fun hc => ?_
  simp only [isDelimiter, Bool.or_eq_true, beq_iff_eq] at hc
  rcases hc with (rfl | rfl) | rfl <;> exact absurd h (by decide)

/-- A quote or a key character starts a word where no value is expected. -/
theorem nextPiece_word {c : Char} (h : startsWord c = true) (rest : List Char) :
    nextPiece false c rest = cutWord (c :: rest) := by
  have hdelimiter := isDelimiter_of_startsWord h
  simp only [isDelimiter, Bool.or_eq_false_iff, beq_eq_false_iff_ne] at hdelimiter
  obtain ⟨⟨hopening, hclosing⟩, hpipe⟩ := hdelimiter
  have hcomma : c ≠ ',' := ne_of_class h (by decide)
  rw [nextPiece, isBlank_of_startsWord h, isOperatorChar_of_startsWord h,
    if_neg (not_or.mpr ⟨hopening, hclosing⟩), if_neg hpipe, if_neg hcomma, ← startsWord, h]
  rfl

theorem keyword?_append {word rest : List Char} (hword : word.all isAlphabetic = true)
    (hkeyword : isKeyword word = true) (hrest : ∀ c ∈ rest.head?, isKeyChar c = false) :
    keyword? (word ++ rest) = some (word, rest) := by
  have halpha : ∀ c ∈ rest.head?, isAlphabetic c = false := fun c hc =>
    isAlphabetic_of_isKeyChar (hrest c hc)
  have hstarts : startsKey rest = false := by
    cases rest with
    | nil => rfl
    | cons c rest => exact hrest c rfl
  obtain ⟨htake, hdrop⟩ := takeWhile_run (List.all_eq_true.mp hword) halpha
  rw [keyword?, htake, hdrop, hkeyword, hstarts]
  rfl

/-- A keyword in any spelling, before a blank. -/
theorem reads_isKeyword {word : List Char} (hword : word.all isAlphabetic = true)
    (hkeyword : isKeyword word = true) :
    Reads false word false (· == ' ') (IsToken .bool (String.ofList word) false) := by
  cases word with
  | nil => exact absurd hkeyword (by decide)
  | cons c cs =>
    have hc : isKeyChar c = true := isKeyChar_of_isNameChar
      (isNameChar_of_isAlphabetic (List.all_eq_true.mp hword c List.mem_cons_self))
    refine reads_token (l := ⟨.bool, c :: cs, false⟩) fun rest hrest => ?_
    rw [nextPiece_word (startsWord_of_isKeyChar hc), ← List.cons_append, cutWord,
      keyword?_append hword hkeyword]
    intro d hd
    rw [beq_iff_eq.mp (hrest d hd)]
    rfl

/-- A keyword before a blank. -/
theorem reads_keyword (op : Connective) :
    Reads false op.keyword.toList false (· == ' ') (IsToken .bool op.keyword false) := by
  cases op with
  | and => exact reads_isKeyword (by decide) (by decide)
  | or => exact reads_isKeyword (by decide) (by decide)

/-! ## Whole texts -/

/-- A text that is cut without fault has the tokens that it is cut into, and no lexical fault. -/
theorem tokenize_of_reads {text : String} (h : Reads false text.toList after ends G) :
    (tokenize text).faults = [] ∧ G (tokenize text).tokens := by
  obtain ⟨ps, hclean, htokens, hpieces⟩ := h
  have hpieces := hpieces [] (by simp)
  rw [pieces, List.append_nil, List.append_nil] at hpieces
  rw [tokenize, locatedPieces, hpieces]
  exact ⟨Piece.faults_of_clean hclean .start, htokens .start⟩

end LogQuery
