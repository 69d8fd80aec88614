import LogQuery.Proofs.Query.Selection
import LogQuery.Proofs.Token.Respacing

/-!
# Texts of several lines

A text is cut line by line: what stands before a blank is cut as if the text ended there, as long as
no quote is left open, and what stands after it as if the text started there, as long as no operator
waits for its value. All that the first lines leave behind is how many they are.

* `readKey_append`, `nextPiece_append`: a piece ends at a blank as it does at the end of the text;
* `pieces_append`: the pieces before a blank, and the bit that they hand on (`Piece.awaits`);
* `locate_down`: the places of a text that starts some lines further down;
* `tokenize_append_newline`: two texts with a newline between them.
-/

namespace LogQuery

open Text

/-! ## Moving down -/

/-- The place `n` lines further down. -/
def Position.down (n : Nat) (p : Position) : Position := ⟨p.line + n, p.column⟩

def Located.down {α : Type} (n : Nat) (l : Located α) : Located α := ⟨l.value, l.position.down n⟩

def Token.down (n : Nat) (t : Token) : Token := { t with position := t.position.down n }

def Report.down {κ : Type} (n : Nat) (r : Report κ) : Report κ :=
  { r with position := r.position.down n }

theorem Position.after_down (n : Nat) (p : Position) (cs : List Char) :
    (p.down n).after cs = (p.after cs).down n := by
  have hnext : ∀ (p : Position) (c : Char), (p.down n).next c = (p.next c).down n := by
    intro p c
    unfold next down
    split
    · rw [Nat.add_right_comm]
    · rfl
  induction cs generalizing p with
  | nil => rfl
  | cons c cs ih => rw [after_cons, after_cons, hnext, ih]

namespace Piece

theorem locate_down (n : Nat) (p : Position) (ps : List Piece) :
    locate (p.down n) ps = (locate p ps).map (Located.down n) := by
  induction ps generalizing p with
  | nil => rfl
  | cons piece ps ih =>
    rw [locate, locate, List.map_cons, Position.after_down, ih]
    rfl

theorem token?_down (n : Nat) (l : Located Piece) :
    token? (l.down n) = (token? l).map (Token.down n) := by
  obtain ⟨piece, p⟩ := l
  cases piece <;> rfl

theorem fault?_down (n : Nat) (l : Located Piece) :
    fault? (l.down n) = (fault? l).map (Located.down n) := by
  obtain ⟨piece, p⟩ := l
  cases piece <;> rfl

/-- The tokens of pieces further down. -/
theorem filterMap_token?_down (n : Nat) (ls : List (Located Piece)) :
    (ls.map (Located.down n)).filterMap token? = (ls.filterMap token?).map (Token.down n) := by
  rw [List.filterMap_map, List.map_filterMap]
  exact congrArg (List.filterMap · ls) (funext (token?_down n))

/-- The faults of pieces further down. -/
theorem filterMap_fault?_down (n : Nat) (ls : List (Located Piece)) :
    (ls.map (Located.down n)).filterMap fault? = (ls.filterMap fault?).map (Located.down n) := by
  rw [List.filterMap_map, List.map_filterMap]
  exact congrArg (List.filterMap · ls) (funext (fault?_down n))

end Piece

/-! ## A blank ends a piece -/

/-- The text is at its end, or goes on with a blank. -/
def StartsBlank (cs : List Char) : Prop := ∀ c ∈ cs.head?, isBlank c = true

theorem isQuote_of_isBlank {c : Char} (h : isBlank c = true) : isQuote c = false :=
  class_apart (fun hquote => isBlank_of_startsWord (Bool.or_eq_true_iff.mpr (.inl hquote))) h

theorem isBareChar_of_isBlank {c : Char} (h : isBlank c = true) : isBareChar c = false := by
  rw [isBareChar, h]
  rfl

/-- What follows a text that was cut off, once more text is there. -/
theorem head?_append {p : Char → Prop} {cs tail : List Char} (hcs : ∀ c ∈ cs.head?, p c)
    (htail : ∀ c ∈ tail.head?, p c) : ∀ c ∈ (cs ++ tail).head?, p c := by
  cases cs with
  | nil => exact htail
  | cons c cs => exact hcs

section

variable {tail : List Char}

theorem cutOperator_append (htail : StartsBlank tail) (c : Char) (rest : List Char) :
    cutOperator c (rest ++ tail) =
      ((cutOperator c rest).1, (cutOperator c rest).2 ++ tail) := by
  cases rest with
  | cons d rest =>
    unfold cutOperator
    split <;> simp_all
  | nil =>
    -- no operator goes on with a blank
    have hnext : ∀ d ∈ tail.head?, d ≠ '=' ∧ d ≠ '~' := fun d hd =>
      ⟨ne_of_class (htail d hd) rfl, ne_of_class (htail d hd) rfl⟩
    cases tail with
    | nil => simp [cutOperator]
    | cons d tail => simp [cutOperator, hnext d rfl]

theorem readQuoted_append {quote : Char} (hquote : isQuote quote = true) {cs body rest : List Char}
    (h : readQuoted quote cs = some (body, rest)) (tail : List Char) :
    readQuoted quote (cs ++ tail) = some (body, rest ++ tail) := by
  rw [append_of_readQuoted h, List.append_assoc, List.cons_append]
  exact readQuoted_of_quotes (ne_escape_of_isQuote hquote) (quotes_of_readQuoted h) (rest ++ tail)

/-- A key ends at a blank as it does at the end of the text. -/
theorem readKey_append (htail : StartsBlank tail) {opening : Bool} {cs rest : List Char}
    {parts : List KeyPart} (h : readKey opening cs = some (parts, rest)) :
    readKey opening (cs ++ tail) = some (parts, rest ++ tail) := by
  fun_induction readKey opening cs generalizing parts rest with
  | case1 opening =>
    cases h
    cases tail with
    | nil => rw [List.append_nil, readKey]
    | cons c tail =>
      rw [List.nil_append, readKey, isKeyChar_of_isBlank (htail c rfl),
        isQuote_of_isBlank (htail c rfl)]
      rfl
  | case2 opening c cs hc ih =>
    obtain ⟨r, hread, heq⟩ := Option.map_eq_some_iff.mp h
    cases heq
    rw [List.cons_append, readKey, if_pos hc, ih hread]
    rfl
  | case3 => cases h
  | case4 opening c cs hc hquote body cs' hbody ih =>
    obtain ⟨r, hread, heq⟩ := Option.map_eq_some_iff.mp h
    cases heq
    have hbody' := readQuoted_append (Bool.and_eq_true_iff.mp hquote).1 hbody tail
    rw [List.cons_append, readKey, if_neg hc, if_pos hquote]
    split
    · rename_i hnone
      rw [hbody'] at hnone
      cases hnone
    · rename_i hsome
      rw [hbody'] at hsome
      cases hsome
      rw [ih hread]
      rfl
  | case5 opening c cs hc hquote =>
    cases h
    rw [List.cons_append, readKey, if_neg hc, if_neg hquote]

/-- A keyword stays one before a blank, and nothing else becomes one. -/
theorem keyword?_append_blank (htail : StartsBlank tail) (cs : List Char) :
    keyword? (cs ++ tail) = (keyword? cs).map fun r => (r.1, r.2 ++ tail) := by
  have hkey : ∀ c ∈ tail.head?, isKeyChar c = false := fun c hc => isKeyChar_of_isBlank (htail c hc)
  cases hkeyword : keyword? cs with
  | none => exact (keyword?_append_eq_none_iff hkey).mpr hkeyword
  | some r =>
    obtain ⟨word, rest⟩ := r
    have hword := isKeyword_of_keyword? hkeyword
    have hrest := head?_append (isKeyChar_of_keyword? hkeyword) hkey
    rw [← append_of_keyword? hkeyword, List.append_assoc]
    exact keyword?_append (List.all_eq_true.mpr (isAlphabetic_of_isKeyword hword)) hword hrest

/-- The piece is not one that a quote leaves open. -/
def Piece.IsClosed (piece : Piece) : Prop := ∀ source, piece ≠ .unclosed source

theorem cutQuotedValue_append {quote : Char} (hquote : isQuote quote = true) {rest : List Char}
    (h : (cutQuotedValue quote rest).1.IsClosed) (tail : List Char) :
    cutQuotedValue quote (rest ++ tail) =
      ((cutQuotedValue quote rest).1, (cutQuotedValue quote rest).2 ++ tail) := by
  unfold cutQuotedValue at h ⊢
  cases hread : readQuoted quote rest with
  | none =>
    rw [hread] at h
    exact absurd rfl (h _)
  | some r => rw [readQuoted_append hquote hread tail]

theorem cutBareValue_append (htail : StartsBlank tail) (c : Char) (rest : List Char) :
    cutBareValue c (rest ++ tail) = ((cutBareValue c rest).1, (cutBareValue c rest).2 ++ tail) := by
  have hrest : ∀ d ∈ (rest.dropWhile isBareChar ++ tail).head?, isBareChar d = false :=
    head?_append (head?_dropWhile isBareChar rest) fun d hd => isBareChar_of_isBlank (htail d hd)
  have hrun : ∀ d ∈ rest.takeWhile isBareChar, isBareChar d = true :=
    List.all_eq_true.mp List.all_takeWhile
  have hcut := takeWhile_run hrun hrest
  rw [← List.append_assoc, List.takeWhile_append_dropWhile] at hcut
  rw [cutBareValue, hcut.1, hcut.2]
  rfl

theorem cutWord_append (htail : StartsBlank tail) {cs : List Char} (h : (cutWord cs).1.IsClosed) :
    cutWord (cs ++ tail) = ((cutWord cs).1, (cutWord cs).2 ++ tail) := by
  unfold cutWord at h ⊢
  rw [keyword?_append_blank htail]
  cases hkeyword : keyword? cs with
  | some r => rfl
  | none =>
    rw [hkeyword] at h
    cases hread : readKey true cs with
    | none =>
      rw [hread] at h
      exact absurd rfl (h _)
    | some r =>
      dsimp only [Option.map_none]
      rw [readKey_append htail hread]

/-- A piece that is closed is cut the same way before a blank. -/
theorem nextPiece_append (htail : StartsBlank tail) {before : Bool} {c : Char} {rest : List Char}
    (h : (nextPiece before c rest).1.IsClosed) :
    nextPiece before c (rest ++ tail) =
      ((nextPiece before c rest).1, (nextPiece before c rest).2 ++ tail) := by
  unfold nextPiece at h ⊢
  split
  · rfl
  rename_i hblank
  rw [if_neg hblank] at h
  split
  · rename_i hvalue
    rw [if_pos hvalue] at h
    split
    · rename_i hquote
      rw [if_pos hquote] at h
      exact cutQuotedValue_append hquote h tail
    · exact cutBareValue_append htail c rest
  rename_i hvalue
  rw [if_neg hvalue] at h
  split
  · rfl
  rename_i hparen
  rw [if_neg hparen] at h
  split
  · rfl
  rename_i hpipe
  rw [if_neg hpipe] at h
  split
  · rfl
  rename_i hcomma
  rw [if_neg hcomma] at h
  split
  · exact cutOperator_append htail c rest
  rename_i hoperator
  rw [if_neg hoperator] at h
  split
  · rename_i hword
    rw [if_pos hword] at h
    rw [← List.cons_append, cutWord_append htail h]
  · rfl

end

/-! ## The pieces of two texts -/

/-- Is a value expected after the pieces, if `before` says whether one was expected before them? -/
def Piece.awaits (before : Bool) (ps : List Piece) : Bool := ps.foldl Piece.expectsValue before

/-- The text before a blank is cut on its own, and hands on no more than whether a value is
expected. -/
theorem pieces_append {tail : List Char} (htail : StartsBlank tail) {before : Bool} {cs : List Char}
    (h : ∀ piece ∈ pieces before cs, piece.IsClosed) :
    pieces before (cs ++ tail) =
      pieces before cs ++ pieces (Piece.awaits before (pieces before cs)) tail := by
  fun_induction pieces before cs with
  | case1 before => rfl
  | case2 before c rest cut ih =>
    obtain ⟨hpiece, hrest⟩ := List.forall_mem_cons.mp h
    have hcut : nextPiece before c (rest ++ tail) = (cut.1, cut.2 ++ tail) :=
      nextPiece_append htail hpiece
    rw [List.cons_append, pieces, hcut]
    dsimp only
    rw [ih hrest]
    rfl

/-- A value is expected exactly if the last token is an operator. -/
theorem Piece.awaits_eq (before : Bool) (p : Position) (ps : List Piece) :
    awaits before ps =
      match (tokensAt p ps).getLast? with
      | none => before
      | some t => decide (t.kind = .operator) := by
  induction ps generalizing before p with
  | nil => rfl
  | cons piece ps ih =>
    have hrest := ih (piece.expectsValue before) (p.after piece.source)
    cases piece with
    | token l =>
      have htokens : tokensAt p (token l :: ps) =
          l.tokenAt p :: tokensAt (p.after (token l).source) ps := rfl
      rw [htokens, List.getLast?_cons]
      refine hrest.trans ?_
      cases (tokensAt (p.after (token l).source) ps).getLast? <;> rfl
    | blank c => exact hrest
    | stray c => exact hrest
    | unclosed source => exact hrest

/-- A text in which no unterminated quote is reported has closed pieces only. -/
theorem Piece.isClosed_of_faults {p : Position} {ps : List Piece}
    (h : ∀ f ∈ (locate p ps).filterMap fault?, f.value ≠ .unterminated) :
    ∀ piece ∈ ps, piece.IsClosed := by
  induction ps generalizing p with
  | nil => simp
  | cons piece ps ih =>
    rw [locate, List.filterMap_cons] at h
    refine List.forall_mem_cons.mpr ⟨?_, ?_⟩
    · rintro source rfl
      exact h _ List.mem_cons_self rfl
    · cases piece with
      | blank c => exact ih h
      | token l => exact ih h
      | stray c => exact ih fun f hf => h f (List.mem_cons_of_mem _ hf)
      | unclosed source => exact ih fun f hf => h f (List.mem_cons_of_mem _ hf)

/-! ## Lines -/

/-- The pieces of two texts with a newline between them. -/
theorem locatedPieces_append_newline {first : String} (second : String)
    (hclosed : ∀ piece ∈ pieces false first.toList, piece.IsClosed)
    (hvalue : Piece.awaits false (pieces false first.toList) = false) :
    locatedPieces (first ++ "\n" ++ second) =
      locatedPieces first ++ ⟨.blank '\n', .ofText first.toList⟩ ::
        (locatedPieces second).map (Located.down (1 + first.toList.count '\n')) := by
  have htext : (first ++ "\n" ++ second).toList = first.toList ++ '\n' :: second.toList := by simp
  have hnewline : pieces false ('\n' :: second.toList) =
      .blank '\n' :: pieces false second.toList := by
    rw [pieces]
    rfl
  have hplace : Position.start.after ((pieces false first.toList).flatMap Piece.source) =
      .ofText first.toList := by
    rw [flatMap_source_pieces]
    exact Position.after_ofText [] first.toList
  have hnext : (Position.ofText first.toList).after ['\n'] =
      Position.start.down (1 + first.toList.count '\n') := by
    rw [Position.after_ofText]
    simp [Position.ofText, Position.down, Position.start, Nat.add_comm]
  rw [locatedPieces, htext, pieces_append (fun c hc => by cases hc; rfl) hclosed, hvalue, hnewline,
    Piece.locate_append, hplace, Piece.locate]
  show _ ++ _ :: Piece.locate ((Position.ofText first.toList).after ['\n']) _ = _
  rw [hnext, Piece.locate_down]
  rfl

/-- If no quote of the first text is left open and no operator ends it, a second text on the next
line is cut as it is on its own: the tokens and the faults of the two stand side by side, those of
the second one on lower lines and in the same columns. -/
theorem tokenize_append_newline (first second : String)
    (hclosed : ∀ r ∈ (tokenize first).reports, r.code ≠ .unterminatedString)
    (hvalue : ∀ t ∈ (tokenize first).tokens.getLast?, t.kind ≠ .operator) :
    let whole := tokenize (first ++ "\n" ++ second)
    let lines := 1 + first.toList.count '\n'
    whole.tokens = (tokenize first).tokens ++ (tokenize second).tokens.map (Token.down lines) ∧
      whole.reports =
        (tokenize first).reports ++ (tokenize second).reports.map (Report.down lines) := by
  intro whole lines
  have hpieces : ∀ piece ∈ pieces false first.toList, piece.IsClosed := by
    refine Piece.isClosed_of_faults (p := .start) fun f hf hunterminated => ?_
    refine hclosed (LexicalFault.report f) (List.mem_map_of_mem hf) ?_
    show f.value.code = _
    rw [hunterminated]
    rfl
  have hawaits : Piece.awaits false (pieces false first.toList) = false := by
    rw [Piece.awaits_eq false .start]
    split
    · rfl
    · rename_i t ht
      exact decide_eq_false (hvalue t ht)
  have hlocated : locatedPieces (first ++ "\n" ++ second) = _ :=
    locatedPieces_append_newline second hpieces hawaits
  constructor
  · show (locatedPieces (first ++ "\n" ++ second)).filterMap Piece.token? = _
    rw [hlocated, List.filterMap_append, List.filterMap_cons, Piece.filterMap_token?_down]
    rfl
  · show ((locatedPieces (first ++ "\n" ++ second)).filterMap Piece.fault?).map _ = _
    rw [hlocated, List.filterMap_append, List.filterMap_cons, Piece.filterMap_fault?_down,
      List.map_append]
    dsimp only [Piece.fault?]
    rw [Tokenization.reports, Tokenization.reports, List.map_map, List.map_map]
    rfl

/-- A quoted value over two lines and a stray character, and a quote on the third line that stays
open. -/
theorem tokenize_append_newline_quoted :
    let first := "a='x\ny' #"
    let second := "or b = 'z"
    (∀ r ∈ (tokenize first).reports, r.code ≠ .unterminatedString) ∧
      (∀ t ∈ (tokenize first).tokens.getLast?, t.kind ≠ .operator) ∧
      (tokenize (first ++ "\n" ++ second)).tokens =
        (tokenize first).tokens ++ (tokenize second).tokens.map (Token.down 2) ∧
      (tokenize (first ++ "\n" ++ second)).reports =
        (tokenize first).reports ++ (tokenize second).reports.map (Report.down 2) ∧
      (tokenize second).reports = [⟨.unterminatedString, "Unterminated string", ⟨1, 8⟩⟩] := by
  intro first second
  have hclosed : ∀ r ∈ (tokenize first).reports, r.code ≠ .unterminatedString := by decide +kernel
  have hvalue : ∀ t ∈ (tokenize first).tokens.getLast?, t.kind ≠ .operator := by decide +kernel
  have hlines : 1 + first.toList.count '\n' = 2 := by decide +kernel
  have hwhole := tokenize_append_newline first second hclosed hvalue
  dsimp only at hwhole
  rw [hlines] at hwhole
  obtain ⟨htokens, hreports⟩ := hwhole
  exact ⟨hclosed, hvalue, htokens, hreports, by decide +kernel⟩

end LogQuery
