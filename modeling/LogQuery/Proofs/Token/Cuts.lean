import LogQuery.Proofs.Token.Respacing

/-!
# Where a text is cut

The places of a text are ordered by line and column. A text is cut into pieces that start one behind
the other, and no cut parts two key characters: whatever a piece is, it ends where the next
character cannot belong to the same key or keyword.

* `Position.lt_after`: more text leads to a later place;
* `firstPiece_nextPiece`: what the first piece of a text can be, one case for each way to cut it;
* `isBreak_nextPiece`: no cut parts two key characters;
* `exists_cut_of_mem_locatedPieces`: each piece is cut from what stands at its place;
* `ascending_tokenize`: the tokens of a text stand one behind the other.
-/

namespace LogQuery

open Text

/-! ## Places in order -/

namespace Position

/-- Places are ordered by line, then by column. -/
instance : LE Position := ⟨fun p q => p.line < q.line ∨ p.line = q.line ∧ p.column ≤ q.column⟩

instance : LT Position := ⟨fun p q => p.line < q.line ∨ p.line = q.line ∧ p.column < q.column⟩

instance (p q : Position) : Decidable (p ≤ q) :=
  inferInstanceAs (Decidable (p.line < q.line ∨ p.line = q.line ∧ p.column ≤ q.column))

instance (p q : Position) : Decidable (p < q) :=
  inferInstanceAs (Decidable (p.line < q.line ∨ p.line = q.line ∧ p.column < q.column))

variable {p q r : Position}

theorem le_iff : p ≤ q ↔ p.line < q.line ∨ p.line = q.line ∧ p.column ≤ q.column := Iff.rfl

theorem lt_iff : p < q ↔ p.line < q.line ∨ p.line = q.line ∧ p.column < q.column := Iff.rfl

theorem le_refl (p : Position) : p ≤ p := .inr ⟨rfl, Nat.le_refl _⟩

theorem le_of_lt (h : p < q) : p ≤ q := by
  rw [lt_iff] at h
  rw [le_iff]
  omega

theorem le_trans (h : p ≤ q) (h' : q ≤ r) : p ≤ r := by
  rw [le_iff] at h h' ⊢
  omega

theorem lt_of_lt_of_le (h : p < q) (h' : q ≤ r) : p < r := by
  rw [le_iff] at h'
  rw [lt_iff] at h ⊢
  omega

theorem not_lt : ¬ p < q ↔ q ≤ p := by
  rw [le_iff, lt_iff]
  omega

theorem lt_next (p : Position) (c : Char) : p < p.next c := by
  unfold next
  split
  · exact .inl (Nat.lt_succ_self _)
  · exact .inr ⟨rfl, Nat.lt_succ_self _⟩

theorem le_after (p : Position) (cs : List Char) : p ≤ p.after cs := by
  induction cs generalizing p with
  | nil => exact le_refl p
  | cons c cs ih => exact le_trans (le_of_lt (lt_next p c)) (ih _)

/-- More text leads to a later place. -/
theorem lt_after (p : Position) {cs : List Char} (h : cs ≠ []) : p < p.after cs := by
  cases cs with
  | nil => exact absurd rfl h
  | cons c cs => exact lt_of_lt_of_le (lt_next p c) (le_after _ cs)

end Position

/-! ## The first piece -/

/-- What the first piece of the text `c :: rest` can be, with the text after it. -/
inductive FirstPiece (before : Bool) (c : Char) (rest : List Char) : Cut → Prop
  | blank (hc : isBlank c = true) : FirstPiece before c rest (.blank c, rest)
  | quotedValue (hbefore : before = true) (hc : isQuote c = true) :
      FirstPiece before c rest (cutQuotedValue c rest)
  | bareValue (hbefore : before = true) (hc : startsBare c = true) :
      FirstPiece before c rest (cutBareValue c rest)
  | paren (hc : c = '(' ∨ c = ')') : FirstPiece before c rest (.token ⟨.paren, [c], false⟩, rest)
  | pipe (hc : c = '|') : FirstPiece before c rest (.token ⟨.pipe, [c], false⟩, rest)
  | comma (hbefore : before = false) (hc : c = ',') :
      FirstPiece before c rest (.token ⟨.comma, [c], false⟩, rest)
  | operator (hc : isOperatorChar c = true) : FirstPiece before c rest (cutOperator c rest)
  | word (hbefore : before = false) (hc : startsWord c = true) :
      FirstPiece before c rest (cutWord (c :: rest))
  | stray (hc : startsWord c = false) : FirstPiece before c rest (.stray c, rest)

theorem firstPiece_nextPiece (before : Bool) (c : Char) (rest : List Char) :
    FirstPiece before c rest (nextPiece before c rest) := by
  unfold nextPiece
  split
  · exact .blank ‹_›
  rename_i hblank
  split
  · rename_i hvalue
    rw [Bool.and_eq_true, Bool.and_eq_true, Bool.not_eq_true', Bool.not_eq_true'] at hvalue
    obtain ⟨⟨hbefore, hoperator⟩, hdelimiter⟩ := hvalue
    split
    · exact .quotedValue hbefore ‹_›
    · rename_i hquote
      refine .bareValue hbefore ?_
      rw [startsBare, isBareChar, Bool.eq_false_iff.mpr hblank, hdelimiter, hoperator,
        Bool.eq_false_iff.mpr hquote]
      rfl
  rename_i hvalue
  -- where a value is expected, only an operator or a delimiter gets further
  have hbefore : isOperatorChar c = false → isDelimiter c = false → before = false := by
    intro hoperator hdelimiter
    rw [hoperator, hdelimiter] at hvalue
    simpa using hvalue
  split
  · exact .paren ‹_›
  split
  · exact .pipe ‹_›
  split
  · rename_i hcomma
    exact .comma (hbefore (by rw [hcomma]; rfl) (by rw [hcomma]; rfl)) hcomma
  split
  · exact .operator ‹_›
  split
  · rename_i hword
    have hoperator := isOperatorChar_of_startsWord hword
    exact .word (hbefore hoperator (isDelimiter_of_startsWord hword)) hword
  · exact .stray (Bool.eq_false_iff.mpr ‹_›)

/-! ## Cuts -/

/-- A text is cut between `before` and `after`, and the characters on the two sides are not both key
characters. -/
def IsBreak (before after : List Char) : Prop :=
  (∀ c ∈ before.getLast?, isKeyChar c = false) ∨ ∀ c ∈ after.head?, isKeyChar c = false

theorem IsBreak.append {source after : List Char} (h : IsBreak source after) (hne : source ≠ [])
    (before : List Char) : IsBreak (before ++ source) after := by
  refine h.imp_left fun h c hc => h c ?_
  rw [List.getLast?_append, List.getLast?_eq_some_getLast hne] at hc
  rw [List.getLast?_eq_some_getLast hne]
  exact hc

/-- A cut behind a character that is no key character. -/
theorem isBreak_concat (front : List Char) {after : List Char} {c : Char}
    (h : isKeyChar c = false) : IsBreak (front ++ [c]) after := by
  refine .inl fun d hd => ?_
  rw [List.getLast?_concat] at hd
  cases hd
  exact h

theorem isKeyChar_of_isQuote {c : Char} (h : isQuote c = true) : isKeyChar c = false :=
  class_apart isQuote_of_isKeyChar h

theorem isKeyChar_of_isOperatorChar {c : Char} (h : isOperatorChar c = true) :
    isKeyChar c = false :=
  class_apart (fun hkey => isOperatorChar_of_startsWord (startsWord_of_isKeyChar hkey)) h

theorem isBreak_cutQuotedValue {c : Char} (hc : isQuote c = true) (rest : List Char) :
    IsBreak (cutQuotedValue c rest).1.source (cutQuotedValue c rest).2 := by
  unfold cutQuotedValue
  split
  · exact .inr (by simp)
  · exact isBreak_concat (c :: _) (isKeyChar_of_isQuote hc)

theorem isBreak_cutBareValue (c : Char) (rest : List Char) :
    IsBreak (cutBareValue c rest).1.source (cutBareValue c rest).2 := by
  refine .inr fun d hd => Bool.eq_false_iff.mpr fun hkey => ?_
  have hbare := head?_dropWhile isBareChar rest d hd
  rw [isBareChar_of_isKeyChar hkey] at hbare
  cases hbare

theorem isBreak_cutOperator {c : Char} (hc : isOperatorChar c = true) (rest : List Char) :
    IsBreak (cutOperator c rest).1.source (cutOperator c rest).2 := by
  have hequals : isKeyChar '=' = false := rfl
  have htilde : isKeyChar '~' = false := rfl
  unfold cutOperator
  split
  · exact isBreak_concat ['>'] hequals
  · exact isBreak_concat ['<'] hequals
  · exact isBreak_concat ['!'] hequals
  · exact isBreak_concat ['='] hequals
  · exact isBreak_concat ['!'] htilde
  · exact isBreak_concat [] (isKeyChar_of_isOperatorChar hc)

theorem isBreak_cutWord (cs : List Char) : IsBreak (cutWord cs).1.source (cutWord cs).2 := by
  unfold cutWord
  split
  · rename_i hkeyword
    exact .inr (isKeyChar_of_keyword? hkeyword)
  · split
    · exact .inr (by simp)
    · rename_i hread
      exact .inr (isKeyChar_of_readKey hread)

/-- No cut parts two key characters. -/
theorem isBreak_nextPiece (before : Bool) (c : Char) (rest : List Char) :
    IsBreak (nextPiece before c rest).1.source (nextPiece before c rest).2 := by
  have hfirst := firstPiece_nextPiece before c rest
  generalize nextPiece before c rest = cut at hfirst ⊢
  cases hfirst with
  | blank hc => exact isBreak_concat [] (isKeyChar_of_isBlank hc)
  | quotedValue _ hc => exact isBreak_cutQuotedValue hc rest
  | bareValue => exact isBreak_cutBareValue c rest
  | paren hc =>
    refine isBreak_concat [] ?_
    rcases hc with rfl | rfl <;> rfl
  | pipe hc =>
    subst hc
    exact isBreak_concat [] rfl
  | comma _ hc =>
    subst hc
    exact isBreak_concat [] rfl
  | operator hc => exact isBreak_cutOperator hc rest
  | word => exact isBreak_cutWord (c :: rest)
  | stray hc => exact isBreak_concat [] (Bool.or_eq_false_iff.mp hc).2

/-- Each piece of a text is cut from what stands at its place, behind a cut. -/
theorem exists_cut_of_mem {before cs : List Char} {expectsValue : Bool} {l : Located Piece}
    (hbreak : IsBreak before cs)
    (h : l ∈ Piece.locate (.ofText before) (pieces expectsValue cs)) :
    ∃ mid expects c rest, before ++ cs = mid ++ c :: rest ∧ IsBreak mid (c :: rest) ∧
      l = ⟨(nextPiece expects c rest).1, .ofText mid⟩ := by
  fun_induction pieces expectsValue cs generalizing before with
  | case1 => cases h
  | case2 expectsValue c rest cut =>
    rename_i ih
    rcases List.mem_cons.mp h with rfl | h
    · exact ⟨before, expectsValue, c, rest, rfl, hbreak, rfl⟩
    · have hsource : cut.1.source ++ cut.2 = c :: rest := source_nextPiece expectsValue c rest
      have hne : cut.1.source ≠ [] := source_ne_nil_of_nextPiece expectsValue c rest
      rw [Position.after_ofText] at h
      obtain ⟨mid, expects, d, rest', htext, hmid⟩ :=
        ih ((isBreak_nextPiece expectsValue c rest).append hne before) h
      rw [List.append_assoc, hsource] at htext
      exact ⟨mid, expects, d, rest', htext, hmid⟩

theorem exists_cut_of_mem_locatedPieces {text : String} {l : Located Piece}
    (h : l ∈ locatedPieces text) :
    ∃ before expects c rest, text.toList = before ++ c :: rest ∧ IsBreak before (c :: rest) ∧
      l = ⟨(nextPiece expects c rest).1, .ofText before⟩ :=
  have hstart : IsBreak [] text.toList := .inl (by simp)
  exists_cut_of_mem hstart h

/-- A piece that is no blank starts with a character that is none. -/
theorem exists_char_of_mem_locatedPieces {text : String} {l : Located Piece}
    (h : l ∈ locatedPieces text) (hblank : ∀ c, l.value ≠ .blank c) :
    ∃ before c rest, text.toList = before ++ c :: rest ∧ isBlank c = false ∧
      l.position = .ofText before := by
  obtain ⟨before, expects, c, rest, htext, -, rfl⟩ := exists_cut_of_mem_locatedPieces h
  refine ⟨before, c, rest, htext, Bool.eq_false_iff.mpr fun hc => hblank c ?_, rfl⟩
  show (nextPiece expects c rest).1 = .blank c
  rw [nextPiece, if_pos hc]

/-! ## The order of tokens -/

theorem Piece.le_of_mem_locate {p : Position} {ps : List Piece} {l : Located Piece}
    (h : l ∈ locate p ps) : p ≤ l.position := by
  induction ps generalizing p with
  | nil => cases h
  | cons piece ps ih =>
    rcases List.mem_cons.mp h with rfl | h
    · exact Position.le_refl p
    · exact Position.le_trans (p.le_after piece.source) (ih h)

/-- The pieces of a text stand one behind the other. -/
theorem ascending_pieces (p : Position) (expectsValue : Bool) (cs : List Char) :
    (Piece.locate p (pieces expectsValue cs)).Pairwise fun l m => l.position < m.position := by
  fun_induction pieces expectsValue cs generalizing p with
  | case1 => exact .nil
  | case2 expectsValue c rest cut ih =>
    have hne : cut.1.source ≠ [] := source_ne_nil_of_nextPiece expectsValue c rest
    refine .cons (fun l hl => ?_) (ih _)
    exact Position.lt_of_lt_of_le (p.lt_after hne) (Piece.le_of_mem_locate hl)

theorem Piece.position_of_token? {l : Located Piece} {t : Token} (h : token? l = some t) :
    t.position = l.position := by
  obtain ⟨piece, p⟩ := l
  cases piece <;> cases h
  rfl

/-- The tokens of a text stand one behind the other. -/
theorem ascending_tokenize (text : String) :
    (tokenize text).tokens.Pairwise fun t u => t.position < u.position := by
  refine (ascending_pieces .start false text.toList).filterMap Piece.token? ?_
  intro l m hlm t ht u hu
  rw [Piece.position_of_token? ht, Piece.position_of_token? hu]
  exact hlm

end LogQuery
