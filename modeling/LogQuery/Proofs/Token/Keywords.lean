import LogQuery.Proofs.Query.Passage
import LogQuery.Proofs.Query.Selection

/-!
# Keywords

A keyword is recognised by what follows it: it ends where no key character comes next. It also
starts where no key character stands before it, since no cut of a text parts two key characters. So
a keyword is always a whole word, and a whole word that reads like one is never taken for a key.

* `kind_nextPiece`: where keywords and keys are cut from;
* `isKeyRun_of_mem_tokens`: a keyword is a maximal run of key characters;
* `isKeyword_of_key`: no key reads like a keyword;
* `followsOperator_tokensAt`: no keyword, key or comma comes right after an operator;
* `keywords_of_tokenize`: these together, and that no connective of a text is unknown.
-/

namespace LogQuery

open Text

/-! ## Where tokens of a kind are cut from -/

theorem kind_cutOperator {c : Char} {rest : List Char} {l : Lexeme}
    (h : (cutOperator c rest).1 = .token l) : l.kind = .operator := by
  unfold cutOperator at h
  split at h <;> cases h <;> rfl

theorem kind_cutQuotedValue {c : Char} {rest : List Char} {l : Lexeme}
    (h : (cutQuotedValue c rest).1 = .token l) : l.kind = .value := by
  unfold cutQuotedValue at h
  split at h <;> cases h
  rfl

/-- A token of this kind may come right after an operator. -/
def TokenKind.FollowsOperator (kind : TokenKind) : Prop :=
  kind ≠ .bool ∧ kind ≠ .key ∧ kind ≠ .comma

/-- Where a value is expected, no keyword, key or comma is cut off; keywords and keys are cut from
words. -/
theorem kind_nextPiece {before : Bool} {c : Char} {rest : List Char} {l : Lexeme}
    (h : (nextPiece before c rest).1 = .token l) :
    (before = true → l.kind.FollowsOperator) ∧
      (l.kind = .bool ∨ l.kind = .key → nextPiece before c rest = cutWord (c :: rest)) := by
  have hfirst := firstPiece_nextPiece before c rest
  generalize nextPiece before c rest = cut at h hfirst ⊢
  have hother : l.kind ∈ [TokenKind.value, .operator, .paren, .pipe] →
      (before = true → l.kind.FollowsOperator) ∧
        (l.kind = .bool ∨ l.kind = .key → cut = cutWord (c :: rest)) := by
    intro hmem
    simp only [List.mem_cons, List.not_mem_nil, or_false] at hmem
    rcases hmem with hkind | hkind | hkind | hkind <;> simp [TokenKind.FollowsOperator, hkind]
  cases hfirst with
  | blank => cases h
  | quotedValue => exact hother (by simp [kind_cutQuotedValue h])
  | bareValue =>
    cases h
    exact hother (by simp)
  | paren =>
    cases h
    exact hother (by simp)
  | pipe =>
    cases h
    exact hother (by simp)
  | comma hbefore =>
    cases h
    simp [hbefore]
  | operator => exact hother (by simp [kind_cutOperator h])
  | word hbefore => simp [hbefore]
  | stray => cases h

theorem kind_keyLexeme_ne_bool (parts : List KeyPart) : (keyLexeme parts).kind ≠ .bool := by
  unfold keyLexeme
  split <;> simp

/-- A keyword is cut off as one. -/
theorem keyword?_of_kind {before : Bool} {c : Char} {rest rest' : List Char} {l : Lexeme}
    (h : nextPiece before c rest = (.token l, rest')) (hkind : l.kind = .bool) :
    keyword? (c :: rest) = some (l.source, rest') := by
  have hcut := (kind_nextPiece (congrArg Prod.fst h)).2 (.inl hkind)
  rw [h] at hcut
  obtain ⟨-, hkeyword⟩ | ⟨-, parts, -, rfl⟩ := cutWord_cases hcut.symm
  · exact hkeyword
  · exact absurd hkind (kind_keyLexeme_ne_bool parts)

/-- A key is cut off where there is no keyword, and taken as written. -/
theorem readKey_of_kind {before : Bool} {c : Char} {rest rest' : List Char} {l : Lexeme}
    (h : nextPiece before c rest = (.token l, rest')) (hkind : l.kind = .key) :
    keyword? (c :: rest) = none ∧ ∃ parts, readKey true (c :: rest) = some (parts, rest') ∧
      l.text.toList = parts.flatMap KeyPart.source := by
  have hcut := (kind_nextPiece (congrArg Prod.fst h)).2 (.inr hkind)
  rw [h] at hcut
  obtain ⟨hbool, -⟩ | ⟨hnone, parts, hread, rfl⟩ := cutWord_cases hcut.symm
  · rw [hkind] at hbool
    cases hbool
  · refine ⟨hnone, parts, hread, ?_⟩
    unfold keyLexeme at hkind ⊢
    split at hkind
    · cases hkind
    · exact String.toList_ofList

/-! ## Keywords and keys of a text -/

/-- In a text, `word` is a run of key characters that stops on both sides where another character
stands, or where the text ends. -/
structure IsKeyRun (before word after : List Char) : Prop where
  isKeyChar : ∀ c ∈ word, isKeyChar c = true
  start : ∀ c ∈ before.getLast?, Text.isKeyChar c = false
  stop : ∀ c ∈ after.head?, Text.isKeyChar c = false

theorem exists_cut_of_mem_tokens {text : String} {t : Token} (h : t ∈ (tokenize text).tokens) :
    ∃ before expects c rest l after, text.toList = before ++ c :: rest ∧
      IsBreak before (c :: rest) ∧ nextPiece expects c rest = (.token l, after) ∧
      t = l.tokenAt (.ofText before) := by
  obtain ⟨located, hmem, htoken⟩ := List.mem_filterMap.mp h
  obtain ⟨before, expects, c, rest, htext, hbreak, rfl⟩ := exists_cut_of_mem_locatedPieces hmem
  cases hcut : nextPiece expects c rest with
  | mk piece after =>
    rw [hcut] at htoken
    cases piece with
    | token l =>
      cases htoken
      exact ⟨before, expects, c, rest, l, after, htext, hbreak, hcut, rfl⟩
    | _ => cases htoken

/-- A keyword of a text is a maximal run of key characters. -/
theorem isKeyRun_of_mem_tokens {text : String} {t : Token} (h : t ∈ (tokenize text).tokens)
    (hkind : t.kind = .bool) :
    ∃ before word after, text.toList = before ++ word ++ after ∧ IsKeyRun before word after ∧
      isKeyword word = true ∧ t.text.toList = word ∧ t.position = .ofText before := by
  obtain ⟨before, expects, c, rest, l, after, htext, hbreak, hcut, rfl⟩ :=
    exists_cut_of_mem_tokens h
  have hkeyword := keyword?_of_kind hcut hkind
  have hword := isKeyword_of_keyword? hkeyword
  have hkey : ∀ d ∈ l.source, isKeyChar d = true := fun d hd =>
    isKeyChar_of_isNameChar (isNameChar_of_isAlphabetic (isAlphabetic_of_isKeyword hword d hd))
  have hsource := append_of_keyword? hkeyword
  have htoken : l.text.toList = l.source := by
    obtain ⟨kind, source, quoted⟩ := l
    cases hkind
    exact String.toList_ofList
  refine ⟨before, l.source, after, ?_, ⟨hkey, ?_, isKeyChar_of_keyword? hkeyword⟩, hword, htoken,
    rfl⟩
  · rw [htext, List.append_assoc, hsource]
  · -- the word starts with a key character, so none stands before it
    refine hbreak.resolve_right fun hc => ?_
    cases hl : l.source with
    | nil =>
      rw [hl] at hword
      exact absurd hword (by decide)
    | cons d ds =>
      rw [hl] at hsource hkey
      obtain ⟨rfl, -⟩ := List.cons.inj hsource
      have hd := hkey d List.mem_cons_self
      rw [hc d rfl] at hd
      cases hd

/-- No key of a text reads like a keyword. -/
theorem isKeyword_of_key {text : String} {t : Token} (h : t ∈ (tokenize text).tokens)
    (hkind : t.kind = .key) : isKeyword t.text.toList = false := by
  obtain ⟨before, expects, c, rest, l, after, -, -, hcut, rfl⟩ := exists_cut_of_mem_tokens h
  obtain ⟨hnone, parts, hread, hsource⟩ := readKey_of_kind hcut hkind
  refine Bool.eq_false_iff.mpr fun hkeyword => ?_
  replace hkeyword : isKeyword l.text.toList = true := hkeyword
  rw [hsource] at hkeyword
  -- it would have been taken for one, as no key character follows a key
  have hsome := keyword?_append (List.all_eq_true.mpr (isAlphabetic_of_isKeyword hkeyword)) hkeyword
    (isKeyChar_of_readKey hread)
  rw [source_of_readKey hread, hnone] at hsome
  cases hsome

/-- The first token where a value is expected, and the one after each operator. -/
theorem followsOperator_tokensAt (before : Bool) (cs : List Char) (p : Position) :
    (before = true →
      ∀ t ∈ (Piece.tokensAt p (pieces before cs)).head?, t.kind.FollowsOperator) ∧
    ∀ front t u back, Piece.tokensAt p (pieces before cs) = front ++ t :: u :: back →
      t.kind = .operator → u.kind.FollowsOperator := by
  fun_induction pieces before cs generalizing p with
  | case1 => simp [Piece.tokensAt, Piece.locate]
  | case2 before c rest cut =>
    rename_i ih
    obtain ⟨hfirst, hlater⟩ := ih (p.after cut.1.source)
    have hkind : ∀ l, cut.1 = .token l → before = true → l.kind.FollowsOperator :=
      fun l hpiece hbefore => (kind_nextPiece hpiece).1 hbefore
    obtain ⟨piece, rest'⟩ := cut
    cases piece with
    | blank d => exact ⟨hfirst, hlater⟩
    | stray d => exact ⟨hfirst, hlater⟩
    | unclosed source => exact ⟨hfirst, hlater⟩
    | token l =>
      refine ⟨?_, ?_⟩
      · rintro hbefore t ⟨⟩
        exact hkind l rfl hbefore
      · intro front t u back heq hoperator
        have hcons : l.tokenAt p :: Piece.tokensAt (p.after l.source)
            (pieces (l.kind = .operator) rest') = front ++ t :: u :: back := heq
        cases front with
        | nil =>
          obtain ⟨rfl, hrest⟩ := List.cons.inj hcons
          refine hfirst (decide_eq_true hoperator) u ?_
          show u ∈ (Piece.tokensAt (p.after l.source) (pieces (l.kind = .operator) rest')).head?
          rw [hrest]
          rfl
        | cons s front => exact hlater front t u back (List.cons.inj hcons).2 hoperator

theorem exists_name_of_code {fault : SyntaxFault} (h : fault.code = .unknownBooleanOperator) :
    ∃ name, fault = .unknownConnective name := by
  cases fault with
  | unknownConnective name => exact ⟨name, rfl⟩
  | _ => cases h

/-- A keyword of a text is a maximal run of key characters that reads like one; no keyword, key or
comma comes right after an operator; no key reads like a keyword; and no connective is unknown. -/
theorem keywords_of_tokenize (text : String) :
    (∀ t ∈ (tokenize text).tokens, t.kind = .bool → ∃ before word after,
      text.toList = before ++ word ++ after ∧ IsKeyRun before word after ∧ isKeyword word = true ∧
        t.text.toList = word ∧ t.position = .ofText before) ∧
    (∀ front t u back, (tokenize text).tokens = front ++ t :: u :: back → t.kind = .operator →
      u.kind.FollowsOperator) ∧
    (∀ t ∈ (tokenize text).tokens, t.kind = .key → isKeyword t.text.toList = false) ∧
    ∀ r ∈ (Query.ofTokens (tokenize text).tokens).reports, r.code ≠ .unknownBooleanOperator := by
  refine ⟨fun t ht hkind => isKeyRun_of_mem_tokens ht hkind, fun front t u back heq hkind => ?_,
    fun t ht hkind => isKeyword_of_key ht hkind, fun r hr hcode => ?_⟩
  · exact (followsOperator_tokensAt false text.toList .start).2 front t u back heq hkind
  · obtain ⟨f, hf, rfl⟩ := List.mem_map.mp hr
    obtain ⟨t, ht, -, hblames⟩ := exists_blamed_of_mem_ofTokens hf
    obtain ⟨name, hname⟩ := exists_name_of_code hcode
    rw [hname] at hblames
    obtain ⟨hkind, htext, hnone⟩ := hblames
    obtain ⟨before, word, after, -, -, hword, hsame, -⟩ := isKeyRun_of_mem_tokens ht hkind
    have hisNone := isNone_ofKeyword? t.text
    rw [hsame, hword, htext, hnone] at hisNone
    cases hisNone

/-- A key that ends like a keyword, a keyword in capitals, a key that starts like a keyword, and a
value that reads like one. -/
theorem keywords_of_tokenize_words :
    let text := "'x'or=1 OR(and_b!=and"
    let tokens := (tokenize text).tokens
    let word : Token := ⟨.bool, "OR", ⟨1, 9⟩, false⟩
    let key : Token := ⟨.key, "and_b", ⟨1, 12⟩, false⟩
    let operator : Token := ⟨.operator, "!=", ⟨1, 17⟩, false⟩
    let value : Token := ⟨.value, "and", ⟨1, 19⟩, false⟩
    let unclosed := SyntaxFault.report ⟨.unclosedParen, ⟨1, 11⟩⟩
    word ∈ tokens ∧ tokens = tokens.take 6 ++ operator :: value :: [] ∧ key ∈ tokens ∧
      unclosed ∈ (Query.ofTokens tokens).reports ∧
      (∃ before after, text.toList = before ++ word.text.toList ++ after ∧
        IsKeyRun before word.text.toList after ∧ isKeyword word.text.toList = true ∧
        word.position = .ofText before) ∧
      value.kind.FollowsOperator ∧ isKeyword key.text.toList = false ∧
      unclosed.code ≠ .unknownBooleanOperator := by
  intro text tokens word key operator value unclosed
  have hword : word ∈ tokens := by decide +kernel
  have hoperator : tokens = tokens.take 6 ++ operator :: value :: [] := by decide +kernel
  have hkey : key ∈ tokens := by decide +kernel
  have hunclosed : unclosed ∈ (Query.ofTokens tokens).reports := by decide +kernel
  obtain ⟨hkeywords, hfollows, hkeys, hreports⟩ := keywords_of_tokenize text
  obtain ⟨before, _, after, htext, hrun, hisKeyword, rfl, hplace⟩ := hkeywords word hword rfl
  exact ⟨hword, hoperator, hkey, hunclosed, ⟨before, after, htext, hrun, hisKeyword, hplace⟩,
    hfollows _ _ _ _ hoperator rfl, hkeys key hkey rfl, hreports unclosed hunclosed⟩

end LogQuery
