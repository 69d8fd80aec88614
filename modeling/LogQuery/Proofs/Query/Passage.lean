import LogQuery.Proofs.Query.Grammar
import LogQuery.Proofs.Token.Cuts
import LogQuery.Query.Analysis

/-!
# What reading does to the tokens

Reading takes tokens, understands a connective where one is left out, gives up at a token, and may
look for further faults behind the next keyword. `Passage` lists these steps, and every reading is
made of them; what holds of all faults is then shown step by step:

* `passes_readExpression` and its companions: the readings of filters;
* `passage_ofTokens`: the reading of a whole query;
* `Passage.blamed`: every fault is reported at a token that it is about (`SyntaxFault.Blames`);
* `places_of_faults`: so every diagnostic of a text points at a character of the text.
-/

namespace LogQuery

open Grammar (IsParen)
open Text (isBlank)

/-! ## Faults and tokens -/

/-- The fault is about the token: it quotes the token, or says what is wrong with a token of this
kind. -/
def SyntaxFault.Blames (fault : SyntaxFault) (t : Token) : Prop :=
  match fault with
  | missingCondition => True
  | missingField separator => (t.kind = .pipe ∨ t.kind = .comma) ∧ t.text = separator
  | unmatchedParen => IsParen ")" t
  | unexpected kind text => t.kind = kind ∧ t.text = text
  | notCondition kind text => t.kind = kind ∧ t.text = text
  | connectivesTooDeep => t.kind = .bool ∨ t.kind = .key
  | parensTooDeep => IsParen "(" t
  | emptyParens => IsParen ")" t
  | notField text => selectedField? t = none ∧ t.text = text
  | notComma text => t.kind ≠ .comma ∧ t.text = text
  | missingOperator key none => (t.kind = .key ∨ t.kind = .value) ∧ t.text = key
  | missingOperator _ (some found) => t.kind ≠ .operator ∧ t.text = found
  | missingValue operator none => t.kind = .operator ∧ t.text = operator
  | missingValue _ (some found) => ¬ (t.kind = .value ∨ t.kind = .key) ∧ t.text = found
  | unclosedParen => IsParen "(" t
  | unclosedParenAtPipe => t.kind = .pipe
  | unknownOperator text => t.kind = .operator ∧ t.text = text ∧ Comparison.ofSymbol? text = none
  | unknownConnective text => t.kind = .bool ∧ t.text = text ∧ Connective.ofKeyword? text = none
  | valueAsField text => t.kind = .value ∧ t.text = text
  | missingConnective key => t.kind = .key ∧ t.text = key

/-- From the tokens `ts`, reading comes to `rest` and reports `faults`; it has not given up if
`done`. The last of all tokens stands at `last`. -/
inductive Passage (last : Position) :
    List Token → List Token → List (Located SyntaxFault) → Bool → Prop
  | stop (ts : List Token) : Passage last ts ts [] true
  | take (t : Token) (ts : List Token) : Passage last (t :: ts) ts [] true
  /-- A connective is left out in front of a key. -/
  | gap {t : Token} {ts : List Token} (ht : t.kind = .key) :
      Passage last (t :: ts) (t :: ts) [⟨.missingConnective t.text, t.position⟩] true
  /-- Reading gives up at a token. -/
  | fail {t : Token} {ts : List Token} {fault : SyntaxFault} (hblames : fault.Blames t)
      (hclosed : fault ≠ .unclosedParen) :
      Passage last (t :: ts) (t :: ts) [⟨fault, t.position⟩] false
  /-- The tokens end where a condition is needed. -/
  | exhausted : Passage last [] [] [⟨.missingCondition, last⟩] false
  /-- The tokens end inside a parenthesis, which is reported where it was opened. -/
  | unclosed {t : Token} {ts : List Token} {faults : List (Located SyntaxFault)}
      (ht : IsParen "(" t) (h : Passage last ts [] faults true) :
      Passage last (t :: ts) [] (faults ++ [⟨.unclosedParen, t.position⟩]) false
  | append {ts mid rest : List Token} {faults faults' : List (Located SyntaxFault)} {done : Bool}
      (h : Passage last ts mid faults true) (h' : Passage last mid rest faults' done) :
      Passage last ts rest (faults ++ faults') done
  /-- After it has given up, reading passes over tokens. -/
  | skip {t : Token} {ts rest : List Token} {faults : List (Located SyntaxFault)}
      (h : Passage last ts (t :: rest) faults false) : Passage last ts rest faults false
  /-- It looks for further faults behind a keyword. -/
  | resume {t : Token} {ts mid rest : List Token} {faults faults' : List (Located SyntaxFault)}
      {done : Bool} (h : Passage last ts (t :: mid) faults false) (ht : t.kind = .bool)
      (h' : Passage last mid rest faults' done) : Passage last ts rest (faults ++ faults') false

/-! ## Readings of filters -/

section

variable {last : Position} {α β : Type}

/-- The reading makes its way through the tokens `ts`. -/
def Reading.Passes (last : Position) (ts : List Token) (r : Reading α) : Prop :=
  Passage last ts r.rest r.faults r.value.isSome

theorem Reading.after_after (faults faults' : List (Located SyntaxFault)) (r : Reading α) :
    (r.after faults').after faults = r.after (faults ++ faults') := by
  rw [Reading.after, Reading.after, Reading.after, List.append_assoc]

theorem Reading.Passes.bind {ts : List Token} {r : Reading α} {next : α → List Token → Reading β}
    (hr : r.Passes last ts)
    (hnext : ∀ a, r.value = some a → (next a r.rest).Passes last r.rest) :
    (r.bind next).Passes last ts := by
  unfold Passes at hr
  unfold Reading.bind
  cases hvalue : r.value with
  | none =>
    rw [hvalue] at hr
    exact hr
  | some a =>
    rw [hvalue] at hr
    exact .append hr (hnext a hvalue)

theorem passes_readValue (field : Field) (comparison : Comparison) {operator : Token}
    (hoperator : operator.kind = .operator) (ts : List Token) :
    (readValue field comparison operator ts).Passes last (operator :: ts) := by
  cases ts with
  | nil => exact .skip (.fail ⟨hoperator, rfl⟩ (by simp))
  | cons t rest =>
    rw [readValue]
    split
    · exact .append (.take operator _) (.take t rest)
    · rename_i hvalue
      exact .append (.take operator _) (.fail ⟨hvalue, rfl⟩ (by simp))

theorem passes_readCondition (field : Field) {key : Token}
    (hkey : key.kind = .key ∨ key.kind = .value) (ts : List Token) :
    (readCondition field key ts).Passes last (key :: ts) := by
  cases ts with
  | nil => exact .skip (.fail ⟨hkey, rfl⟩ (by simp))
  | cons t rest =>
    rw [readCondition]
    split
    · rename_i hoperator
      split
      · rename_i hsymbol
        exact .append (.take key _) (.skip (.fail ⟨hoperator, rfl, hsymbol⟩ (by simp)))
      · exact .append (.take key _) (passes_readValue field _ hoperator rest)
    · rename_i hoperator
      exact .append (.take key _) (.fail ⟨hoperator, rfl⟩ (by simp))

mutual

theorem passes_readExpression (last : Position) (depth : Nat) (ts : List Token) :
    (readExpression last depth ts).Passes last ts := by
  rw [readExpression_eq]
  refine (passes_readPrimary last depth ts).bind fun left hvalue => ?_
  have hlength := (shorter_readPrimary last depth ts).2 (by rw [hvalue]; rfl)
  exact passes_readChain last depth left _
termination_by 5 * ts.length + 3
decreasing_by all_goals omega

theorem passes_readChain (last : Position) (depth : Nat) (left : Filter) (ts : List Token) :
    (readChain last depth left ts).Passes last ts := by
  rw [readChain_eq]
  match ts with
  | [] => exact .stop []
  | t :: rest =>
    dsimp only
    split
    · rename_i hkind
      split
      · rename_i hkeyword
        exact .skip (.fail ⟨hkind, rfl, hkeyword⟩ (by simp))
      · exact passes_readLink last depth left _ t.position rest (.take t rest)
          (.skip (.fail (.inl hkind) (by simp)))
    · rename_i hkind
      exact .append (.gap hkind) (passes_readLink last depth left .and t.position (t :: rest)
        (.stop _) (.fail (.inr hkind) (by simp)))
    · exact .stop _
termination_by 5 * ts.length + 2
decreasing_by
  all_goals
    simp only [List.length_cons]
    omega

/-- A link is read after its connective, if there is one: from the tokens `us` reading comes to
`ts`. -/
theorem passes_readLink (last : Position) (depth : Nat) (left : Filter) (op : Connective)
    (position : Position) (ts : List Token) {us : List Token} (htake : Passage last us ts [] true)
    (hdeep : Passage last us ts [⟨.connectivesTooDeep, position⟩] false) :
    (readLink last depth left op position ts).Passes last us := by
  have hlength : ∀ depth a, (readPrimary last depth ts).value = some a →
      (readPrimary last depth ts).rest.length < ts.length := fun depth a hvalue =>
    (shorter_readPrimary last depth ts).2 (by rw [hvalue]; rfl)
  rw [readLink_eq]
  split
  · refine .append htake ((passes_readPrimary last depth ts).bind fun right hvalue => ?_)
    have := hlength depth right hvalue
    exact passes_readChain last depth (.join op left right) _
  · split
    · exact hdeep
    · refine .append htake ((passes_readPrimary last (depth + 1) ts).bind fun right hvalue => ?_)
      have := hlength (depth + 1) right hvalue
      exact passes_readChain last (depth + 1) (.join op left right) _
termination_by 5 * ts.length + 1
decreasing_by all_goals omega

theorem passes_readPrimary (last : Position) (depth : Nat) (ts : List Token) :
    (readPrimary last depth ts).Passes last ts := by
  rw [readPrimary_eq]
  match ts with
  | [] => exact .exhausted
  | t :: rest =>
    dsimp only
    split
    · rename_i hkind
      split
      · rename_i htext
        split
        · exact .skip (.fail ⟨hkind, htext⟩ (by simp))
        · exact passes_readMembers last (depth + 1) t [] rest ⟨hkind, htext⟩ (.stop rest)
      · exact .fail ⟨rfl, rfl⟩ (by simp)
    · rename_i hkind
      exact passes_readCondition _ (.inl hkind) rest
    · rename_i hkind
      split
      · exact passes_readCondition _ (.inr hkind) rest
      · exact .skip (.fail ⟨hkind, rfl⟩ (by simp))
    · exact .fail ⟨rfl, rfl⟩ (by simp)
termination_by 5 * ts.length
decreasing_by
  simp only [List.length_cons]
  omega

/-- The members of a group are read after its opening parenthesis and the first members: from the
tokens `us` behind the parenthesis, reading has come to `ts`. -/
theorem passes_readMembers (last : Position) (depth : Nat) (opening : Token)
    (members : List Filter) (ts : List Token) {us : List Token}
    {faults : List (Located SyntaxFault)} (hopening : IsParen "(" opening)
    (hmembers : Passage last us ts faults true) :
    ((readMembers last depth opening members ts).after faults).Passes last (opening :: us) := by
  have hopened : Passage last (opening :: us) ts faults true := .append (.take opening us) hmembers
  rw [readMembers_eq]
  match ts with
  | [] => exact .unclosed hopening hmembers
  | t :: rest =>
    dsimp only
    split
    · rename_i hclosing
      split
      · exact .append hopened (.skip (.fail hclosing (by simp)))
      · exact .append hopened (.take t rest)
    · split
      · rename_i hpipe
        exact .append hopened (.fail hpipe (by simp))
      · have hmember := passes_readExpression last depth (t :: rest)
        unfold Reading.Passes at hmember
        rw [Reading.bind]
        cases hvalue : (readExpression last depth (t :: rest)).value with
        | none =>
          rw [hvalue] at hmember
          exact .append hopened hmember
        | some member =>
          rw [hvalue] at hmember
          have hlength := (shorter_readExpression last depth (t :: rest)).2 (by rw [hvalue]; rfl)
          dsimp only
          rw [Reading.after_after]
          exact passes_readMembers last depth opening (members ++ [member]) _ hopening
            (.append hmembers hmember)
termination_by 5 * ts.length + 4
decreasing_by
  all_goals
    simp only [List.length_cons] at *
    omega

end

end

/-! ## Queries -/

theorem passage_readSelect (last : Position) {separator : Token}
    (hseparator : separator.kind = .pipe ∨ separator.kind = .comma) (ts : List Token) :
    ∃ rest done, Passage last (separator :: ts) rest (readSelect separator ts).2 done := by
  fun_induction readSelect separator ts with
  | case1 separator => exact ⟨_, _, .fail ⟨hseparator, rfl⟩ (by simp)⟩
  | case2 separator t hfield => exact ⟨_, _, .append (.take _ _) (.fail ⟨hfield, rfl⟩ (by simp))⟩
  | case3 separator t field hfield => exact ⟨_, _, .stop _⟩
  | case4 separator t s rest hfield =>
    exact ⟨_, _, .append (.take _ _) (.fail ⟨hfield, rfl⟩ (by simp))⟩
  | case5 separator t s rest field hfield hcomma r ih =>
    obtain ⟨rest', done, hrest⟩ := ih (.inr hcomma)
    exact ⟨_, _, .append (.take _ _) (.append (.take _ _) hrest)⟩
  | case6 separator t s rest field hfield hcomma =>
    exact ⟨_, _, .append (.take _ _) (.append (.take _ _) (.fail ⟨hcomma, rfl⟩ (by simp)))⟩

theorem passage_readTail (last : Position) (ts : List Token) :
    ∃ rest done, Passage last ts rest (readTail ts).2 done := by
  cases ts with
  | nil => exact ⟨_, _, .stop []⟩
  | cons t rest =>
    rw [readTail]
    split
    · rename_i hpipe
      exact passage_readSelect last (.inl hpipe) rest
    · split
      · rename_i hclosing
        exact ⟨_, _, .fail hclosing (by simp)⟩
      · exact ⟨_, _, .fail ⟨rfl, rfl⟩ (by simp)⟩

/-- The search for further faults goes on from where reading has given up. -/
theorem passage_recover {last : Position} {ts mid : List Token}
    {faults : List (Located SyntaxFault)} (h : Passage last ts mid faults false) :
    ∃ rest, Passage last ts rest (faults ++ recover last mid) false := by
  fun_induction recover last mid generalizing faults with
  | case1 => exact ⟨_, by rw [List.append_nil]; exact h⟩
  | case2 => exact ⟨_, by rw [List.append_nil]; exact h⟩
  | case3 t mid hkind r =>
    rename_i ih
    obtain ⟨rest, hrest⟩ := ih (.resume h hkind (passes_readExpression last 0 mid))
    rw [List.append_assoc] at hrest
    exact ⟨rest, hrest⟩
  | case4 t mid _ _ ih => exact ih (.skip h)

/-- A query is read step by step. -/
theorem passage_ofTokens (ts : List Token) :
    ∃ rest done, Passage (lastPosition ts) ts rest (Query.ofTokens ts).faults done := by
  rw [Query.ofTokens]
  split
  · exact passage_readTail _ ts
  · have hfilter := passes_readExpression (lastPosition ts) 0 ts
    unfold Reading.Passes at hfilter
    dsimp only
    split
    · rename_i hvalue
      rw [hvalue] at hfilter
      obtain ⟨rest, hrest⟩ := passage_recover hfilter
      exact ⟨rest, _, hrest⟩
    · rename_i filter hvalue
      rw [hvalue] at hfilter
      obtain ⟨rest, done, htail⟩ := passage_readTail (lastPosition ts)
        (readExpression (lastPosition ts) 0 ts).rest
      exact ⟨rest, done, .append hfilter htail⟩

/-! ## Where faults are reported -/

namespace Passage

variable {last : Position} {ts rest : List Token} {faults : List (Located SyntaxFault)}
  {done : Bool}

/-- Reading goes forward only. -/
theorem suffix (h : Passage last ts rest faults done) : rest <:+ ts := by
  induction h with
  | stop => exact List.suffix_rfl
  | take => exact List.suffix_cons _ _
  | gap => exact List.suffix_rfl
  | fail => exact List.suffix_rfl
  | exhausted => exact List.suffix_rfl
  | unclosed => exact List.nil_suffix
  | append _ _ ih ih' => exact ih'.trans ih
  | skip _ ih => exact (List.suffix_cons _ _).trans ih
  | resume _ _ _ ih ih' => exact ih'.trans ((List.suffix_cons _ _).trans ih)

/-- Every fault is reported at a token that it is about, or where the last token stands if the
tokens end too early. -/
theorem blamed (h : Passage last ts rest faults done) : ∀ f ∈ faults,
    (∃ t ∈ ts, f.position = t.position ∧ f.value.Blames t) ∨ f = ⟨.missingCondition, last⟩ := by
  have hmono : ∀ {ts mid : List Token} {f : Located SyntaxFault}, mid <:+ ts →
      (∃ t ∈ mid, f.position = t.position ∧ f.value.Blames t) ∨ f = ⟨.missingCondition, last⟩ →
      (∃ t ∈ ts, f.position = t.position ∧ f.value.Blames t) ∨ f = ⟨.missingCondition, last⟩ :=
    fun hsuffix hf => hf.imp_left fun ⟨t, ht, hblames⟩ => ⟨t, hsuffix.mem ht, hblames⟩
  induction h with
  | stop => simp
  | take => simp
  | gap ht =>
    rintro f hf
    cases List.mem_singleton.mp hf
    exact .inl ⟨_, List.mem_cons_self, rfl, ht, rfl⟩
  | fail hblames =>
    rintro f hf
    cases List.mem_singleton.mp hf
    exact .inl ⟨_, List.mem_cons_self, rfl, hblames⟩
  | exhausted =>
    rintro f hf
    exact .inr (List.mem_singleton.mp hf)
  | unclosed ht h ih =>
    refine List.forall_mem_append.mpr ⟨fun f hf => hmono (List.suffix_cons _ _) (ih f hf), ?_⟩
    rintro f hf
    cases List.mem_singleton.mp hf
    exact .inl ⟨_, List.mem_cons_self, rfl, ht⟩
  | append h h' ih ih' =>
    exact List.forall_mem_append.mpr ⟨ih, fun f hf => hmono h.suffix (ih' f hf)⟩
  | skip h ih => exact ih
  | resume h ht h' ih ih' =>
    have hsuffix := (List.suffix_cons _ _).trans h.suffix
    exact List.forall_mem_append.mpr ⟨ih, fun f hf => hmono hsuffix (ih' f hf)⟩

end Passage

/-- Every fault of a query is reported at a token that it is about. -/
theorem exists_blamed_of_mem_ofTokens {ts : List Token} {f : Located SyntaxFault}
    (h : f ∈ (Query.ofTokens ts).faults) :
    ∃ t ∈ ts, f.position = t.position ∧ f.value.Blames t := by
  obtain ⟨rest, done, hpassage⟩ := passage_ofTokens ts
  rcases hpassage.blamed f h with hblamed | rfl
  · exact hblamed
  · -- there is a last token, as no tokens have no fault
    have hne : ts ≠ [] := by
      rintro rfl
      cases h
    refine ⟨ts.getLast hne, List.getLast_mem hne, ?_, trivial⟩
    rw [lastPosition, List.getLast?_eq_some_getLast hne]

/-- Every lexical fault of a text is reported at a character of the text that is no blank. -/
theorem exists_char_of_mem_faults {text : String} {f : Located LexicalFault}
    (h : f ∈ (tokenize text).faults) :
    ∃ before c after, text.toList = before ++ c :: after ∧ isBlank c = false ∧
      f.position = .ofText before := by
  obtain ⟨⟨piece, p⟩, hmem, hfault⟩ := List.mem_filterMap.mp h
  have hplace : f.position = p := by
    cases piece <;> cases hfault <;> rfl
  rw [hplace]
  refine exists_char_of_mem_locatedPieces hmem ?_
  rintro c ⟨⟩
  cases hfault

/-- Every token of a text stands at a character of the text that is no blank. -/
theorem exists_char_of_mem_tokens {text : String} {t : Token} (h : t ∈ (tokenize text).tokens) :
    ∃ before c after, text.toList = before ++ c :: after ∧ isBlank c = false ∧
      t.position = .ofText before := by
  obtain ⟨l, hmem, htoken⟩ := List.mem_filterMap.mp h
  rw [Piece.position_of_token? htoken]
  refine exists_char_of_mem_locatedPieces hmem ?_
  obtain ⟨piece, p⟩ := l
  rintro c ⟨⟩
  cases htoken

/-- Every diagnostic of a text stands at a character of the text that is no blank, and every fault
of a row of tokens at a token that it is about. -/
theorem places_of_faults :
    (∀ (text : String), ∀ d ∈ validate text, ∃ before c after,
      text.toList = before ++ c :: after ∧ isBlank c = false ∧ d.position = .ofText before) ∧
    ∀ (ts : List Token), ∀ f ∈ (Query.ofTokens ts).faults, ∃ t ∈ ts,
      (SyntaxFault.report f).position = t.position ∧ f.value.Blames t := by
  refine ⟨fun text d hd => ?_, fun ts f hf => exists_blamed_of_mem_ofTokens hf⟩
  rcases List.mem_append.mp hd with hd | hd
  · obtain ⟨r, hr, rfl⟩ := List.mem_map.mp hd
    obtain ⟨f, hf, rfl⟩ := List.mem_map.mp hr
    exact exists_char_of_mem_faults hf
  · obtain ⟨r, hr, rfl⟩ := List.mem_map.mp hd
    obtain ⟨f, hf, rfl⟩ := List.mem_map.mp hr
    obtain ⟨t, ht, hplace, -⟩ := exists_blamed_of_mem_ofTokens hf
    show ∃ before c after, _ ∧ _ ∧ f.position = _
    rw [hplace]
    exact exists_char_of_mem_tokens ht

/-- Behind a quoted value over two lines, a parenthesis that is never closed. -/
theorem places_of_faults_lines :
    let text := "a = 'x\ny' or\n ("
    let tokens := (tokenize text).tokens
    let unclosed : Located SyntaxFault := ⟨.unclosedParen, ⟨3, 2⟩⟩
    let diagnostic := Diagnostic.ofSyntax (SyntaxFault.report unclosed)
    diagnostic ∈ validate text ∧ unclosed ∈ (Query.ofTokens tokens).faults ∧
      (∃ before c after, text.toList = before ++ c :: after ∧ isBlank c = false ∧
        diagnostic.position = .ofText before) ∧
      ∃ t ∈ tokens, t.position = ⟨3, 2⟩ ∧ IsParen "(" t := by
  intro text tokens unclosed diagnostic
  have hdiagnostic : diagnostic ∈ validate text := by decide +kernel
  have hunclosed : unclosed ∈ (Query.ofTokens tokens).faults := by decide +kernel
  obtain ⟨t, ht, hplace, hblames⟩ := places_of_faults.2 tokens unclosed hunclosed
  exact ⟨hdiagnostic, hunclosed, places_of_faults.1 text diagnostic hdiagnostic, t, ht, hplace.symm,
    hblames⟩

end LogQuery
