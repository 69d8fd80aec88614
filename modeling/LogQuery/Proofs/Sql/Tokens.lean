import LogQuery.Proofs.Sql.Parts
import LogQuery.Proofs.Sql.Quoting

/-!
# The tokens of conditions and select lists

The tokens that a filter or a select list ought to be cut into, read off the tree: every column,
alias, path segment, map key and string value is one token that holds it as it stands. The texts
written for conditions are shown to be cut into exactly these:

* `spells_string`, `spells_identifier`: a quoted text is one token, whatever characters it holds;
* `spells_access`, `spells_operand`, `spells_condition`: the parts of a condition;
* `lexes_filter`, `spells_filter`: a filter, cut as its tree is built.
-/

namespace LogQuery.Sql

/-! ## Tokens read off the tree -/

/-- Rows of tokens with commas between them. -/
def listed (rows : List (List Token)) : List Token := List.intercalate [.punctuation ","] rows

/-- The tokens of the expression that reads a field. -/
def accessTokens (schema : Option Schema) : Field → List Token
  | .simple name => [.identifier name]
  | .nested base path =>
    if columnKind schema base = .map then
      [.identifier base, .punctuation "[", .string (String.intercalate "." path), .punctuation "]"]
    else
      [.word "JSONExtractString", .punctuation "(", .identifier base, .punctuation ","] ++
        listed (path.map fun segment => [.string segment]) ++ [.punctuation ")"]

/-- A minus sign in front of a negative number. -/
def signTokens (negative : Bool) : List Token := if negative then [.punctuation "-"] else []

/-- The tokens of a literal. -/
def literalTokens : Literal → List Token
  | .string s => [.string s]
  | .integer i => signTokens (i < 0) ++ [.number (Nat.repr i.natAbs)]
  | .float x =>
    if x.isNaN then [.word "NaN"]
    else
      signTokens x.negative ++
        [if x.isFinite then .number (String.ofList (Layout.plain.magnitude x)) else .word "inf"]
  | .boolean b => [.word (if b then "true" else "false")]
  | .null => [.word "NULL"]

/-- The tokens of a value that a field is compared with; null never has a placeholder. -/
def operandTokens (mode : Mode) (value : Literal) : List Token :=
  match mode, value with
  | _, .null => [.word "NULL"]
  | .inline, value => literalTokens value
  | .parameterized, _ => [.punctuation "?"]

/-- The tokens of the test whether a text occurs in a field. -/
def searchTokens (mode : Mode) (field : List Token) (value : Literal) (test : String) :
    List Token :=
  [.word "positionCaseInsensitive", .punctuation "("] ++ field ++ [.punctuation ","] ++
    operandTokens mode (.string value.text) ++ [.punctuation ")", .punctuation test, .number "0"]

/-- The tokens of a condition. -/
def conditionTokens (mode : Mode) (schema : Option Schema) (c : LogQuery.Condition) : List Token :=
  let field := accessTokens schema c.field
  match c.comparison, c.value with
  | .equal, .null => field ++ [.word "IS", .word "NULL"]
  | .notEqual, .null => field ++ [.word "IS", .word "NOT", .word "NULL"]
  | .contains, value => searchTokens mode field value ">"
  | .notContains, value => searchTokens mode field value "="
  | comparison, value => field ++ [.punctuation comparison.symbol] ++ operandTokens mode value

/-- The word of a connective. -/
def connectiveWord : Connective → String
  | .and => "AND"
  | .or => "OR"

/-- How the tokens of a filter stand in a row. -/
def tokenArrangement (mode : Mode) (schema : Option Schema) : Arrangement Token :=
  ⟨conditionTokens mode schema, fun op => [.word (connectiveWord op)], [.punctuation "("],
    [.punctuation ")"]⟩

/-- The tokens of a filter. -/
def filterTokens (mode : Mode) (schema : Option Schema) (f : Filter) : List Token :=
  (tokenArrangement mode schema).row f

/-- The tokens of the condition of a query. -/
def queryTokens (mode : Mode) (schema : Option Schema) (q : Query) : List Token :=
  match q.filter with
  | none => []
  | some f => filterTokens mode schema f

/-- The tokens of a selected field; a nested one is named by its dotted path. -/
def selectedTokens (schema : Option Schema) (f : Field) : List Token :=
  match f with
  | .simple _ => accessTokens schema f
  | .nested .. => accessTokens schema f ++ [.word "AS", .identifier f.dotted]

/-- The tokens of a select list. -/
def selectTokens (schema : Option Schema) (orderField : String) (fields : List Field) :
    List Token :=
  listed ([.identifier orderField] :: fields.map (selectedTokens schema))

/-! ## Texts that spell tokens -/

/-- `text` is cut into lexemes that stand for `ts`, before a break. -/
def Spells (text : List Char) (ts : List Token) : Prop :=
  ∃ ls, Lexes text ls ∧ ls.filterMap Lexeme.token = ts

/-- `text` is cut into lexemes that stand for `ts`, whatever follows. -/
def SpellsClosed (text : List Char) (ts : List Token) : Prop :=
  ∃ ls, LexesClosed text ls ∧ ls.filterMap Lexeme.token = ts

theorem SpellsClosed.spells {text : List Char} {ts : List Token} (h : SpellsClosed text ts) :
    Spells text ts := by
  obtain ⟨ls, hls, rfl⟩ := h
  exact ⟨ls, hls.lexes, rfl⟩

theorem SpellsClosed.append {a b : List Char} {ta tb : List Token} (ha : SpellsClosed a ta)
    (hb : SpellsClosed b tb) : SpellsClosed (a ++ b) (ta ++ tb) := by
  obtain ⟨la, hla, rfl⟩ := ha
  obtain ⟨lb, hlb, rfl⟩ := hb
  exact ⟨la ++ lb, hla.append hlb, List.filterMap_append⟩

theorem SpellsClosed.append_spells {a b : List Char} {ta tb : List Token} (ha : SpellsClosed a ta)
    (hb : Spells b tb) : Spells (a ++ b) (ta ++ tb) := by
  obtain ⟨la, hla, rfl⟩ := ha
  obtain ⟨lb, hlb, rfl⟩ := hb
  exact ⟨la ++ lb, hla.append_lexes hlb, List.filterMap_append⟩

theorem Spells.append {a b : List Char} {ta tb : List Token} (ha : Spells a ta) (hb : Spells b tb)
    (hbreak : Breaks b) : Spells (a ++ b) (ta ++ tb) := by
  obtain ⟨la, hla, rfl⟩ := ha
  obtain ⟨lb, hlb, rfl⟩ := hb
  exact ⟨la ++ lb, hla.append hlb hbreak, List.filterMap_append⟩

theorem Spells.append_closed {a b : List Char} {ta tb : List Token} (ha : Spells a ta)
    (hb : SpellsClosed b tb) (hne : b ≠ []) (hbreak : Breaks b) :
    SpellsClosed (a ++ b) (ta ++ tb) := by
  obtain ⟨la, hla, rfl⟩ := ha
  obtain ⟨lb, hlb, rfl⟩ := hb
  exact ⟨la ++ lb, hla.append_closed hlb hne hbreak, List.filterMap_append⟩

theorem Spells.tokens_eq {text : List Char} {ts : List Token} (h : Spells text ts) :
    tokens text = some ts := by
  obtain ⟨ls, hls, rfl⟩ := h
  rw [tokens, hls.lexemes_eq, Option.map_some]

/-! ## Quoted text -/

/-- A string in single quotes is one token that holds it. -/
theorem spells_string (s : String) : Spells (quoteString s).toList [.string s] := by
  refine ⟨[⟨(quoteString s).toList, some (.string s)⟩], ?_, rfl⟩
  rw [toList_quoteString]
  refine lexes_of_cutLexeme fun rest hrest => ?_
  have hquote : rest.head? ≠ some '\'' := fun h => (not_of_isBreak (hrest _ h)).2.2.2 rfl
  rw [List.append_assoc, List.singleton_append]
  simp [cutLexeme, readString_escaped s.toList hquote, decodeString_escaped]

/-- A name in backquotes is one token that holds it. -/
theorem spells_identifier (name : String) :
    SpellsClosed (quoteIdentifier name).toList [.identifier name] := by
  refine ⟨[⟨(quoteIdentifier name).toList, some (.identifier name)⟩], ?_, rfl⟩
  rw [toList_quoteIdentifier]
  refine lexesClosed_of_cutLexeme fun rest => ?_
  rw [List.append_assoc, List.singleton_append]
  simp [cutLexeme, readQuoted_escaped, unescape_escaped]

/-! ## Fixed text -/

theorem spells_blank : SpellsClosed [' '] [] := ⟨[blank], lexes_blank, rfl⟩

/-- Is the text a word? -/
def isWord : List Char → Bool
  | [] => false
  | c :: cs => !c.isDigit && (c :: cs).all isWordChar

theorem lexes_of_isWord {w : String} (h : isWord w.toList = true) : Lexes w.toList [word w] := by
  obtain ⟨c, cs, hw⟩ : ∃ c cs, w.toList = c :: cs := by
    cases hw : w.toList with
    | nil => rw [hw] at h; simp [isWord] at h
    | cons c cs => exact ⟨c, cs, rfl⟩
  rw [hw, isWord, Bool.and_eq_true, Bool.not_eq_true', List.all_eq_true] at h
  have hword := lexes_word h.1 h.2
  rwa [← hw, String.ofList_toList] at hword

theorem spells_word {w : String} (h : isWord w.toList = true) : Spells w.toList [.word w] :=
  ⟨[word w], lexes_of_isWord h, rfl⟩

/-- Words with a blank in front of each. -/
def phrase (words : List String) : List Char := words.flatMap fun w => ' ' :: w.toList

theorem breaks_phrase (words : List String) : Breaks (phrase words) := by
  cases words with
  | nil => exact breaks_nil
  | cons w words => exact breaks_cons rfl _

theorem spells_phrase {words : List String} (h : ∀ w ∈ words, isWord w.toList = true) :
    Spells (phrase words) (words.map .word) := by
  induction words with
  | nil => exact ⟨[], lexesClosed_nil.lexes, rfl⟩
  | cons w words ih =>
    have hw := spells_word (h w List.mem_cons_self)
    have hwords := ih fun v hv => h v (List.mem_cons_of_mem _ hv)
    exact spells_blank.append_spells (hw.append hwords (breaks_phrase words))

theorem spells_mark {c : Char} (h : c ∈ ['(', ')', '[', ']', ',', '?']) :
    SpellsClosed [c] [.punctuation (String.ofList [c])] :=
  ⟨[mark (String.ofList [c])], lexes_closedMark h, rfl⟩

/-- A function's name and the parenthesis before its arguments. -/
theorem spells_call {w : String} (h : isWord w.toList = true) :
    SpellsClosed (w ++ "(").toList [.word w, .punctuation "("] := by
  rw [String.toList_append]
  exact (spells_word h).append_closed (spells_mark (c := '(') (by decide)) (by decide)
    (breaks_cons rfl _)

theorem spells_comma : SpellsClosed ", ".toList [.punctuation ","] :=
  (spells_mark (c := ',') (by decide)).append spells_blank

/-- A comparison's symbol between blanks. -/
theorem spells_symbol (comparison : Comparison) (hc : comparison ≠ .contains)
    (hn : comparison ≠ .notContains) :
    SpellsClosed (" " ++ comparison.symbol ++ " ").toList [.punctuation comparison.symbol] := by
  have hsymbol : Spells comparison.symbol.toList [.punctuation comparison.symbol] := by
    cases comparison with
    | equal => exact ⟨[mark "="], lexes_mark (c := '=') (by decide), rfl⟩
    | notEqual => exact ⟨[mark "!="], (lexes_doubleMark (c := '!') (by decide)).lexes, rfl⟩
    | contains => exact absurd rfl hc
    | notContains => exact absurd rfl hn
    | greater => exact ⟨[mark ">"], lexes_mark (c := '>') (by decide), rfl⟩
    | less => exact ⟨[mark "<"], lexes_mark (c := '<') (by decide), rfl⟩
    | greaterOrEqual => exact ⟨[mark ">="], (lexes_doubleMark (c := '>') (by decide)).lexes, rfl⟩
    | lessOrEqual => exact ⟨[mark "<="], (lexes_doubleMark (c := '<') (by decide)).lexes, rfl⟩
  rw [String.toList_append, String.toList_append]
  exact (spells_blank.append_spells hsymbol).append_closed spells_blank (by decide)
    (breaks_cons rfl _)

/-- The end of a search: how its result is tested. -/
theorem spells_test {c : Char} (hc : c ∈ ['=', '<', '>']) :
    Spells (")" ++ (" " ++ String.ofList [c] ++ " 0")).toList
      [.punctuation ")", .punctuation (String.ofList [c]), .number "0"] := by
  have hnumber : Spells "0".toList [.number "0"] :=
    ⟨[number "0"], lexes_number ⟨['0'], by decide, List.all_eq_true.mp rfl, .inl rfl⟩, rfl⟩
  have htest : Spells (String.ofList [c]).toList [.punctuation (String.ofList [c])] := by
    rw [String.toList_ofList]
    exact ⟨[mark (String.ofList [c])], lexes_mark hc, rfl⟩
  have hrest := htest.append (spells_blank.append_spells hnumber) (breaks_cons rfl _)
  have := (spells_mark (c := ')') (by decide)).append_spells (spells_blank.append_spells hrest)
  simpa using this

/-! ## Numbers -/

theorem isNumeral_repr (n : Nat) : IsNumeral (Nat.repr n).toList := by
  rw [Nat.toList_repr]
  exact ⟨_, Nat.toDigits_ne_nil,
    fun _ h => Nat.isDigit_of_mem_toDigits (by decide) (by decide) h, .inl rfl⟩

theorem isDigit_zeros (n : Nat) : ∀ c ∈ Layout.zeros n, c.isDigit = true := by
  intro c hc
  rw [List.eq_of_mem_replicate hc]
  rfl

/-- Digits with a point among them, or zeros around them, are a number. -/
theorem isNumeral_place {ds : List Char} (hne : ds ≠ []) (hds : ∀ c ∈ ds, c.isDigit = true)
    (point : Int) : IsNumeral (Layout.place false ds point) := by
  unfold Layout.place
  split
  · refine ⟨['0'], by decide, List.all_eq_true.mp rfl,
      .inr ⟨Layout.zeros (-point).toNat ++ ds, ?_, rfl⟩⟩
    exact List.forall_mem_append.mpr ⟨isDigit_zeros _, hds⟩
  · rename_i hpoint
    split
    · refine ⟨ds ++ Layout.zeros (point.toNat - ds.length), by simp [hne], ?_, .inl (by simp)⟩
      exact List.forall_mem_append.mpr ⟨hds, isDigit_zeros _⟩
    · refine ⟨ds.take point.toNat, ?_, fun c hc => hds c (List.mem_of_mem_take hc),
        .inr ⟨ds.drop point.toNat, fun c hc => hds c (List.mem_of_mem_drop hc), rfl⟩⟩
      rw [ne_eq, List.take_eq_nil_iff, not_or]
      exact ⟨by omega, hne⟩

/-- A finite number is written as digits, with a point among them or not. -/
theorem isNumeral_magnitude (x : Binary64) : IsNumeral (Layout.plain.magnitude x) := by
  unfold Layout.magnitude
  generalize x.shortest Layout.plain.tie = digits
  obtain ⟨coefficient, exponent⟩ := digits
  dsimp only
  split
  · exact isNumeral_place (by decide) (List.all_eq_true.mp rfl) 1
  · rename_i hne
    refine isNumeral_place (by simpa using hne) (fun c hc => ?_) _
    have hmem := (List.dropWhile_suffix _).subset (List.mem_reverse.mp hc)
    exact Nat.isDigit_of_mem_toDigits (by decide) (by decide) (List.mem_reverse.mp hmem)

theorem spells_numeral {cs : List Char} (h : IsNumeral cs) :
    Spells cs [.number (String.ofList cs)] :=
  ⟨[number (String.ofList cs)], lexes_number h, rfl⟩

/-- A sign in front of a number or a word. -/
theorem spells_sign {cs : List Char} {t : Token} (negative : Bool) (h : Spells cs [t])
    (hcs : ∃ c tail, isWordChar c = true ∧ cs = c :: tail) :
    Spells (if negative then '-' :: cs else cs) (signTokens negative ++ [t]) := by
  cases negative with
  | false => exact h
  | true =>
    obtain ⟨ls, hls, ht⟩ := h
    obtain ⟨c, tail, hc, rfl⟩ := hcs
    exact ⟨mark "-" :: ls, lexes_minus hc hls, by simp [mark, signTokens, ht]⟩

theorem IsNumeral.startsWithWordChar {cs : List Char} (h : IsNumeral cs) :
    ∃ c tail, isWordChar c = true ∧ cs = c :: tail := by
  obtain ⟨d, tail, hd, rfl⟩ := h.exists_cons
  exact ⟨d, tail, isWordChar_of_isDigit hd, rfl⟩

theorem spells_integer (i : Int) :
    Spells (Decimal.integerText i).toList (signTokens (i < 0) ++ [.number (Nat.repr i.natAbs)]) := by
  have hnumeral := isNumeral_repr i.natAbs
  have h := spells_sign (decide (i < 0)) (spells_numeral hnumeral) hnumeral.startsWithWordChar
  rw [String.ofList_toList] at h
  by_cases hi : i < 0 <;> simpa [Decimal.integerText, hi] using h

theorem spells_float (x : Binary64) :
    Spells (Layout.plain.write x).toList (literalTokens (.float x)) := by
  by_cases hnan : x.isNaN = true
  · rw [Layout.write, literalTokens, if_pos hnan, if_pos hnan]
    exact spells_word (by decide)
  rw [Layout.write, literalTokens, if_neg hnan, if_neg hnan]
  dsimp only
  rw [String.toList_ofList]
  by_cases hx : x.isFinite = true
  · have hnumeral := isNumeral_magnitude x
    simpa only [hx, if_true] using
      spells_sign x.negative (spells_numeral hnumeral) hnumeral.startsWithWordChar
  · have hword : Spells ['i', 'n', 'f'] [.word "inf"] := spells_word (w := "inf") (by decide)
    simpa only [hx, if_false, Bool.false_eq_true] using
      spells_sign x.negative hword ⟨'i', ['n', 'f'], rfl, rfl⟩

/-! ## Rows of texts -/

/-- The lexemes of a text that can be cut. -/
def lexemesOf (text : List Char) : List Lexeme := (lexemes text).getD []

theorem Spells.lexes {text : List Char} {ts : List Token} (h : Spells text ts) :
    Lexes text (lexemesOf text) ∧ (lexemesOf text).filterMap Lexeme.token = ts := by
  obtain ⟨ls, hls, ht⟩ := h
  rw [lexemesOf, hls.lexemes_eq, Option.getD_some]
  exact ⟨hls, ht⟩

theorem toList_render_cons (mode : Mode) (part : Part) (parts : List Part) :
    (render mode (part :: parts)).toList =
      (part.render mode).toList ++ (render mode parts).toList := by
  rw [render, String.toList_append]

theorem toList_render_append (mode : Mode) (as bs : List Part) :
    (render mode (as ++ bs)).toList = (render mode as).toList ++ (render mode bs).toList := by
  rw [render_append, String.toList_append]

theorem toList_render_singleton (mode : Mode) (part : Part) :
    (render mode [part]).toList = (part.render mode).toList := by
  rw [render_singleton]

/-- Rows with a separator between them are cut row by row. -/
theorem lexes_separate {α : Type} (mode : Mode) {separator : String} {sep : List Lexeme}
    (hsep : LexesClosed separator.toList sep) (hne : separator.toList ≠ [])
    (hbreak : Breaks separator.toList) (parts : α → List Part) (row : α → List Lexeme)
    (as : List α) (h : ∀ a ∈ as, Lexes (render mode (parts a)).toList (row a)) :
    Lexes (render mode (separate separator (as.map parts))).toList
      (List.intercalate sep (as.map row)) := by
  induction as with
  | nil => exact lexesClosed_nil.lexes
  | cons a as ih =>
    have ha := h a List.mem_cons_self
    have has := ih fun b hb => h b (List.mem_cons_of_mem _ hb)
    cases as with
    | nil => simpa [separate] using ha
    | cons b as =>
      rw [separate, List.map_cons, List.map_cons, List.intercalate_cons_cons, toList_render_append,
        toList_render_append, toList_render_singleton, List.map_cons, List.map_cons,
        List.intercalate_cons_cons]
      exact (ha.append_closed hsep hne hbreak).append_lexes has

theorem spells_listed {α : Type} (mode : Mode) (parts : α → List Part) (row : α → List Token)
    (as : List α) (h : ∀ a ∈ as, Spells (render mode (parts a)).toList (row a)) :
    Spells (render mode (separate ", " (as.map parts))).toList (listed (as.map row)) := by
  have hcomma : LexesClosed ", ".toList [mark ",", blank] :=
    (lexes_closedMark (c := ',') (by decide)).append lexes_blank
  refine ⟨_, lexes_separate mode hcomma (by decide) (breaks_cons rfl _) parts
    (fun a => lexemesOf (render mode (parts a)).toList) as fun a ha => (h a ha).lexes.1, ?_⟩
  rw [Arrangement.apply_intercalate rfl fun _ _ => List.filterMap_append, List.map_map, listed]
  congr 1
  exact List.map_congr_left fun a ha => (h a ha).lexes.2

/-! ## Conditions -/

/-- How a field is read. -/
theorem spells_access (mode : Mode) (schema : Option Schema) (f : Field) :
    SpellsClosed (render mode (access schema f)).toList (accessTokens schema f) := by
  cases f with
  | simple name =>
    rw [access, toList_render_singleton]
    exact spells_identifier name
  | nested base path =>
    rw [access, accessTokens]
    split
    · have hkey := (spells_string (String.intercalate "." path)).append_closed
        (spells_mark (c := ']') (by decide)) (by decide) (breaks_cons rfl _)
      have h := ((spells_identifier base).append (spells_mark (c := '[') (by decide))).append hkey
      simpa [render, Part.render] using h
    · have hsegments := spells_listed mode (fun segment => [.string segment])
        (fun segment => [.string segment]) path fun segment _ => by
          rw [toList_render_singleton]
          exact spells_string segment
      have hpath := hsegments.append_closed (spells_mark (c := ')') (by decide)) (by decide)
        (breaks_cons rfl _)
      have hcall := ((spells_call (w := "JSONExtractString") (by decide)).append
        (spells_identifier base)).append spells_comma
      have h := hcall.append hpath
      rw [toList_render_append, toList_render_append, List.append_assoc]
      simpa [render, Part.render] using h

theorem spells_literal (value : Literal) :
    Spells (literal value).toList (literalTokens value) := by
  cases value with
  | string s => exact spells_string s
  | integer i => exact spells_integer i
  | float x => exact spells_float x
  | boolean b => cases b <;> exact spells_word (by decide)
  | null => exact spells_word (w := "NULL") (by decide)

/-- A value that is not null: in place, or a placeholder. -/
theorem spells_value (mode : Mode) {value : Literal} (h : value ≠ .null) :
    Spells ((Part.operand value).render mode).toList (operandTokens mode value) := by
  cases mode with
  | inline =>
    have htokens : operandTokens .inline value = literalTokens value := by cases value <;> rfl
    rw [htokens]
    exact spells_literal value
  | parameterized =>
    have htokens : operandTokens .parameterized value = [.punctuation "?"] := by
      cases value <;> first | rfl | exact absurd rfl h
    rw [htokens, Part.render]
    exact (spells_mark (c := '?') (by decide)).spells

theorem spells_operand (mode : Mode) (value : Literal) :
    Spells ((operand value).render mode).toList (operandTokens mode value) := by
  by_cases h : value = .null
  · subst h
    cases mode <;> exact spells_word (w := "NULL") (by decide)
  · have hop : operand value = .operand value := by cases value <;> simp_all [operand]
    rw [hop]
    exact spells_value mode h

/-- The search for a text in a field. -/
theorem spells_search (mode : Mode) (schema : Option Schema) (f : Field) (value : Literal)
    {c : Char} (hc : c ∈ ['=', '<', '>']) :
    Spells (render mode (search (access schema f) value (" " ++ String.ofList [c] ++ " 0"))).toList
      (searchTokens mode (accessTokens schema f) value (String.ofList [c])) := by
  have hcall := (spells_call (w := "positionCaseInsensitive") (by decide)).append
    (spells_access mode schema f)
  have hne : Literal.string value.text ≠ .null := by simp
  have hvalue := (spells_value mode hne).append (spells_test hc)
    (by rw [String.toList_append]; exact breaks_cons rfl _)
  have h := (hcall.append spells_comma).append_spells hvalue
  rw [search, toList_render_append, toList_render_append]
  simpa [render, Part.render, searchTokens] using h

/-- The comparison of a field with a value, by an operator that does not search. -/
theorem spells_compared (mode : Mode) (schema : Option Schema) (f : Field) (value : Literal)
    {comparison : Comparison} (hc : comparison ≠ .contains) (hn : comparison ≠ .notContains) :
    Spells (render mode (compared (access schema f) comparison value)).toList
      (accessTokens schema f ++ [.punctuation comparison.symbol] ++ operandTokens mode value) := by
  have h := ((spells_access mode schema f).append (spells_symbol comparison hc hn)).append_spells
    (spells_operand mode value)
  rw [compared, toList_render_append]
  simpa [render, Part.render] using h

/-- The text of a condition is cut into its tokens. -/
theorem spells_condition (mode : Mode) (schema : Option Schema) (c : LogQuery.Condition) :
    Spells (render mode (condition schema c)).toList (conditionTokens mode schema c) := by
  obtain ⟨field, comparison, value, quoted⟩ := c
  have hfield := spells_access mode schema field
  cases comparison with
  | equal =>
    cases value with
    | null =>
      rw [condition, toList_render_append, toList_render_singleton, Part.render,
        show " IS NULL".toList = phrase ["IS", "NULL"] from rfl]
      exact hfield.append_spells (spells_phrase (by decide))
    | _ => exact spells_compared mode schema field _ (by decide) (by decide)
  | notEqual =>
    cases value with
    | null =>
      rw [condition, toList_render_append, toList_render_singleton, Part.render,
        show " IS NOT NULL".toList = phrase ["IS", "NOT", "NULL"] from rfl]
      exact hfield.append_spells (spells_phrase (by decide))
    | _ => exact spells_compared mode schema field _ (by decide) (by decide)
  | contains => exact spells_search mode schema field value (c := '>') (by decide)
  | notContains => exact spells_search mode schema field value (c := '=') (by decide)
  | _ => exact spells_compared mode schema field _ (by simp) (by simp)

/-! ## Filters -/

/-- How the lexemes of a filter stand in a row, given those of its conditions. -/
def lexemeArrangement (leaf : LogQuery.Condition → List Lexeme) : Arrangement Lexeme :=
  ⟨leaf, fun op => [blank, word (connectiveWord op), blank], [mark "("], [mark ")"]⟩

theorem lexes_connective (op : Connective) :
    LexesClosed (connective op).toList [blank, word (connectiveWord op), blank] := by
  have hword : Lexes (connectiveWord op).toList [word (connectiveWord op)] := by
    cases op <;> exact lexes_of_isWord (by decide)
  have h := (lexes_blank.append_lexes hword).append_closed lexes_blank (by decide)
    (breaks_cons rfl _)
  cases op <;> exact h

theorem lexes_enclose (mode : Mode) (schema : Option Schema)
    (leaf : LogQuery.Condition → List Lexeme) {parts : List Part} {ls : List Lexeme}
    (h : Lexes (render mode parts).toList ls) :
    Lexes (render mode ((partArrangement schema).enclose parts)).toList
      ((lexemeArrangement leaf).enclose ls) := by
  have hopen : LexesClosed "(".toList [mark "("] := lexes_closedMark (c := '(') (by decide)
  have hclose : Lexes ")".toList [mark ")"] := (lexes_closedMark (c := ')') (by decide)).lexes
  have hbreak : Breaks ")".toList := breaks_cons rfl _
  rw [Arrangement.enclose, toList_render_append, toList_render_append]
  show Lexes ((render mode [.fixed "("]).toList ++ _ ++ (render mode [.fixed ")"]).toList) _
  rw [toList_render_singleton, toList_render_singleton]
  exact (hopen.append_lexes h).append hclose hbreak

/-- The children of a connective are cut one by one. -/
theorem lexes_joinedRows (mode : Mode) (schema : Option Schema)
    (leaf : LogQuery.Condition → List Lexeme) (op : Connective) {children : List Filter}
    (h : ∀ child ∈ children, Lexes (render mode ((partArrangement schema).row child)).toList
      ((lexemeArrangement leaf).row child)) :
    Lexes (render mode ((partArrangement schema).joinedRows op children)).toList
      ((lexemeArrangement leaf).joinedRows op children) := by
  refine lexes_separate mode (lexes_connective op) ?_ ?_ _ _ children fun child hmem => ?_
  · cases op <;> decide
  · cases op <;> exact breaks_cons rfl _
  · rw [Arrangement.childRow, Arrangement.childRow]
    split
    · exact lexes_enclose mode schema leaf (h child hmem)
    · exact h child hmem

/-- The lexemes of a condition. -/
def conditionLexemes (mode : Mode) (schema : Option Schema) (c : LogQuery.Condition) :
    List Lexeme :=
  lexemesOf (render mode (condition schema c)).toList

/-- A filter is cut as its tree is built, down to the texts of its conditions. -/
theorem lexes_filter (mode : Mode) (schema : Option Schema) (f : Filter) :
    Lexes (render mode (filter schema f)).toList
      ((lexemeArrangement (conditionLexemes mode schema)).row f) := by
  rw [filter]
  induction f using Filter.byChildren with
  | condition c => exact (spells_condition mode schema c).lexes.1
  | logical op children ih =>
    rw [Arrangement.row_logical, Arrangement.row_logical]
    exact lexes_joinedRows mode schema _ op ih
  | group children ih =>
    rw [Arrangement.row_group, Arrangement.row_group]
    exact lexes_enclose mode schema _ (lexes_joinedRows mode schema _ .and ih)

theorem tokens_conditionLexemes (mode : Mode) (schema : Option Schema) (c : LogQuery.Condition) :
    (conditionLexemes mode schema c).filterMap Lexeme.token = conditionTokens mode schema c :=
  (spells_condition mode schema c).lexes.2

/-- The text of a filter is cut into its tokens. -/
theorem spells_filter (mode : Mode) (schema : Option Schema) (f : Filter) :
    Spells (render mode (filter schema f)).toList (filterTokens mode schema f) := by
  refine ⟨_, lexes_filter mode schema f, ?_⟩
  rw [Arrangement.apply_row rfl fun _ _ => List.filterMap_append]
  have harrangement : (lexemeArrangement (conditionLexemes mode schema)).map
      (·.filterMap Lexeme.token) = tokenArrangement mode schema := by
    simp only [Arrangement.map, lexemeArrangement, tokens_conditionLexemes]
    rfl
  rw [harrangement, filterTokens]

end LogQuery.Sql
