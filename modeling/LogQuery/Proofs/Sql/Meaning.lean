import LogQuery.Proofs.Sql.Predicate
import LogQuery.Proofs.Sql.Tokens

/-!
# The meaning of a condition

The text written for a filter is read as a predicate with the filter's conditions as its comparisons
and with the filter's truth. Three steps lead there:

* `readsAs_condition`: the text of a condition is taken for one comparison;
* `readsAs_filter`: so the text of a filter is taken for a row of items arranged by its tree;
* `adds_child`, `adds_joinedRows`: reading such a row adds the filter to what was read before it.

Parentheses stand wherever a child joins its own children with the other connective, so between two
parentheses only one connective occurs, and the reader's precedence never regroups anything.
-/

namespace LogQuery.Sql

/-! ## One comparison -/

/-- Some tokens leave a comparison at the depth where they find it. -/
def Keeps (ts : List Token) : Prop := ∀ depth, depthAfter depth ts = some depth

theorem Keeps.append {as bs : List Token} (ha : Keeps as) (hb : Keeps bs) : Keeps (as ++ bs) := by
  intro depth
  rw [depthAfter_append, ha, Option.bind_some, hb]

/-- Tokens that are no items of their own leave the depth as it is. -/
theorem keeps_of_plain {ts : List Token} (h : ∀ t ∈ ts, Item.ofToken? t = none) : Keeps ts := by
  intro depth
  induction ts with
  | nil => rfl
  | cons t ts ih =>
    have ht := h t List.mem_cons_self
    have hopen : t ≠ .punctuation "(" := by rintro rfl; cases ht
    have hclose : t ≠ .punctuation ")" := by rintro rfl; cases ht
    have hend : Item.ending? depth t = none := by simp [Item.ending?, ht]
    rw [depthAfter, hend, nested, if_neg hopen, if_neg hclose]
    exact ih fun u hu => h u (List.mem_cons_of_mem _ hu)

/-- The parentheses of a call close what they open. -/
theorem keeps_call {ts : List Token} (h : Keeps ts) :
    Keeps ([.punctuation "("] ++ ts ++ [.punctuation ")"]) := by
  intro depth
  have hopen : depthAfter depth [.punctuation "("] = some (depth + 1) := by
    simp [depthAfter, Item.ending?, nested]
  have hclose : depthAfter (depth + 1) [.punctuation ")"] = some depth := by
    simp [depthAfter, Item.ending?, nested]
  rw [depthAfter_append, depthAfter_append, hopen, Option.bind_some, h, Option.bind_some, hclose]

theorem keeps_segments (path : List String) :
    Keeps (listed (path.map fun segment => [.string segment])) := by
  induction path with
  | nil => exact fun _ => rfl
  | cons segment path ih =>
    have hsegment : Keeps [.string segment] := keeps_of_plain (by simp [Item.ofToken?])
    cases path with
    | nil => exact hsegment
    | cons next path =>
      have hcomma : Keeps [.punctuation ","] := keeps_of_plain (by simp [Item.ofToken?])
      rw [listed, List.map_cons, List.map_cons, List.intercalate_cons_cons]
      exact (hsegment.append hcomma).append ih

theorem keeps_access (schema : Option Schema) (f : Field) : Keeps (accessTokens schema f) := by
  cases f with
  | simple name => exact keeps_of_plain (by simp [accessTokens, Item.ofToken?])
  | nested base path =>
    rw [accessTokens]
    split
    · exact keeps_of_plain (by simp [Item.ofToken?])
    · have hname : Keeps [.word "JSONExtractString"] := keeps_of_plain (by decide)
      have hbase : Keeps [.identifier base, .punctuation ","] :=
        keeps_of_plain (by simp [Item.ofToken?])
      have h := hname.append (keeps_call (hbase.append (keeps_segments path)))
      simpa using h

theorem keeps_operand (mode : Mode) (value : Literal) : Keeps (operandTokens mode value) := by
  refine keeps_of_plain ?_
  have hsign : ∀ negative, ∀ t ∈ signTokens negative, Item.ofToken? t = none := by decide
  have hliteral : ∀ t ∈ literalTokens value, Item.ofToken? t = none := by
    cases value with
    | string s => simp [literalTokens, Item.ofToken?]
    | integer i =>
      refine List.forall_mem_append.mpr ⟨hsign _, ?_⟩
      simp [Item.ofToken?]
    | float x =>
      rw [literalTokens]
      cases x.isNaN
      · refine List.forall_mem_append.mpr ⟨hsign _, ?_⟩
        cases x.isFinite
        · exact (by decide : ∀ t ∈ [Token.word "inf"], Item.ofToken? t = none)
        · simp [Item.ofToken?]
      · exact (by decide : ∀ t ∈ [Token.word "NaN"], Item.ofToken? t = none)
    | boolean b => cases b <;> decide
    | null => decide
  cases mode with
  | inline => cases value <;> exact hliteral
  | parameterized =>
    cases value with
    | null => exact hliteral
    | _ => exact (by decide : ∀ t ∈ [Token.punctuation "?"], Item.ofToken? t = none)

theorem keeps_search (mode : Mode) (schema : Option Schema) (f : Field) (value : Literal)
    {test : String} (h : ∀ t ∈ [Token.punctuation test, .number "0"], Item.ofToken? t = none) :
    Keeps (searchTokens mode (accessTokens schema f) value test) := by
  have hname : Keeps [.word "positionCaseInsensitive"] := keeps_of_plain (by decide)
  have hcomma : Keeps [.punctuation ","] := keeps_of_plain (by decide)
  have hargs := ((keeps_access schema f).append hcomma).append
    (keeps_operand mode (.string value.text))
  have h := (hname.append (keeps_call hargs)).append (keeps_of_plain h)
  simpa [searchTokens] using h

/-- No token of a condition ends a comparison. -/
theorem keeps_condition (mode : Mode) (schema : Option Schema) (c : LogQuery.Condition) :
    Keeps (conditionTokens mode schema c) := by
  obtain ⟨field, comparison, value, quoted⟩ := c
  have hfield := keeps_access schema field
  have hplain : Keeps [.punctuation comparison.symbol] :=
    keeps_of_plain (by cases comparison <;> decide)
  have hcompared := (hfield.append hplain).append (keeps_operand mode value)
  cases comparison with
  | equal =>
    cases value with
    | null => exact hfield.append (keeps_of_plain (by decide))
    | _ => exact hcompared
  | notEqual =>
    cases value with
    | null => exact hfield.append (keeps_of_plain (by decide))
    | _ => exact hcompared
  | contains => exact keeps_search mode schema field value (by decide)
  | notContains => exact keeps_search mode schema field value (by decide)
  | _ => exact hcompared

theorem accessTokens_starts (schema : Option Schema) (f : Field) :
    ∃ t ts, accessTokens schema f = t :: ts ∧ Item.ofToken? t = none := by
  cases f with
  | simple name => exact ⟨_, _, rfl, by simp [Item.ofToken?]⟩
  | nested base path =>
    rw [accessTokens]
    split
    · exact ⟨_, _, rfl, by simp [Item.ofToken?]⟩
    · exact ⟨_, _, rfl, by decide⟩

/-- The first token of a condition starts a comparison. -/
theorem conditionTokens_starts (mode : Mode) (schema : Option Schema) (c : LogQuery.Condition) :
    ∃ t ts, conditionTokens mode schema c = t :: ts ∧ Item.ofToken? t = none := by
  obtain ⟨t, ts, haccess, ht⟩ := accessTokens_starts schema c.field
  unfold conditionTokens
  rw [haccess]
  dsimp only
  split
  · exact ⟨t, _, rfl, ht⟩
  · exact ⟨t, _, rfl, ht⟩
  · exact ⟨_, _, rfl, by decide⟩
  · exact ⟨_, _, rfl, by decide⟩
  · exact ⟨t, _, rfl, ht⟩

/-- The text does not end in white space. -/
def EndsSolid (cs : List Char) : Prop := ∃ front c, cs = front ++ [c] ∧ c.isWhitespace = false

theorem EndsSolid.append {b : List Char} (h : EndsSolid b) (a : List Char) :
    EndsSolid (a ++ b) := by
  obtain ⟨front, c, rfl, hc⟩ := h
  exact ⟨a ++ front, c, by rw [List.append_assoc], hc⟩

theorem EndsSolid.trimmed_eq {cs : List Char} (h : EndsSolid cs) :
    trimmed cs = String.ofList cs := by
  obtain ⟨front, c, rfl, hc⟩ := h
  simp [trimmed, hc]

theorem endsSolid_of_forall {cs : List Char} (hne : cs ≠ [])
    (h : ∀ c ∈ cs, c.isWhitespace = false) : EndsSolid cs :=
  ⟨cs.dropLast, cs.getLast hne, (List.dropLast_concat_getLast hne).symm,
    h _ (List.getLast_mem hne)⟩

theorem endsSolid_null : EndsSolid "NULL".toList := ⟨['N', 'U', 'L'], 'L', rfl, rfl⟩

theorem IsNumeral.endsSolid {cs : List Char} (h : IsNumeral cs) : EndsSolid cs := by
  have hdigit : ∀ c : Char, c.isDigit = true → c.isWhitespace = false := fun c hc =>
    (ne_of_isWordChar (isWordChar_of_isDigit hc)).1
  obtain ⟨whole, hne, hwhole, rfl | ⟨fraction, hfraction, rfl⟩⟩ := h
  · exact endsSolid_of_forall hne fun c hc => hdigit c (hwhole c hc)
  · refine EndsSolid.append (endsSolid_of_forall (by simp) fun c hc => ?_) whole
    rcases List.mem_cons.mp hc with rfl | hc
    · rfl
    · exact hdigit c (hfraction c hc)

theorem endsSolid_sign {cs : List Char} (negative : Bool) (h : EndsSolid cs) :
    EndsSolid (if negative then '-' :: cs else cs) := by
  cases negative with
  | false => exact h
  | true => exact h.append ['-']

theorem endsSolid_literal (value : Literal) : EndsSolid (literal value).toList := by
  cases value with
  | string s =>
    rw [literal, toList_quoteString, ← List.cons_append]
    exact ⟨_, '\'', rfl, rfl⟩
  | integer i =>
    have h := endsSolid_sign (decide (i < 0)) (isNumeral_repr i.natAbs).endsSolid
    by_cases hi : i < 0 <;> simpa [literal, Literal.text, Decimal.integerText, hi] using h
  | float x =>
    show EndsSolid (Layout.plain.write x).toList
    by_cases hnan : x.isNaN = true
    · rw [Layout.write, if_pos hnan]
      exact ⟨['N', 'a'], 'N', rfl, rfl⟩
    rw [Layout.write, if_neg hnan]
    dsimp only
    rw [String.toList_ofList]
    by_cases hx : x.isFinite = true
    · simpa only [hx, if_true] using endsSolid_sign x.negative (isNumeral_magnitude x).endsSolid
    · have hinf : EndsSolid ['i', 'n', 'f'] := ⟨['i', 'n'], 'f', rfl, rfl⟩
      simpa only [hx, if_false, Bool.false_eq_true] using endsSolid_sign x.negative hinf
  | boolean b =>
    have htrue : EndsSolid "true".toList := ⟨['t', 'r', 'u'], 'e', rfl, rfl⟩
    have hfalse : EndsSolid "false".toList := ⟨['f', 'a', 'l', 's'], 'e', rfl, rfl⟩
    cases b
    · exact hfalse
    · exact htrue
  | null => exact endsSolid_null

theorem endsSolid_operand (mode : Mode) (value : Literal) :
    EndsSolid ((operand value).render mode).toList := by
  have hplaceholder : EndsSolid "?".toList := ⟨[], '?', rfl, rfl⟩
  cases value with
  | null => cases mode <;> exact endsSolid_null
  | _ =>
    cases mode with
    | inline => exact endsSolid_literal _
    | parameterized => exact hplaceholder

/-- The text of a condition does not end in white space. -/
theorem endsSolid_condition (mode : Mode) (schema : Option Schema) (c : LogQuery.Condition) :
    EndsSolid (render mode (condition schema c)).toList := by
  have hlast : ∀ parts part, EndsSolid (Part.render mode part).toList →
      EndsSolid (render mode (parts ++ [part])).toList := by
    intro parts part h
    rw [toList_render_append, toList_render_singleton]
    exact h.append _
  have hfixed : ∀ parts text, EndsSolid text.toList →
      EndsSolid (render mode (parts ++ [.fixed text])).toList :=
    fun parts text h => hlast parts (.fixed text) h
  have hsearch : ∀ field value test, EndsSolid (")" ++ test).toList →
      EndsSolid (render mode (search field value test)).toList := by
    intro field value test h
    have := hfixed ([.fixed "positionCaseInsensitive("] ++ field ++
      [.fixed ", ", .operand (.string value.text)]) (")" ++ test) h
    rwa [List.append_assoc] at this
  unfold condition
  dsimp only
  split
  · exact hfixed _ " IS NULL" ⟨" IS NUL".toList, 'L', rfl, rfl⟩
  · exact hfixed _ " IS NOT NULL" ⟨" IS NOT NUL".toList, 'L', rfl, rfl⟩
  · exact hsearch _ _ _ ⟨") > ".toList, '0', rfl, rfl⟩
  · exact hsearch _ _ _ ⟨") = ".toList, '0', rfl, rfl⟩
  · have := hlast (access schema c.field ++ [.fixed (" " ++ c.comparison.symbol ++ " ")])
      (operand c.value) (endsSolid_operand mode c.value)
    rwa [List.append_assoc] at this

/-- The text starts, and not with white space. -/
def StartsSolid (cs : List Char) : Prop := ∃ c rest, cs = c :: rest ∧ c.isWhitespace = false

theorem StartsSolid.append {a : List Char} (h : StartsSolid a) (b : List Char) :
    StartsSolid (a ++ b) := by
  obtain ⟨c, rest, rfl, hc⟩ := h
  exact ⟨c, rest ++ b, rfl, hc⟩

theorem startsSolid_access (mode : Mode) (schema : Option Schema) (f : Field) :
    StartsSolid (render mode (access schema f)).toList := by
  have hname : ∀ name, StartsSolid (quoteIdentifier name).toList := fun name =>
    ⟨'`', _, toList_quoteIdentifier name, rfl⟩
  have hcall : StartsSolid "JSONExtractString(".toList :=
    ⟨'J', "SONExtractString(".toList, rfl, rfl⟩
  cases f with
  | simple name =>
    rw [access, toList_render_singleton]
    exact hname name
  | nested base path =>
    rw [access]
    split
    · rw [toList_render_cons]
      exact (hname base).append _
    · rw [List.append_assoc, List.cons_append, toList_render_cons]
      exact hcall.append _

/-- The text of a condition does not start with white space. -/
theorem startsSolid_condition (mode : Mode) (schema : Option Schema) (c : LogQuery.Condition) :
    StartsSolid (render mode (condition schema c)).toList := by
  have haccess : ∀ parts, StartsSolid (render mode (access schema c.field ++ parts)).toList := by
    intro parts
    rw [toList_render_append]
    exact (startsSolid_access mode schema c.field).append _
  have hcall : StartsSolid "positionCaseInsensitive(".toList :=
    ⟨'p', "ositionCaseInsensitive(".toList, rfl, rfl⟩
  have hsearch : ∀ field value test,
      StartsSolid (render mode (search field value test)).toList := by
    intro field value test
    rw [search, List.append_assoc, List.singleton_append, toList_render_cons]
    exact hcall.append _
  unfold condition
  dsimp only
  split
  · exact haccess _
  · exact haccess _
  · exact hsearch _ _ _
  · exact hsearch _ _ _
  · exact haccess _

/-! ## Rows of items -/

/-- The lexemes `ls` make up the items `is`, before what ends a comparison. -/
def ReadsAs (ls : List Lexeme) (is : List Item) : Prop :=
  ∀ rest, Stops rest → items none (ls ++ rest) = (items none rest).map (is ++ ·)

/-- The text of a condition is taken for one comparison. -/
theorem readsAs_condition (mode : Mode) (schema : Option Schema) (c : LogQuery.Condition) :
    ReadsAs (conditionLexemes mode schema c) [.comparison (render mode (condition schema c))] := by
  intro rest hrest
  have hlexemes := (spells_condition mode schema c).lexes.1.lexemes_eq
  have hsource := source_of_lexemes hlexemes
  have htokens := tokens_conditionLexemes mode schema c
  have htrimmed := (endsSolid_condition mode schema c).trimmed_eq
  rw [String.ofList_toList] at htrimmed
  rw [← conditionLexemes] at hlexemes hsource
  obtain ⟨first, cs, htext, hfirst⟩ := startsSolid_condition mode schema c
  obtain ⟨l, ls, t, hls, ht⟩ := lexemes_starts hfirst (htext ▸ hlexemes)
  obtain ⟨t', ts, hstart, hplain⟩ := conditionTokens_starts mode schema c
  have hkeeps := keeps_condition mode schema c 0
  rw [hls, List.filterMap_cons_some ht, hstart] at htokens
  obtain ⟨rfl, rfl⟩ := List.cons.inj htokens
  -- The first token starts the comparison, and the others go on with it.
  have hdepth : depthAfter 0 (ls.filterMap Lexeme.token) = some 0 := by
    have hone : Keeps [t] := keeps_of_plain (by simpa using hplain)
    rw [hstart, ← List.singleton_append, depthAfter_append, hone, Option.bind_some] at hkeeps
    exact hkeeps
  have hcut : items none (l :: (ls ++ rest)) = items (some (0, l.source)) (ls ++ rest) := by
    simp only [items, ht, hplain]
  rw [hls, List.cons_append, hcut, items_within hdepth, ← List.flatMap_cons, ← hls, hsource, hrest,
    htrimmed]
  rfl

/-- How the items of a filter stand in a row, given the texts of its conditions. -/
def itemArrangement (text : LogQuery.Condition → String) : Arrangement Item :=
  ⟨fun c => [.comparison (text c)], fun op => [.connective op], [.opening], [.closing]⟩

theorem items_connective (op : Connective) (rest : List Lexeme) :
    items none ([blank, word (connectiveWord op), blank] ++ rest) =
      (items none rest).map (.connective op :: ·) := by
  cases op <;> rfl

theorem stops_connective (op : Connective) (rest : List Lexeme) :
    Stops ([blank, word (connectiveWord op), blank] ++ rest) := by
  intro text
  have hword : ∀ text, items (some (0, text)) (word (connectiveWord op) :: blank :: rest) =
      (items none rest).map (.comparison (trimmed text) :: .connective op :: ·) := by
    intro text
    cases op <;> rfl
  show items (some (0, text ++ blank.source)) (word (connectiveWord op) :: blank :: rest) = _
  rw [hword, trimmed_append_blank, items_connective, Option.map_map]
  rfl

theorem readsAs_nil : ReadsAs [] [] := by
  intro rest _
  simp

variable {leaf : LogQuery.Condition → List Lexeme} {text : LogQuery.Condition → String}

theorem ReadsAs.enclose {ls : List Lexeme} {is : List Item} (h : ReadsAs ls is) :
    ReadsAs ((lexemeArrangement leaf).enclose ls) ((itemArrangement text).enclose is) := by
  intro rest _
  show items none ((mark "(" :: ls ++ [mark ")"]) ++ rest) = _
  rw [List.append_assoc, List.cons_append, items_opening, List.singleton_append,
    h _ (stops_closing rest), items_closing, Option.map_map, Option.map_map]
  refine congrArg (Option.map · (items none rest)) (funext fun js => ?_)
  simp [Arrangement.enclose, itemArrangement]

theorem readsAs_joinedRows (op : Connective) {children : List Filter}
    (h : ∀ child ∈ children,
      ReadsAs ((lexemeArrangement leaf).row child) ((itemArrangement text).row child)) :
    ReadsAs ((lexemeArrangement leaf).joinedRows op children)
      ((itemArrangement text).joinedRows op children) := by
  have hchild : ∀ child ∈ children, ReadsAs ((lexemeArrangement leaf).childRow op child)
      ((itemArrangement text).childRow op child) := by
    intro child hmem
    rw [Arrangement.childRow, Arrangement.childRow]
    split
    · exact (h child hmem).enclose
    · exact h child hmem
  clear h
  induction children with
  | nil => exact readsAs_nil
  | cons child children ih =>
    have hfirst := hchild child List.mem_cons_self
    have hrest := ih fun other hmem => hchild other (List.mem_cons_of_mem _ hmem)
    cases children with
    | nil =>
      rw [Arrangement.joinedRows_singleton, Arrangement.joinedRows_singleton]
      exact hfirst
    | cons next children =>
      intro rest hstops
      rw [Arrangement.joinedRows_cons, Arrangement.joinedRows_cons, List.append_assoc,
        List.append_assoc]
      show items none (_ ++ ([blank, word (connectiveWord op), blank] ++ _)) = _
      rw [hfirst _ (stops_connective op _), items_connective, hrest _ hstops, Option.map_map,
        Option.map_map]
      refine congrArg (Option.map · (items none rest)) (funext fun js => ?_)
      simp [itemArrangement]

/-- The lexemes of a filter make up a row of items arranged by its tree. -/
theorem readsAs_filter (h : ∀ c, ReadsAs (leaf c) [.comparison (text c)]) (f : Filter) :
    ReadsAs ((lexemeArrangement leaf).row f) ((itemArrangement text).row f) := by
  induction f using Filter.byChildren with
  | condition c => exact h c
  | logical op children ih =>
    rw [Arrangement.row_logical, Arrangement.row_logical]
    exact readsAs_joinedRows op ih
  | group children ih =>
    rw [Arrangement.row_group, Arrangement.row_group]
    exact (readsAs_joinedRows .and ih).enclose

/-! ## Precedence -/

/-- `p` says what `q` says, if there is one, joined by `op` with comparisons `texts` of truth
`truth`. -/
structure Extends (op : Connective) (q : Option Predicate) (texts : List String)
    (truth : (Nat → Bool) → Nat → Bool) (p : Predicate) : Prop where
  comparisons_eq : p.comparisons = (q.elim [] Predicate.comparisons) ++ texts
  holds_eq : ∀ v n, p.holds v n =
    q.elim (truth v n) fun q => op.apply (q.holds v n) (truth v (n + q.comparisons.length))

/-- A predicate with the given comparisons and truth extends what it is joined to. -/
theorem Extends.joinedTo {op op' : Connective} {texts : List String}
    {truth : (Nat → Bool) → Nat → Bool} {p : Predicate} (h : Extends op' none texts truth p)
    (q : Option Predicate) : Extends op q texts truth (joinedTo op q p) := by
  obtain ⟨hcomparisons, hholds⟩ := h
  cases q with
  | none => exact ⟨hcomparisons, hholds⟩
  | some q =>
    refine ⟨congrArg (q.comparisons ++ ·) hcomparisons, fun v n => ?_⟩
    exact congrArg (op.apply (q.holds v n)) (hholds v _)

/-- What is joined first on the left may be joined first on the right. -/
theorem Extends.trans {op : Connective} {q : Option Predicate} {texts texts' : List String}
    {truth truth' : (Nat → Bool) → Nat → Bool} {p p' : Predicate}
    (h : Extends op q texts truth p) (h' : Extends op (some p) texts' truth' p') :
    Extends op q (texts ++ texts')
      (fun v n => op.apply (truth v n) (truth' v (n + texts.length))) p' := by
  refine ⟨?_, fun v n => ?_⟩
  · rw [h'.comparisons_eq, Option.elim_some, h.comparisons_eq, List.append_assoc]
  · rw [h'.holds_eq, Option.elim_some, h.holds_eq, h.comparisons_eq]
    cases q with
    | none => simp
    | some q => simp [Connective.apply_assoc, Nat.add_assoc]

/-- What an operand of `op` is joined to. -/
def Expecting.pending (e : Expecting) : Connective → Option Predicate
  | .and => e.conjunction
  | .or => e.disjunction

/-- What the operands of `op` have been joined to. -/
def Complete.total (c : Complete) : Connective → Predicate
  | .and => c.conjunction
  | .or => c.value

/-- No conjunction is open before an operand of `or`. -/
def Expecting.Ready (e : Expecting) (op : Connective) : Prop := op = .or → e.conjunction = none

/-- The operands of `and` leave the disjunction before them alone. -/
def Complete.Follows (c : Complete) (e : Expecting) (op : Connective) : Prop :=
  op = .and → c.disjunction = e.disjunction

theorem ready_start (op : Connective) : Expecting.start.Ready op := fun _ => rfl

theorem ready_next (c : Complete) (op : Connective) : (c.next op).Ready op := by
  rintro rfl
  rfl

theorem pending_next (c : Complete) (op : Connective) :
    (c.next op).pending op = some (c.total op) := by
  cases op <;> rfl

theorem Complete.Follows.trans {c c' : Complete} {e : Expecting} {op : Connective}
    (h : c.Follows e op) (h' : c'.Follows (c.next op) op) : c'.Follows e op := by
  rintro rfl
  exact (h' rfl).trans (h rfl)

/-- An operand with the given comparisons and truth extends what stands before it. -/
theorem extends_add {op op' : Connective} {e : Expecting} (hready : e.Ready op)
    {texts : List String} {truth : (Nat → Bool) → Nat → Bool} {p : Predicate}
    (h : Extends op' none texts truth p) :
    (e.add p).Follows e op ∧ Extends op (e.pending op) texts truth ((e.add p).total op) := by
  refine ⟨fun _ => rfl, ?_⟩
  cases op with
  | and => exact h.joinedTo e.conjunction
  | or =>
    have hadd : (e.add p).total .or = joinedTo .or e.disjunction p := by
      rw [Complete.total, Complete.value, Expecting.add, hready rfl]
      rfl
    rw [hadd]
    exact h.joinedTo e.disjunction

/-- From the start all that has been read is what the operands have been joined to. -/
theorem value_eq_total {c : Complete} {op : Connective} (h : c.Follows .start op) :
    c.value = c.total op := by
  cases op with
  | and =>
    rw [Complete.value, h rfl]
    rfl
  | or => rfl

/-- Reading `is` where an operand of `op` is expected adds comparisons `texts` of truth `truth`. -/
def Adds (op : Connective) (is : List Item) (texts : List String)
    (truth : (Nat → Bool) → Nat → Bool) : Prop :=
  ∀ outer e, e.Ready op → ∃ c, (Reader.expecting outer e).run is = some (.complete outer c) ∧
    c.Follows e op ∧ Extends op (e.pending op) texts truth (c.total op)

/-- What stands in parentheses is one operand, whatever it is joined with. -/
theorem Adds.enclose {op op' : Connective} {is : List Item} {texts : List String}
    {truth : (Nat → Bool) → Nat → Bool} (h : Adds op is texts truth) :
    Adds op' ((itemArrangement text).enclose is) texts truth := by
  intro outer e hready
  obtain ⟨c, hrun, hfollows, hextends⟩ := h (e :: outer) .start (ready_start op)
  have hvalue : Extends op none texts truth c.value := by
    rw [value_eq_total hfollows]
    cases op <;> exact hextends
  obtain ⟨hfollows', hextends'⟩ := extends_add hready hvalue
  refine ⟨e.add c.value, ?_, hfollows', hextends'⟩
  show (Reader.expecting outer e).run ([.opening] ++ is ++ [.closing]) = _
  rw [Reader.run_append, Reader.run_append]
  show (Option.bind ((Reader.expecting (e :: outer) .start).run is) _) = _
  rw [hrun]
  rfl

/-- Reading the children of `op` adds them one by one. -/
theorem adds_joinedRows (text : LogQuery.Condition → String) (op : Connective)
    {children : List Filter} (hne : children ≠ [])
    (h : ∀ child ∈ children, Adds op ((itemArrangement text).childRow op child)
      (child.conditions.map text) (fun v n => child.holds v n)) :
    Adds op ((itemArrangement text).joinedRows op children)
      ((Filter.conditionsOf children).map text) (fun v n => Filter.holdJoined v op n children) := by
  induction children with
  | nil => exact absurd rfl hne
  | cons child children ih =>
    have hfirst := h child List.mem_cons_self
    cases children with
    | nil =>
      rw [Arrangement.joinedRows_singleton]
      simpa only [Filter.conditionsOf, Filter.holdJoined, List.append_nil, Connective.apply_unit]
        using hfirst
    | cons next children =>
      have hrest := ih (by simp) fun other hmem => h other (List.mem_cons_of_mem _ hmem)
      intro outer e hready
      obtain ⟨c, hrun, hfollows, hextends⟩ := hfirst outer e hready
      obtain ⟨c', hrun', hfollows', hextends'⟩ := hrest outer (c.next op) (ready_next c op)
      rw [pending_next] at hextends'
      refine ⟨c', ?_, hfollows.trans hfollows', ?_⟩
      · rw [Arrangement.joinedRows_cons, Reader.run_append, Reader.run_append, hrun]
        exact hrun'
      · have := hextends.trans hextends'
        rwa [← List.map_append, List.length_map] at this

/-- Reading a child of `op` adds its conditions and its truth. -/
theorem adds_child (text : LogQuery.Condition → String) {f : Filter} (hf : f.isFilled = true)
    (op : Connective) :
    Adds op ((itemArrangement text).childRow op f) (f.conditions.map text)
      (fun v n => f.holds v n) := by
  induction f using Filter.byChildren generalizing op with
  | condition c =>
    intro outer e hready
    have hcomparison : Extends op none [text c] (fun v n => v n) (.comparison (text c)) :=
      ⟨rfl, fun _ _ => rfl⟩
    obtain ⟨hfollows, hextends⟩ := extends_add hready hcomparison
    exact ⟨e.add (.comparison (text c)), rfl, hfollows, hextends⟩
  | logical op' children ih =>
    rw [Filter.isFilled, Bool.and_eq_true, Filter.areFilled_iff] at hf
    have hrows := adds_joinedRows text op' (by simpa using hf.1)
      fun child hmem => ih child hmem (hf.2 child hmem) op'
    rw [Arrangement.childRow, Arrangement.row_logical, Filter.conditions]
    simp only [Filter.holds]
    by_cases hop : op' = op
    · subst hop
      simpa [Filter.needsParens] using hrows
    · simpa [Filter.needsParens, hop] using hrows.enclose
  | group children ih =>
    rw [Filter.isFilled, Bool.and_eq_true, Filter.areFilled_iff] at hf
    have hrows := adds_joinedRows text .and (by simpa using hf.1)
      fun child hmem => ih child hmem (hf.2 child hmem) .and
    rw [Arrangement.childRow, Arrangement.row_group, Filter.conditions]
    simp only [Filter.holds]
    simpa [Filter.needsParens] using hrows.enclose

/-- A filter that is no child needs no parentheses: it is one of a connective of its own. -/
theorem exists_needsParens_false (f : Filter) : ∃ op, f.needsParens op = false := by
  cases f with
  | logical op children => exact ⟨op, by simp [Filter.needsParens]⟩
  | _ => exact ⟨.and, rfl⟩

/-- The text of a filter is read as a predicate with its truth, whatever the truth of its conditions.
The comparisons of the predicate are the texts of the conditions in their order: those that their parts
spell, and that are written for each of them on its own. -/
theorem read_compile (mode : Mode) (schema : Option Schema) (f : Filter) (select : List Field)
    (hf : f.isFilled = true) :
    ∃ p, Predicate.read (compile mode schema ⟨some f, select⟩).sql = some p ∧
      p.comparisons = f.conditions.map (fun c => render mode (condition schema c)) ∧
      p.comparisons =
        f.conditions.map (fun c => (compile mode schema ⟨some (.condition c), []⟩).sql) ∧
      ∀ v, p.holds v 0 = f.holds v 0 := by
  have hlexemes := (lexes_filter mode schema f).lexemes_eq
  have hitems := readsAs_filter (readsAs_condition mode schema) f [] stops_nil
  rw [List.append_nil] at hitems
  obtain ⟨op, hparens⟩ := exists_needsParens_false f
  have hadds := adds_child (fun c => render mode (condition schema c)) hf op
  rw [Arrangement.childRow, if_neg (by simp [hparens])] at hadds
  obtain ⟨c, hrun, hfollows, hextends⟩ := hadds [] .start (ready_start op)
  rw [← value_eq_total hfollows] at hextends
  have hstart : Expecting.start.pending op = none := by cases op <;> rfl
  rw [hstart] at hextends
  have halone := hextends.comparisons_eq
  simp only [← sql_compile_condition mode schema _ []] at halone
  refine ⟨c.value, ?_, hextends.comparisons_eq, halone, fun v => hextends.holds_eq v 0⟩
  have hsome : items none [] = some [] := rfl
  rw [hsome, Option.map_some, List.append_nil] at hitems
  rw [compile_eq]
  show Predicate.read (render mode (filter schema f)) = _
  rw [Predicate.read, hlexemes]
  show (items none _).bind _ = _
  rw [hitems]
  show ((Reader.expecting [] .start).run _).bind _ = _
  rw [hrun]
  rfl

/-- A filter of both connectives, with a group, a node of one child, nested nodes of one connective,
quoted text that looks like more of it, and a not-a-number. -/
theorem read_compile_mixed :
    let nan : Binary64 := ⟨true, Binary64.infinityCode + 1, by decide⟩
    let f : Filter :=
      .logical .or [
        .logical .and [.condition ⟨.simple "a", .equal, .string "x' OR (1 = 1", true⟩,
          .logical .and [.condition ⟨.nested "b) AND (" ["c"], .contains, .null, false⟩]],
        .group [.logical .or [.condition ⟨.simple "d", .equal, .float nan, false⟩]],
        .logical .or [.condition ⟨.simple "`", .less, .integer (-1), false⟩]]
    f.isFilled = true ∧
    ∃ p, Predicate.read (compile .inline none ⟨some f, []⟩).sql = some p ∧
      p.comparisons = f.conditions.map (fun c => render .inline (condition none c)) ∧
      p.comparisons =
        f.conditions.map (fun c => (compile .inline none ⟨some (.condition c), []⟩).sql) ∧
      ∀ v, p.holds v 0 = f.holds v 0 := by
  intro nan f
  have hf : f.isFilled = true := by decide
  exact ⟨hf, read_compile .inline none f [] hf⟩

end LogQuery.Sql
