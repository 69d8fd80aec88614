import LogQuery.Proofs.Sql.Tokens

/-!
# Values handed over beside a condition

A condition is written with its values in place, or with a placeholder for each and the values
beside it. The two agree: the question marks outside quotes are as many as the values, and filling
these in gives the first text from the second. They do so at every stage of the writing, whatever has
been handed over before.

* `passes_string`, `passes_identifier`: a quoted text has no placeholders, whatever characters it
  holds;
* `scans_render`: the placeholders of a row of parts stand for its values, in their order;
* `all_isTidy_filter`: the fixed text of a filter opens no quote and looks like no placeholder;
* `fill_compile`: so the two texts of a query agree, by the parts that `writes_filter` writes.
-/

namespace LogQuery.Sql

/-! ## Placeholders -/

/-- Where a character of a condition stands. -/
inductive Place where
  | outside
  /-- In a text that `quote` opened. -/
  | within (quote : Char)
  /-- Behind a backslash in a text that `quote` opened. -/
  | escaped (quote : Char)
  deriving DecidableEq

namespace Place

/-- Where the next character stands. A quote doubled inside quotes closes and reopens them. -/
def next : Place → Char → Place
  | outside, c => if c = '\'' ∨ c = '`' then within c else outside
  | within quote, c =>
    if c = '\\' then escaped quote else if c = quote then outside else within quote
  | escaped quote, _ => within quote

/-- The number of placeholders in a text that starts at a place. -/
def placeholders : Place → List Char → Nat
  | _, [] => 0
  | place, c :: cs =>
    if place = outside ∧ c = '?' then placeholders (place.next c) cs + 1
    else placeholders (place.next c) cs

/-- The text with each placeholder replaced by the next of the values, as long as there are any. -/
def fill : Place → List Char → List (List Char) → List Char
  | _, [], _ => []
  | place, c :: cs, values =>
    if place = outside ∧ c = '?' then values.headD [c] ++ fill (place.next c) cs values.tail
    else c :: fill (place.next c) cs values

end Place

/-- The number of placeholders in a condition. -/
def placeholders (sql : String) : Nat := Place.outside.placeholders sql.toList

/-- The condition with each placeholder replaced by the next of the values. -/
def fill (sql : String) (values : List String) : String :=
  String.ofList (Place.outside.fill sql.toList (values.map String.toList))

/-! ## Texts one after the other -/

/-- A text that leads from one place to another, and becomes `filled` when its placeholders, as many
as there are values, are replaced by these. -/
def Scans (place : Place) (text : List Char) (values : List (List Char)) (filled : List Char)
    (place' : Place) : Prop :=
  ∀ rest more,
    place.placeholders (text ++ rest) = values.length + place'.placeholders rest ∧
    place.fill (text ++ rest) (values ++ more) = filled ++ place'.fill rest more

/-- A text without placeholders. -/
def Passes (place : Place) (text : List Char) (place' : Place) : Prop :=
  Scans place text [] text place'

theorem scans_nil (place : Place) : Scans place [] [] [] place :=
  fun _ _ => ⟨(Nat.zero_add _).symm, rfl⟩

theorem Scans.append {a b : List Char} {va vb : List (List Char)} {fa fb : List Char}
    {place place' place'' : Place} (ha : Scans place a va fa place')
    (hb : Scans place' b vb fb place'') : Scans place (a ++ b) (va ++ vb) (fa ++ fb) place'' := by
  intro rest more
  obtain ⟨hcount, hfill⟩ := ha (b ++ rest) (vb ++ more)
  obtain ⟨hcount', hfill'⟩ := hb rest more
  constructor
  · rw [List.append_assoc, hcount, hcount', List.length_append, Nat.add_assoc]
  · rw [List.append_assoc, List.append_assoc, hfill, hfill', List.append_assoc]

theorem Passes.append {a b : List Char} {place place' place'' : Place} (ha : Passes place a place')
    (hb : Passes place' b place'') : Passes place (a ++ b) place'' :=
  Scans.append ha hb

/-- A placeholder is replaced by its value. -/
theorem scans_placeholder (value : List Char) : Scans .outside ['?'] [value] value .outside :=
  fun _ _ => ⟨Nat.add_comm _ _, rfl⟩

/-- Any other character stays. -/
theorem passes_char (place : Place) (c : Char) (h : ¬ (place = .outside ∧ c = '?')) :
    Passes place [c] (place.next c) := by
  intro rest more
  show place.placeholders (c :: rest) = 0 + _ ∧ place.fill (c :: rest) more = c :: _
  rw [Place.placeholders, Place.fill, if_neg h, if_neg h, Nat.zero_add]
  exact ⟨rfl, rfl⟩

/-! ## Quoted text -/

theorem passes_within {quote c : Char} (hb : c ≠ '\\') (hq : c ≠ quote) :
    Passes (.within quote) [c] (.within quote) := by
  have h := passes_char (.within quote) c (by simp)
  rwa [Place.next, if_neg hb, if_neg hq] at h

theorem passes_opening {quote : Char} (h : quote = '\'' ∨ quote = '`') :
    Passes .outside [quote] (.within quote) := by
  have hne : quote ≠ '?' := by rcases h with rfl | rfl <;> decide
  have hopen := passes_char .outside quote (fun hc => hne hc.2)
  rwa [Place.next, if_pos h] at hopen

theorem passes_closing {quote : Char} (h : quote ≠ '\\') :
    Passes (.within quote) [quote] .outside := by
  have hclose := passes_char (.within quote) quote (by simp)
  rwa [Place.next, if_neg h, if_pos rfl] at hclose

/-- A backslash and the character behind it. -/
theorem passes_escaped (quote c : Char) : Passes (.within quote) ['\\', c] (.within quote) :=
  (passes_char (.within quote) '\\' (by simp)).append
    (passes_char (.escaped quote) c (by simp))

theorem passes_escapedInString (c : Char) :
    Passes (.within '\'') (escapedInString c) (.within '\'') := by
  unfold escapedInString
  split
  · exact passes_escaped _ _
  · rename_i hb
    split
    · -- the quotes close and open again
      exact (passes_closing (by decide)).append (passes_opening (.inl rfl))
    · rename_i hq
      exact passes_within hb hq

theorem passes_escapedInName (c : Char) :
    Passes (.within '`') (escapedInName c) (.within '`') := by
  unfold escapedInName
  split
  · exact passes_escaped _ _
  · rename_i h
    exact passes_within (fun hb => h (.inl hb)) (fun hq => h (.inr hq))

/-- A text between quotes, if what stands for each character of it stays between them. -/
theorem passes_quoted {quote : Char} (hquote : quote = '\'' ∨ quote = '`')
    {escape : Char → List Char} (h : ∀ c, Passes (.within quote) (escape c) (.within quote))
    (cs : List Char) : Passes .outside (quote :: (cs.flatMap escape ++ [quote])) .outside := by
  have hne : quote ≠ '\\' := by rcases hquote with rfl | rfl <;> decide
  have hbody : Passes (.within quote) (cs.flatMap escape) (.within quote) := by
    induction cs with
    | nil => exact scans_nil _
    | cons c cs ih =>
      rw [List.flatMap_cons]
      exact (h c).append ih
  exact (passes_opening hquote).append (hbody.append (passes_closing hne))

theorem passes_string (s : String) : Passes .outside (quoteString s).toList .outside := by
  rw [toList_quoteString]
  exact passes_quoted (.inl rfl) passes_escapedInString s.toList

theorem passes_identifier (name : String) :
    Passes .outside (quoteIdentifier name).toList .outside := by
  rw [toList_quoteIdentifier]
  exact passes_quoted (.inr rfl) passes_escapedInName name.toList

/-! ## Parts -/

/-- Does the text neither open a quote nor hold a placeholder? -/
def isPlain (text : List Char) : Bool := text.all fun c => c ≠ '\'' && c ≠ '`' && c ≠ '?'

theorem passes_plain {text : List Char} (h : isPlain text = true) :
    Passes .outside text .outside := by
  induction text with
  | nil => exact scans_nil .outside
  | cons c text ih =>
    simp only [isPlain, List.all_cons, Bool.and_eq_true, decide_eq_true_eq] at h
    obtain ⟨⟨⟨hsingle, hback⟩, hmark⟩, htext⟩ := h
    have hc := passes_char .outside c (fun hc => hmark hc.2)
    rw [Place.next, if_neg (not_or.mpr ⟨hsingle, hback⟩)] at hc
    exact hc.append (ih htext)

/-- Is fixed text plain, and a value not null? -/
def Part.isTidy : Part → Bool
  | fixed text => isPlain text.toList
  | operand value => value ≠ .null
  | _ => true

/-- The values of a row of parts, as they are written in place. -/
def writtenParams (parts : List Part) : List (List Char) :=
  (params .parameterized parts).map fun value => (literal value).toList

theorem scans_part {part : Part} (h : part.isTidy = true) :
    Scans .outside (part.render .parameterized).toList (writtenParams [part])
      (part.render .inline).toList .outside := by
  cases part with
  | fixed text => exact passes_plain h
  | identifier name => exact passes_identifier name
  | string s => exact passes_string s
  | operand value =>
    rw [Part.render, Part.render]
    exact scans_placeholder (literal value).toList

/-- The placeholders of a row of parts stand for its values, in their order. -/
theorem scans_render {parts : List Part} (h : parts.all Part.isTidy = true) :
    Scans .outside (render .parameterized parts).toList (writtenParams parts)
      (render .inline parts).toList .outside := by
  induction parts with
  | nil => exact scans_nil .outside
  | cons part parts ih =>
    rw [List.all_cons, Bool.and_eq_true] at h
    have hwritten :
        writtenParams (part :: parts) = writtenParams [part] ++ writtenParams parts := by
      rw [writtenParams, params, ← List.singleton_append, List.filterMap_append, List.map_append]
      rfl
    rw [toList_render_cons, toList_render_cons, hwritten]
    exact (scans_part h.1).append (ih h.2)

/-- Nothing is handed over beside values in place. -/
theorem params_inline (parts : List Part) : params .inline parts = [] := by
  rw [params, List.filterMap_eq_nil_iff]
  intro part _
  cases part <;> rfl

/-- Null is never handed over. -/
theorem null_not_mem_params {mode : Mode} {parts : List Part}
    (h : parts.all Part.isTidy = true) : .null ∉ params mode parts := by
  intro hmem
  obtain ⟨part, hpart, hparam⟩ := List.mem_filterMap.mp hmem
  have htidy := List.all_eq_true.mp h part hpart
  cases part with
  | operand value =>
    cases mode with
    | inline => cases hparam
    | parameterized =>
      cases hparam
      cases htidy
  | _ => cases hparam

/-! ## Filters -/

theorem all_isTidy_separate {separator : String} {rows : List (List Part)}
    (hseparator : isPlain separator.toList = true)
    (h : ∀ row ∈ rows, row.all Part.isTidy = true) :
    (separate separator rows).all Part.isTidy = true := by
  induction rows with
  | nil => rfl
  | cons row rows ih =>
    obtain ⟨hrow, hrows⟩ := List.forall_mem_cons.mp h
    cases rows with
    | nil =>
      rw [separate, List.intercalate_singleton]
      exact hrow
    | cons next rows =>
      have hfixed : [Part.fixed separator].all Part.isTidy = true :=
        (Bool.and_true _).trans hseparator
      have hrest := ih hrows
      rw [separate] at hrest ⊢
      rw [List.intercalate_cons_cons, List.all_append, List.all_append, hrow, hfixed, hrest]
      rfl

theorem all_isTidy_enclose (schema : Option Schema) {parts : List Part}
    (h : parts.all Part.isTidy = true) :
    ((partArrangement schema).enclose parts).all Part.isTidy = true := by
  rw [Arrangement.enclose, List.all_append, List.all_append, h]
  rfl

theorem all_isTidy_access (schema : Option Schema) (f : Field) :
    (access schema f).all Part.isTidy = true := by
  cases f with
  | simple name => rfl
  | nested base path =>
    rw [access]
    split
    · rfl
    · have hpath : (separate ", " (path.map fun segment => [.string segment])).all Part.isTidy =
          true := by
        refine all_isTidy_separate rfl fun row hrow => ?_
        obtain ⟨segment, -, rfl⟩ := List.mem_map.mp hrow
        rfl
      rw [List.all_append, List.all_append, hpath]
      rfl

theorem isTidy_operand (value : Literal) : (operand value).isTidy = true := by
  cases value <;> rfl

theorem all_isTidy_condition (schema : Option Schema) (c : LogQuery.Condition) :
    (condition schema c).all Part.isTidy = true := by
  obtain ⟨field, comparison, value, quoted⟩ := c
  have hfield := all_isTidy_access schema field
  have hsymbol : isPlain (" " ++ comparison.symbol ++ " ").toList = true := by
    cases comparison <;> rfl
  unfold condition
  dsimp only
  split
  · rw [List.all_append, hfield]
    rfl
  · rw [List.all_append, hfield]
    rfl
  · rw [search, List.all_append, List.all_append, hfield]
    rfl
  · rw [search, List.all_append, List.all_append, hfield]
    rfl
  · rw [compared, List.all_append, hfield, List.all_cons, List.all_cons, isTidy_operand,
      Part.isTidy, hsymbol]
    rfl

/-- No fixed text of a filter opens a quote or looks like a placeholder, and none of its values is
null. -/
theorem all_isTidy_filter (schema : Option Schema) (f : Filter) :
    (filter schema f).all Part.isTidy = true := by
  have hjoined : ∀ op children,
      (∀ child ∈ children, (filter schema child).all Part.isTidy = true) →
      ((partArrangement schema).joinedRows op children).all Part.isTidy = true := by
    intro op children ih
    have hseparator : isPlain (connective op).toList = true := by cases op <;> rfl
    refine all_isTidy_separate hseparator fun row hrow => ?_
    obtain ⟨child, hmem, rfl⟩ := List.mem_map.mp hrow
    rw [Arrangement.childRow]
    split
    · exact all_isTidy_enclose schema (ih child hmem)
    · exact ih child hmem
  induction f using Filter.byChildren with
  | condition c => exact all_isTidy_condition schema c
  | logical op children ih =>
    rw [filter, Arrangement.row_logical]
    exact hjoined op children ih
  | group children ih =>
    rw [filter, Arrangement.row_group]
    exact all_isTidy_enclose schema (hjoined .and children ih)

theorem all_isTidy_queryParts (schema : Option Schema) (q : Query) :
    (queryParts schema q).all Part.isTidy = true := by
  unfold queryParts
  split
  · rfl
  · exact all_isTidy_filter schema _

/-- A condition has a placeholder for each value handed over beside it. With these filled in, in
their order, it is the condition written with its values in place, which hands nothing over; null is
never handed over. Whatever has been handed over before, writing the filter gives the same text and
hands the same values over behind it. -/
theorem fill_compile (schema : Option Schema) (q : Query) :
    let bound := compile .parameterized schema q
    let inline := compile .inline schema q
    placeholders bound.sql = bound.params.length ∧
    fill bound.sql (bound.params.map literal) = inline.sql ∧
    inline.params = [] ∧ .null ∉ bound.params ∧
    ∀ f ∈ q.filter, ∀ before,
      (writeFilter .parameterized schema f).run before = (bound.sql, before ++ bound.params) ∧
      (writeFilter .inline schema f).run before = (inline.sql, before) := by
  intro bound inline
  have hbound : bound = ⟨render .parameterized (queryParts schema q),
    params .parameterized (queryParts schema q)⟩ := compile_eq .parameterized schema q
  have hinline : inline = ⟨render .inline (queryParts schema q), []⟩ := by
    rw [← params_inline (queryParts schema q)]
    exact compile_eq .inline schema q
  have htidy := all_isTidy_queryParts schema q
  obtain ⟨hcount, hfill⟩ := scans_render htidy [] []
  rw [List.append_nil, List.append_nil] at hfill
  rw [List.append_nil, writtenParams, List.length_map] at hcount
  rw [hbound, hinline]
  refine ⟨hcount, ?_, rfl, null_not_mem_params htidy, fun f hf before => ?_⟩
  · dsimp only
    rw [fill, List.map_map]
    refine (congrArg String.ofList hfill).trans ?_
    simp [Place.fill]
  · have hparts : queryParts schema q = filter schema f := by
      rw [queryParts, Option.mem_def.mp hf]
    have hwritten := writes_filter .inline schema f before
    rw [params_inline, List.append_nil] at hwritten
    rw [hparts]
    exact ⟨writes_filter .parameterized schema f before, hwritten⟩

/-- Behind a value handed over before: a not-a-number, a search for a number, null in both its places,
and question marks in names. -/
theorem fill_compile_behind :
    let nan : Binary64 := ⟨true, Binary64.infinityCode + 1, by decide⟩
    let f : Filter :=
      .logical .or [.condition ⟨.simple "a?", .equal, .float nan, false⟩,
        .logical .and [.condition ⟨.nested "b" ["'?"], .contains, .integer 7, false⟩,
          .condition ⟨.simple "c", .notEqual, .null, false⟩,
          .condition ⟨.simple "d", .greater, .null, false⟩]]
    let q : Query := ⟨some f, []⟩
    f ∈ q.filter ∧
    (writeFilter .parameterized none f).run [.boolean true] =
      ((compile .parameterized none q).sql, [.boolean true, .float nan, .string "7"]) ∧
    (writeFilter .inline none f).run [.boolean true] =
      ((compile .inline none q).sql, [.boolean true]) := by
  intro nan f q
  have hf : f ∈ q.filter := rfl
  have hparams : (compile .parameterized none q).params = [.float nan, .string "7"] := by
    decide +kernel
  obtain ⟨-, -, -, -, hrun⟩ := fill_compile none q
  obtain ⟨hbound, hinline⟩ := hrun f hf [.boolean true]
  rw [hparams] at hbound
  exact ⟨hf, hbound, hinline⟩

-- Question marks in names and strings are left alone, also behind an escaped quote.
example : fill "`a?` = ? AND `b\\`?` ~ 'it''s ?' AND `c` > ?" ["'?'", "2"] =
    "`a?` = '?' AND `b\\`?` ~ 'it''s ?' AND `c` > 2" := by decide +kernel

end LogQuery.Sql
