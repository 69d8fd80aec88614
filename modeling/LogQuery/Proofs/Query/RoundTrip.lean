import LogQuery.Proofs.Query.Grammar
import LogQuery.Proofs.Token.PrintedField
import LogQuery.Proofs.Token.PrintedValue
import LogQuery.Query.Analysis

/-!
# Reading undoes printing

A canonical query is printed as a text that reading takes for the query again, without any fault
(`Query.ofText_print`).

The text is cut into tokens part by part, and the tokens of each part follow the rule of the grammar
for it: `reads_condition`, `reads_operand`, `reads_row` and `reads_filter` for the filter, and
`reads_fields` for the selected fields. A row of operands of one connective goes one level deeper at
its second operand and stays there, and an operand in parentheses goes one deeper; `Filter.need`
counts these levels, so that none lies below `maxDepth`.
-/

namespace LogQuery

open Grammar

/-! ## Filters -/

namespace Filter

/-- A child of `op` as it is printed. -/
def printChild (op : Connective) (child : Filter) : String :=
  if child.needsParens op then "(" ++ child.print ++ ")" else child.print

/-- The children of `op` as they are printed, with its keyword between them. -/
def printJoined (op : Connective) (children : List Filter) : List Char :=
  List.intercalate (' ' :: (op.keyword.toList ++ [' '])) (children.map fun child =>
    (printChild op child).toList)

theorem toList_print_logical (op : Connective) (children : List Filter) :
    (logical op children).print.toList = printJoined op children := by
  rw [print, prints_eq, String.toList_intercalate, List.map_map]
  simp [printJoined, printChild, Function.comp_def]

theorem printJoined_cons (op : Connective) (child next : Filter) (rest : List Filter) :
    printJoined op (child :: next :: rest) = (printChild op child).toList ++
      ' ' :: (op.keyword.toList ++ ' ' :: printJoined op (next :: rest)) := by
  rw [printJoined, List.map_cons, List.map_cons, List.intercalate_cons_cons]
  simp [printJoined]

theorem of_areCanonical {op : Connective} {children : List Filter}
    (h : areCanonical op children = true) :
    ∀ child ∈ children, child.isRunOf op = false ∧ child.isCanonical = true := by
  induction children with
  | nil => simp
  | cons child rest ih =>
    rw [areCanonical, Bool.and_eq_true, Bool.and_eq_true, Bool.not_eq_true'] at h
    exact List.forall_mem_cons.mpr ⟨h.1, ih h.2⟩

theorem weight_le_weights {child : Filter} {children : List Filter} (h : child ∈ children) :
    child.weight ≤ weights children := by
  induction h with
  | head rest => exact Nat.le_max_left _ _
  | tail first _ ih => exact Nat.le_trans ih (Nat.le_max_right _ _)

/-- What is no run of a connective starts one. -/
theorem join_of_isRunOf {op : Connective} {left : Filter} (h : left.isRunOf op = false)
    (right : Filter) : join op left right = logical op [left, right] := by
  cases left with
  | logical op' children => rw [join, if_neg (of_decide_eq_false h)]
  | _ => rfl

end Filter

/-- A printed condition is a condition by the rules, at every depth. -/
theorem reads_conditionTokens {c : Condition} (h : c.isCanonical = true) :
    Reads false c.print.toList false endsValue fun ts => ∀ depth, Primary depth ts (.condition c) := by
  rw [Condition.isCanonical, Bool.and_eq_true] at h
  have hprint : c.print.toList = c.field.print.toList ++
      ' ' :: (c.comparison.symbol.toList ++ ' ' :: c.value.print.toList) := by
    simp [Condition.print]
  have htail := (reads_operator c.comparison).append_blank (reads_literal h.2) rfl
  rw [hprint]
  refine ((reads_field h.1).append_blank htail rfl).mono ?_
  rintro ts ⟨_, _, rfl, ⟨key, rfl, hkey⟩, _, _, rfl, ⟨operator, rfl, hkind, htext, -⟩, value, rfl,
    hvalue, hquoted, hliteral⟩
  have hfield : comparedField? key = some c.field := by
    rcases hkey with ⟨hkey, hfield⟩ | ⟨hkey, -, hfield⟩
    · rw [comparedField?, hkey, ← hfield]
    · rw [comparedField?, hkey, hfield]
  have hsymbol : Comparison.ofSymbol? operator.text = some c.comparison := by
    rw [htext, Comparison.ofSymbol?_symbol]
  intro depth
  have hprimary : Primary depth [key, operator, value] _ :=
    .condition hfield hkind hsymbol (.inl hvalue)
  rw [hliteral, hquoted] at hprimary
  exact hprimary

theorem reads_condition {c : Condition} (h : c.isCanonical = true) (depth : Nat) :
    Reads false c.print.toList false endsValue (Primary depth · (.condition c)) :=
  (reads_conditionTokens h).mono fun _ hts => hts depth

/-- A connective and what stands after it. -/
theorem reads_link (op : Connective) {text : List Char} {G : List Token → Prop}
    (h : Reads false text false endsValue G) :
    Reads false (op.keyword.toList ++ ' ' :: text) false endsValue
      fun ts => ∃ t us, ts = t :: us ∧ IsConnective op t ∧ G us := by
  have hkeyword : Connective.ofKeyword? op.keyword = some op := by
    cases op <;> decide
  refine ((reads_keyword op).append_blank h rfl).mono ?_
  rintro ts ⟨_, us, rfl, ⟨t, rfl, hkind, htext, -⟩, hus⟩
  exact ⟨t, us, rfl, ⟨hkind, by rw [htext, hkeyword]⟩, hus⟩

/-- A text in parentheses. -/
theorem reads_enclosed {text : List Char} {G : List Token → Prop}
    (h : Reads false text false endsValue G) :
    Reads false ('(' :: (text ++ [')'])) false endsValue fun ts => ∃ left us right,
      ts = left :: (us ++ [right]) ∧ IsParen "(" left ∧ G us ∧ IsParen ")" right := by
  have hopening : Reads false ['('] false anything (IsToken .paren "(" false) :=
    reads_mark (by simp)
  have hclosing : Reads false [')'] false endsValue (IsToken .paren ")" false) :=
    (reads_mark (by simp)).restrict fun _ _ => rfl
  have hnext : Starts endsValue [')'] := ⟨')', [], rfl, rfl⟩
  refine (hopening.append_any (h.append hclosing hnext.next)).mono ?_
  rintro ts ⟨_, _, rfl, ⟨left, rfl, hleft, hopens, -⟩, us, _, rfl, hus, right, rfl, hright,
    hcloses, -⟩
  exact ⟨left, us, right, rfl, ⟨hleft, hopens⟩, hus, hright, hcloses⟩

/-- A filter in parentheses is an operand. -/
theorem reads_parens {f : Filter} {depth : Nat} (hdepth : depth < maxDepth)
    (h : Reads false f.print.toList false endsValue (Expression (depth + 1) · f)) :
    Reads false ("(" ++ f.print ++ ")").toList false endsValue (Primary depth · f) := by
  have hprint : ("(" ++ f.print ++ ")").toList = '(' :: (f.print.toList ++ [')']) := by simp
  rw [hprint]
  refine (reads_enclosed h).mono ?_
  rintro ts ⟨left, us, right, rfl, hleft, hus, hright⟩
  exact .parens hleft hdepth (.one hus) hright

/-- A printed child of `op` is an operand, if what it holds can be read one level deeper. -/
theorem reads_operand {op : Connective} {child : Filter} {depth : Nat}
    (hrun : child.isRunOf op = false) (hcanonical : child.isCanonical = true)
    (hdepth : depth + child.weight ≤ maxDepth)
    (h : ∀ depth, depth + child.need ≤ maxDepth →
      Reads false child.print.toList false endsValue (Expression depth · child)) :
    Reads false (Filter.printChild op child).toList false endsValue (Primary depth · child) := by
  cases child with
  | condition c => exact reads_condition hcanonical depth
  | logical op' children =>
    have hparens : (Filter.logical op' children).needsParens op = true :=
      decide_eq_true (of_decide_eq_false hrun)
    rw [Filter.weight] at hdepth
    rw [Filter.printChild, if_pos hparens]
    exact reads_parens (by omega) (h (depth + 1) (by rw [Filter.need]; omega))
  | group children => cases hcanonical

/-- Operands of a connective that stand at the same depth: after the first of them, the others
extend whatever run it ends. -/
theorem reads_operands {op : Connective} {depth : Nat} (next : Filter) (rest : List Filter)
    (h : ∀ child ∈ next :: rest,
      Reads false (Filter.printChild op child).toList false endsValue (Primary depth · child)) :
    Reads false (Filter.printJoined op (next :: rest)) false endsValue fun ts => ∃ us vs,
      ts = us ++ vs ∧ Primary depth us next ∧ ∀ children, Chain depth
        (.logical op (children ++ [next])) vs (.logical op (children ++ next :: rest)) := by
  induction rest generalizing next with
  | nil =>
    rw [Filter.printJoined, List.map_singleton, List.intercalate_singleton]
    refine (h next List.mem_cons_self).mono fun ts hts => ?_
    exact ⟨ts, [], (List.append_nil ts).symm, hts, fun _ => .done⟩
  | cons next' rest ih =>
    have hrest := ih next' fun child hmem => h child (List.mem_cons_of_mem _ hmem)
    rw [Filter.printJoined_cons]
    refine ((h next List.mem_cons_self).append_blank (reads_link op hrest) rfl).mono ?_
    rintro ts ⟨us, _, rfl, hnext, t, _, rfl, ht, us', vs', rfl, hnext', hchain⟩
    refine ⟨us, t :: (us' ++ vs'), rfl, hnext, fun children => ?_⟩
    have hjoin : Filter.join op (.logical op (children ++ [next])) next' =
        .logical op (children ++ [next] ++ [next']) := if_pos rfl
    have hextended := hchain (children ++ [next])
    rw [← hjoin, List.append_assoc, List.singleton_append] at hextended
    exact .extend ht (decide_eq_true rfl) hnext' hextended

/-- The operands of a connective are an expression: the first stands at its depth, and the others
one level deeper. -/
theorem reads_row {op : Connective} {depth : Nat} {first next : Filter} {rest : List Filter}
    (hrun : first.isRunOf op = false) (hdepth : depth < maxDepth)
    (hfirst : Reads false (Filter.printChild op first).toList false endsValue
      (Primary depth · first))
    (hrest : ∀ child ∈ next :: rest, Reads false (Filter.printChild op child).toList false endsValue
      (Primary (depth + 1) · child)) :
    Reads false (Filter.logical op (first :: next :: rest)).print.toList false endsValue
      (Expression depth · (.logical op (first :: next :: rest))) := by
  rw [Filter.toList_print_logical, Filter.printJoined_cons]
  refine (hfirst.append_blank (reads_link op (reads_operands next rest hrest)) rfl).mono ?_
  rintro ts ⟨us, _, rfl, hfirst, t, _, rfl, ht, us', vs', rfl, hnext, hchain⟩
  -- The first connective goes deeper, since `first` is no run of it; all others extend the run.
  have hjoined := hchain [first]
  rw [List.singleton_append, ← Filter.join_of_isRunOf hrun next] at hjoined
  exact .chain hfirst (.deepen ht hrun hdepth hnext hjoined)

/-- A printed filter is an expression by the rules, wherever there is room for its levels. -/
theorem reads_filter {f : Filter} (h : f.isCanonical = true) (depth : Nat)
    (hdepth : depth + f.need ≤ maxDepth) :
    Reads false f.print.toList false endsValue (Expression depth · f) := by
  induction f using Filter.byChildren generalizing depth with
  | condition c =>
    refine (reads_condition h depth).mono fun ts hts => ?_
    rw [← List.append_nil ts]
    exact .chain hts .done
  | logical op children ih =>
    rw [Filter.isCanonical, Bool.and_eq_true, decide_eq_true_eq] at h
    have hchildren := Filter.of_areCanonical h.2
    have hoperand : ∀ child ∈ children, ∀ depth, depth + child.weight ≤ maxDepth →
        Reads false (Filter.printChild op child).toList false endsValue
          (Primary depth · child) := by
      intro child hmem depth hdepth
      obtain ⟨hrun, hcanonical⟩ := hchildren child hmem
      exact reads_operand hrun hcanonical hdepth (ih child hmem hcanonical)
    match children, h.1 with
    | first :: next :: rest, _ =>
      rw [Filter.need, Filter.needJoined] at hdepth
      refine reads_row (hchildren first List.mem_cons_self).1 (by omega)
        (hoperand first List.mem_cons_self depth (by omega)) fun child hmem => ?_
      have hweight := Filter.weight_le_weights hmem
      exact hoperand child (List.mem_cons_of_mem _ hmem) (depth + 1) (by omega)
  | group children => cases h

/-! ## Selected fields -/

/-- Printed fields with commas between them are selected fields by the rules. -/
theorem reads_fields {field : Field} {fields : List Field}
    (h : ∀ f ∈ field :: fields, f.isCanonical = true) :
    Reads false (String.intercalate ", " ((field :: fields).map Field.print)).toList false endsField
      (Fields · (field :: fields)) := by
  have hselected : ∀ {f t}, IsNameOf f t → selectedField? t = some f := by
    rintro f t (⟨hkind, hfield⟩ | ⟨hkind, hquoted, hfield⟩)
    · rw [selectedField?, hkind, ← hfield]
    · rw [selectedField?, hkind, hquoted, hfield]
      rfl
  rw [String.toList_intercalate, List.map_map]
  induction fields generalizing field with
  | nil =>
    rw [List.map_singleton, List.intercalate_singleton]
    refine (reads_field (h field List.mem_cons_self)).mono ?_
    rintro ts ⟨t, rfl, ht⟩
    exact .one (hselected ht)
  | cons next fields ih =>
    have hcomma : Reads false [','] false anything (IsToken .comma "," false) :=
      reads_mark (by simp)
    have hrest := ih fun f hmem => h f (List.mem_cons_of_mem _ hmem)
    have hnext : ∀ text, Starts endsField ([','] ++ ' ' :: text) := fun text =>
      ⟨',', ' ' :: text, rfl, rfl⟩
    rw [List.map_cons, List.map_cons, List.intercalate_cons_cons, List.append_assoc]
    refine ((reads_field (h field List.mem_cons_self)).append (hcomma.append_blank hrest rfl)
      (hnext _).next).mono ?_
    rintro ts ⟨_, _, rfl, ⟨t, rfl, ht⟩, _, us, rfl, ⟨comma, rfl, hkind, -, -⟩, hus⟩
    exact .more (hselected ht) hkind hus

/-! ## Queries -/

/-- Nothing may come next. -/
def nothing (_ : Char) : Bool := false

/-- A text that may go on in some way may also end. -/
theorem Reads.atEnd {before after : Bool} {text : List Char} {ends : Char → Bool}
    {G : List Token → Prop} (h : Reads before text after ends G) :
    Reads before text after nothing G :=
  h.restrict fun _ hc => absurd hc Bool.false_ne_true

/-- A printed filter in front of a query. -/
theorem reads_where {f : Filter} (h : f.isCanonical = true) (hdepth : f.need ≤ maxDepth) :
    Reads false f.print.toList false endsValue (Where · (some f)) :=
  (reads_filter h 0 (by omega)).mono fun _ => .expression

/-- The selected fields of a query after a pipe. -/
theorem reads_select {field : Field} {fields : List Field}
    (h : ∀ f ∈ field :: fields, f.isCanonical = true) :
    Reads false ("| " ++ String.intercalate ", " ((field :: fields).map Field.print)).toList false
      endsField (Select · (field :: fields)) := by
  have hpipe : Reads false ['|'] false anything (IsToken .pipe "|" false) := reads_mark (by simp)
  rw [String.toList_append]
  refine (hpipe.append_blank (reads_fields h) rfl).mono ?_
  rintro ts ⟨_, us, rfl, ⟨pipe, rfl, hkind, -, -⟩, hus⟩
  exact .fields hkind hus

/-- A printed query is its printed filter, and what selects its fields. -/
theorem reads_print {q : Query} {G : List Token → Prop} (hnone : q.filter = none → G [])
    (hsome : ∀ f, q.filter = some f → Reads false f.print.toList false endsValue G)
    (hselect : ∀ field ∈ q.select, field.isCanonical = true) :
    Reads false q.print.toList false nothing
      fun ts => ∃ us vs, ts = us ++ vs ∧ G us ∧ Select vs q.select := by
  obtain ⟨filter, select⟩ := q
  cases filter with
  | none =>
    cases select with
    | nil =>
      refine reads_nil.atEnd.mono ?_
      rintro _ rfl
      exact ⟨[], [], rfl, hnone rfl, .nothing⟩
    | cons field fields =>
      have hprint : (Query.print ⟨none, field :: fields⟩) =
          "| " ++ String.intercalate ", " ((field :: fields).map Field.print) := by
        simp [Query.print]
      rw [hprint]
      exact (reads_select hselect).atEnd.mono fun ts hts => ⟨[], ts, rfl, hnone rfl, hts⟩
  | some f =>
    have hfilter := hsome f rfl
    cases select with
    | nil =>
      refine hfilter.atEnd.mono fun ts hts => ?_
      exact ⟨ts, [], (List.append_nil ts).symm, hts, .nothing⟩
    | cons field fields =>
      have hprint : (Query.print ⟨some f, field :: fields⟩).toList = f.print.toList ++
          ' ' :: ("| " ++ String.intercalate ", " ((field :: fields).map Field.print)).toList := by
        simp [Query.print]
      rw [hprint]
      exact (hfilter.append_blank (reads_select hselect) rfl).atEnd

/-- A printed query is a query by the rules. -/
theorem reads_query {q : Query} (h : q.isCanonical = true) :
    Reads false q.print.toList false nothing (IsQuery · q) := by
  rw [Query.isCanonical, Bool.and_eq_true, List.all_eq_true] at h
  have hnone : q.filter = none → Where [] q.filter := fun hfilter => hfilter ▸ .nothing
  have hsome : ∀ f, q.filter = some f →
      Reads false f.print.toList false endsValue (Where · q.filter) := by
    intro f hfilter
    have hf := h.1
    rw [hfilter, Option.all_some, Bool.and_eq_true, decide_eq_true_eq] at hf
    rw [hfilter]
    exact reads_where hf.1 hf.2
  refine (reads_print hnone hsome h.2).mono ?_
  rintro ts ⟨us, vs, rfl, hus, hvs⟩
  exact .mk hus hvs

/-- Reading a printed canonical query gives the query, without any fault. -/
theorem Query.ofText_print (q : Query) (h : q.isCanonical = true) :
    Query.ofText q.print = .ok q ∧ validate q.print = [] := by
  obtain ⟨hfaults, hquery⟩ := tokenize_of_reads (reads_query h)
  have houtcome := ofTokens_of_isQuery hquery
  constructor
  · rw [Query.ofText, analyse]
    dsimp only
    rw [hfaults, houtcome]
    rfl
  · rw [validate, Analysis.diagnostics, analyse, Tokenization.diagnostics, Tokenization.reports,
      Outcome.diagnostics, Outcome.reports]
    dsimp only
    rw [hfaults, houtcome]
    rfl

/-- Nested nodes of both connectives, with escaped and empty names, keywords in a path, and every
kind of literal. -/
theorem Query.ofText_print_mixed :
    let q : Query := ⟨some (.logical .and [
        .condition ⟨.simple "level", .equal, .string "a \"b\" \\", true⟩,
        .logical .or [
          .condition ⟨.nested "body" ["x y", "\\\"z"], .notContains, .integer (-42), false⟩,
          .logical .and [.condition ⟨.simple "and or", .greaterOrEqual, .null, false⟩,
            .condition ⟨.simple "", .notEqual, .boolean true, false⟩]]]),
      [.simple "level", .nested "or" ["and"], .simple "a, b"]⟩
    q.isCanonical = true ∧ Query.ofText q.print = .ok q ∧ validate q.print = [] := by
  intro q
  have hq : q.isCanonical = true := by decide +kernel
  exact ⟨hq, Query.ofText_print q hq⟩

end LogQuery
