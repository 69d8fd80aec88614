import LogQuery.Proofs.Filter.Orderly
import LogQuery.Proofs.Query.RoundTrip
import LogQuery.Proofs.Query.Shape
import LogQuery.Proofs.Query.Verdict

/-!
# Printing what was read

A query that was read is printed as a text that is read as a query again, with the same conditions in
the same order, if the text does not nest too deep. What it says may have changed.

* `fits_readExpression` and its companions: the tokens of a row are read as the row's filter, or are
  rejected as nested too deep, exactly as its depth says;
* `reads_filterRow`: a printed filter is cut into the tokens of its row;
* `Query.ofText_print_of_isPlain`: what is read in the end, and when it says the same.
-/

namespace LogQuery

open Grammar

/-! ## The tokens of a row -/

mutual

/-- The tokens that an operand is written with. -/
inductive OperandTokens : List Token → Operand → Prop
  | condition {ts : List Token} {c : Condition} (h : ∀ depth, Primary depth ts (.condition c)) :
      OperandTokens ts (.condition c)
  | parens {left right : Token} {ts : List Token} {row : Row} (hleft : IsParen "(" left)
      (h : RowTokens ts row) (hright : IsParen ")" right) :
      OperandTokens (left :: (ts ++ [right])) (.parens row)

/-- The tokens that a row is written with. -/
inductive RowTokens : List Token → Row → Prop
  | start {op : Connective} {ts us : List Token} {o : Operand} {rest : Row}
      (h : OperandTokens ts o) (hrest : LinkTokens us rest) : RowTokens (ts ++ us) ((op, o) :: rest)

/-- The tokens of a row that goes on, with the connective in front of each operand. -/
inductive LinkTokens : List Token → Row → Prop
  | nil : LinkTokens [] []
  | link {op : Connective} {t : Token} {ts us : List Token} {o : Operand} {rest : Row}
      (ht : IsConnective op t) (h : OperandTokens ts o) (hrest : LinkTokens us rest) :
      LinkTokens (t :: (ts ++ us)) ((op, o) :: rest)

end

theorem OperandTokens.starts {ts : List Token} {o : Operand} (h : OperandTokens ts o) :
    StartsPrimary ts := by
  cases h with
  | condition h => exact (h 0).starts
  | @parens left right ts _ hleft _ _ => exact ⟨left, ts ++ [right], rfl, .inl hleft⟩

theorem RowTokens.starts {ts : List Token} {row : Row} (h : RowTokens ts row) :
    StartsPrimary ts := by
  cases h with
  | @start _ _ us _ _ h _ => exact h.starts.append us

theorem LinkTokens.append {ts us : List Token} {row row' : Row} :
    LinkTokens ts row → LinkTokens us row' → LinkTokens (ts ++ us) (row ++ row')
  | .nil, h' => h'
  | .link ht h hrest, h' => by
    rw [List.cons_append, List.append_assoc]
    exact .link ht h (hrest.append h')

theorem RowTokens.append {ts us : List Token} {row row' : Row} (h : RowTokens ts row)
    (h' : LinkTokens us row') : RowTokens (ts ++ us) (row ++ row') := by
  cases h with
  | start h hrest =>
    rw [List.append_assoc]
    exact .start h (hrest.append h')

/-- A row with its first connective goes on after another. -/
theorem RowTokens.link {op : Connective} {ts : List Token} {o : Operand} {rest : Row}
    (h : RowTokens ts ((op, o) :: rest)) {t : Token} (ht : IsConnective op t) :
    LinkTokens (t :: ts) ((op, o) :: rest) := by
  cases h with
  | start h hrest => exact .link ht h hrest

/-! ## Reading a row -/

/-- The depth is at fault. -/
def SyntaxFault.isTooDeep : SyntaxFault → Bool
  | connectivesTooDeep => true
  | parensTooDeep => true
  | _ => false

namespace Reading

variable {α β : Type}

/-- The reading gives up since it would go too deep. -/
def IsTooDeep (r : Reading α) : Prop :=
  r.value = none ∧ ∃ fault ∈ r.faults, fault.value.isTooDeep = true

/-- The reading goes to the depth `n`, and gives `a` before `rest` if it may go there. -/
structure Fits (r : Reading α) (n : Nat) (a : α) (rest : List Token) : Prop where
  done : n ≤ maxDepth → r = .done a rest
  tooDeep : maxDepth < n → r.IsTooDeep

theorem isTooDeep_fail {fault : SyntaxFault} (h : fault.isTooDeep = true) (position : Position)
    (rest : List Token) : (fail fault position rest : Reading α).IsTooDeep :=
  ⟨rfl, _, List.mem_cons_self, h⟩

theorem fits_done {n : Nat} (h : n ≤ maxDepth) (a : α) (rest : List Token) :
    (Reading.done a rest).Fits n a rest :=
  ⟨fun _ => rfl, fun hn => absurd h (Nat.not_le_of_lt hn)⟩

theorem fits_tooDeep {r : Reading α} {n : Nat} (h : r.IsTooDeep) (hn : maxDepth < n) (a : α)
    (rest : List Token) : r.Fits n a rest :=
  ⟨fun hle => absurd hle (Nat.not_le_of_lt hn), fun _ => h⟩

/-- One reading after another goes to the greater of their depths. -/
theorem Fits.bind {r : Reading α} {next : α → List Token → Reading β} {m n : Nat} {a : α} {b : β}
    {mid rest : List Token} (h : r.Fits m a mid) (h' : (next a mid).Fits n b rest) :
    (r.bind next).Fits (max m n) b rest := by
  constructor
  · intro hle
    rw [h.done (by omega), bind_done]
    exact h'.done (by omega)
  · intro hlt
    by_cases hm : m ≤ maxDepth
    · rw [h.done hm, bind_done]
      exact h'.tooDeep (by omega)
    · obtain ⟨hvalue, hfault⟩ := h.tooDeep (by omega)
      rw [Reading.bind, hvalue]
      exact ⟨rfl, hfault⟩

end Reading

open Reading (fits_done fits_tooDeep isTooDeep_fail)

mutual

theorem fits_readPrimary {ts : List Token} {o : Operand} :
    OperandTokens ts o → ∀ last depth, depth ≤ maxDepth → ∀ rest,
      (readPrimary last depth (ts ++ rest)).Fits (depth + o.depth) o.filter rest
  | .condition h, last, depth, hdepth, rest => by
    rw [readPrimary_of_primary last (h depth)]
    exact fits_done hdepth _ rest
  | @OperandTokens.parens left right ts row hleft h hright, last, depth, hdepth, rest => by
    have hread : readPrimary last depth (left :: ((ts ++ [right]) ++ rest)) =
        if maxDepth ≤ depth then .fail .parensTooDeep left.position ((ts ++ [right]) ++ rest)
        else readMembers last (depth + 1) left [] ((ts ++ [right]) ++ rest) := by
      rw [readPrimary_eq]
      dsimp only
      rw [hleft.1]
      dsimp only
      rw [if_pos hleft.2]
    rw [List.cons_append, hread, Operand.depth, Operand.filter]
    split
    · exact fits_tooDeep (isTooDeep_fail rfl _ _) (by omega) _ rest
    · rw [List.append_assoc, List.singleton_append,
        readMembers_of_starts last (depth + 1) left [] (h.starts.append _)]
      have hclosing : (readMembers last (depth + 1) left ([] ++ [row.filter]) (right :: rest)).Fits
          (depth + 1) row.filter rest := by
        rw [readMembers_closing last (depth + 1) left (by simp) hright]
        exact fits_done (by omega) _ rest
      have hinner := fits_readExpression h last (depth + 1) (by omega) (ends_of_isParen hright rest)
      have hmax : depth + (row.depth + 1) = max (depth + 1 + row.depth) (depth + 1) := by omega
      rw [hmax]
      exact hinner.bind hclosing

theorem fits_readExpression {ts : List Token} {row : Row} :
    RowTokens ts row → ∀ last depth, depth ≤ maxDepth → ∀ {rest}, Ends rest →
      (readExpression last depth (ts ++ rest)).Fits (depth + row.depth) row.filter rest
  | .start h hrest, last, depth, hdepth, rest, hends => by
    rw [readExpression_eq, List.append_assoc, Row.depth, Row.filter, ← Nat.add_max_add_left]
    exact (fits_readPrimary h last depth hdepth _).bind
      (fits_readChain hrest last depth hdepth _ hends)

theorem fits_readChain {ts : List Token} {row : Row} :
    LinkTokens ts row → ∀ last depth, depth ≤ maxDepth → ∀ left {rest}, Ends rest →
      (readChain last depth left (ts ++ rest)).Fits (depth + row.depthAfter left)
        (row.joinTo left) rest
  | .nil, last, depth, hdepth, left, rest, hends => by
    rw [List.nil_append, readChain_ends last depth left hends]
    exact fits_done hdepth left rest
  | @LinkTokens.link op t ts us o row ht h hrest, last, depth, hdepth, left, rest, hends => by
    have hbind : ∀ depth, depth ≤ maxDepth →
        ((readPrimary last depth (ts ++ (us ++ rest))).bind fun right =>
          readChain last depth (.join op left right)).Fits
          (depth + max o.depth (Row.depthAfter (.join op left o.filter) row))
          (Row.joinTo (.join op left o.filter) row) rest := by
      intro depth hdepth
      rw [← Nat.add_max_add_left]
      exact (fits_readPrimary h last depth hdepth _).bind
        (fits_readChain hrest last depth hdepth _ hends)
    rw [List.cons_append, readChain_connective last depth left ht, readLink_eq, Row.depthAfter,
      Row.joinTo, List.append_assoc]
    split
    · rw [Nat.zero_add]
      exact hbind depth hdepth
    · split
      · exact fits_tooDeep (isTooDeep_fail rfl _ _) (by omega) _ rest
      · rw [← Nat.add_assoc]
        exact hbind (depth + 1) (by omega)

end

/-! ## Printed filters -/

namespace Filter

/-- A filter as it is printed, in parentheses if it is enclosed. -/
def printEnclosed (enclosed : Bool) (f : Filter) : List Char :=
  if enclosed then '(' :: (f.print.toList ++ [')']) else f.print.toList

/-- Several filters as they are printed, with `separator` between them and parentheses around those
that are `enclosed`. -/
def printSeparated (enclosed : Filter → Bool) (separator : Connective) (children : List Filter) :
    List Char :=
  List.intercalate (' ' :: (separator.keyword.toList ++ [' '])) (children.map fun child =>
    printEnclosed (enclosed child) child)

theorem printSeparated_cons (enclosed : Filter → Bool) (separator : Connective)
    (child next : Filter) (rest : List Filter) :
    printSeparated enclosed separator (child :: next :: rest) = printEnclosed (enclosed child) child ++
      ' ' :: (separator.keyword.toList ++ ' ' ::
        printSeparated enclosed separator (next :: rest)) := by
  rw [printSeparated, List.map_cons, List.map_cons, List.intercalate_cons_cons]
  simp [printSeparated]

theorem printSeparated_needsParens (op : Connective) (children : List Filter) :
    (logical op children).print.toList = printSeparated (needsParens op) op children := by
  have hchild : ∀ child, (printChild op child).toList =
      printEnclosed (child.needsParens op) child := by
    intro child
    rw [printChild, printEnclosed]
    split <;> simp
  rw [toList_print_logical, printJoined, printSeparated]
  exact congrArg _ (List.map_congr_left fun child _ => hchild child)

theorem toList_print_group (members : List Filter) :
    (group members).print.toList = '(' :: (printSeparated (fun _ => false) .and members ++ [')']) := by
  rw [print, printsGroup_eq]
  simp [printSeparated, printEnclosed, String.toList_intercalate, List.map_map, Connective.keyword,
    Function.comp_def]

end Filter

/-- A child of a node is cut into the tokens of its row. -/
theorem reads_rowChild {child : Filter} (h : ∀ op, Reads false child.print.toList false endsValue
      (RowTokens · (child.row op))) (enclosed : Bool) (op : Connective) :
    Reads false (child.printEnclosed enclosed) false endsValue
      (RowTokens · (child.rowChild enclosed op)) := by
  cases enclosed with
  | true =>
    refine (reads_enclosed (h .and)).mono ?_
    rintro ts ⟨left, us, right, rfl, hleft, hus, hright⟩
    rw [← List.append_nil (left :: (us ++ [right]))]
    exact .start (.parens hleft hus hright) .nil
  | false => exact h op

/-- The children of a node are cut into the tokens of their row. -/
theorem reads_rowJoined (enclosed : Filter → Bool) (separator : Connective) {child : Filter}
    {rest : List Filter} (hfilled : ∀ f ∈ child :: rest, f.isFilled = true)
    (h : ∀ f ∈ child :: rest, ∀ op, Reads false f.print.toList false endsValue
      (RowTokens · (f.row op))) (op : Connective) :
    Reads false (Filter.printSeparated enclosed separator (child :: rest)) false endsValue
      (RowTokens · (Filter.rowJoined enclosed separator op (child :: rest))) := by
  have hchild := reads_rowChild (h child List.mem_cons_self) (enclosed child) op
  induction rest generalizing child op with
  | nil =>
    rw [Filter.rowJoined_cons, Filter.rowJoined, List.append_nil, Filter.printSeparated,
      List.map_singleton, List.intercalate_singleton]
    exact hchild
  | cons next rest ih =>
    have hrest := ih (fun f hmem => hfilled f (List.mem_cons_of_mem _ hmem))
      (fun f hmem => h f (List.mem_cons_of_mem _ hmem)) separator
      (reads_rowChild (h next (List.mem_cons_of_mem _ List.mem_cons_self)) (enclosed next) separator)
    obtain ⟨o, tail, hrow⟩ := Filter.exists_rowJoined
      (Filter.exists_row (hfilled next (List.mem_cons_of_mem _ List.mem_cons_self)))
      enclosed separator rest
    rw [hrow] at hrest
    rw [Filter.rowJoined_cons, Filter.printSeparated_cons, hrow]
    refine (hchild.append_blank (reads_link separator hrest) rfl).mono ?_
    rintro ts ⟨us, _, rfl, hus, t, vs, rfl, ht, hvs⟩
    exact hus.append (hvs.link ht)

/-- A printed filter is cut into the tokens of its row. -/
theorem reads_filterRow {f : Filter} (hf : f.isFilled = true)
    (hc : ∀ c ∈ f.conditions, c.requoted.isCanonical = true) (op : Connective) :
    Reads false f.print.toList false endsValue (RowTokens · (f.row op)) := by
  induction f using Filter.byChildren generalizing op with
  | condition c =>
    refine (reads_conditionTokens (hc c List.mem_cons_self)).mono fun ts hts => ?_
    rw [← List.append_nil ts]
    exact .start (.condition hts) .nil
  | logical op' children ih =>
    obtain ⟨hne, hfilled⟩ := Filter.isFilled_logical_iff.mp hf
    have hchildren : ∀ child ∈ children, ∀ op, Reads false child.print.toList false endsValue
        (RowTokens · (child.row op)) := fun child hmem =>
      ih child hmem (hfilled child hmem) fun c hmem' => hc c (Filter.mem_conditionsOf hmem hmem')
    cases children with
    | nil => exact absurd rfl hne
    | cons child rest =>
      rw [Filter.printSeparated_needsParens]
      exact reads_rowJoined (Filter.needsParens op') op' hfilled hchildren op
  | group members ih =>
    obtain ⟨hne, hfilled⟩ := Filter.isFilled_group_iff.mp hf
    have hmembers : ∀ member ∈ members, ∀ op, Reads false member.print.toList false endsValue
        (RowTokens · (member.row op)) := fun member hmem =>
      ih member hmem (hfilled member hmem) fun c hmem' => hc c (Filter.mem_conditionsOf hmem hmem')
    cases members with
    | nil => exact absurd rfl hne
    | cons member rest =>
      rw [Filter.toList_print_group]
      refine (reads_enclosed (reads_rowJoined (fun _ => false) .and hfilled hmembers .and)).mono ?_
      rintro ts ⟨left, us, right, rfl, hleft, hus, hright⟩
      rw [← List.append_nil (left :: (us ++ [right]))]
      exact .start (.parens hleft hus hright) .nil

/-! ## Plain queries -/

/-- Do the segments of a field consist of name characters, and is a column not named like a
keyword? -/
def Field.isPlain : Field → Bool
  | simple name => name.toList.all Text.isNameChar && (Connective.ofKeyword? name).isNone
  | nested base path => (base :: path).all (·.toList.all Text.isNameChar)

def Literal.isFloat : Literal → Bool
  | float _ => true
  | _ => false

def Condition.isPlain (c : Condition) : Bool := c.field.isPlain && !c.value.isFloat

/-- Are all fields of the query plain, and is no value a floating-point number? -/
def Query.isPlain (q : Query) : Bool :=
  q.filter.all (·.conditions.all Condition.isPlain) && q.select.all Field.isPlain

theorem Field.isCanonical_of_isPlain {field : Field} (hwhole : field.isWhole = true)
    (hplain : field.isPlain = true) : field.isCanonical = true := by
  have hchars : ∀ {cs : List Char}, cs.all Text.isNameChar = true →
      ∀ c ∈ cs, c ≠ '"' ∧ c ≠ '\\' := by
    intro cs hcs c hmem
    have hc := List.all_eq_true.mp hcs c hmem
    exact Text.ne_escaped_of_isKeyChar (Text.isKeyChar_of_isNameChar hc)
  cases field with
  | simple name =>
    rw [isPlain, Bool.and_eq_true] at hplain
    rw [isCanonical, Bool.and_eq_true, List.all_eq_true]
    exact ⟨fun c hmem => by simpa using hchars hplain.1 c hmem, hplain.2⟩
  | nested base path =>
    rw [isWhole, Bool.and_eq_true, List.all_eq_true] at hwhole
    rw [isPlain, List.all_eq_true] at hplain
    rw [isCanonical, Bool.and_eq_true, List.all_eq_true]
    refine ⟨hwhole.1, fun segment hmem => ?_⟩
    rw [isCanonicalSegment, hwhole.2 segment hmem, Bool.true_and]
    exact Text.isEscaped_of_plain (hchars (hplain segment hmem))

/-- What a token stands for can be printed, if it is no floating-point number. -/
theorem Literal.isCanonical_ofText (text : String) (quoted : Bool)
    (h : (ofText text quoted).isFloat = false) :
    (ofText text quoted).isCanonical (ofText text quoted).isString = true := by
  unfold ofText at h ⊢
  split
  · rfl
  split
  · rfl
  split
  · rfl
  split
  · rfl
  split
  · simp_all [isFloat]
  split
  · rename_i i hi
    obtain ⟨-, -, -, hle⟩ := readInteger?_eq_some_iff.mp hi
    exact decide_eq_true hle
  · rfl

/-- A plain condition that was read can be printed. -/
theorem Condition.isCanonical_requoted {c : Condition} (hread : c.IsRead)
    (hplain : c.isPlain = true) : c.requoted.isCanonical = true := by
  obtain ⟨hwhole, text, hvalue⟩ := hread
  rw [isPlain, Bool.and_eq_true, Bool.not_eq_true', hvalue] at hplain
  rw [isCanonical, Bool.and_eq_true]
  refine ⟨Field.isCanonical_of_isPlain hwhole hplain.1, ?_⟩
  show c.value.isCanonical c.value.isString = true
  rw [hvalue]
  exact Literal.isCanonical_ofText text c.quoted hplain.2

/-! ## Queries -/

/-- How deep reading a printed query goes. -/
def Query.printDepth (q : Query) : Nat :=
  match q.filter with
  | none => 0
  | some f => Row.depth (f.row .and)

/-- The query that is read off a printed one. -/
def Query.reread (q : Query) : Query := ⟨q.filter.map fun f => Row.filter (f.row .and), q.select⟩

/-- The tokens that the filter of a query is written with, if there is one. -/
def FilterTokens : Option Filter → List Token → Prop
  | none, ts => ts = []
  | some f, ts => RowTokens ts (f.row .and)

theorem ofTokens_of_rowTokens {us vs : List Token} {row : Row} {select : List Field}
    (h : RowTokens us row) (hselect : Select vs select) :
    (row.depth ≤ maxDepth →
        Query.ofTokens (us ++ vs) = ⟨some ⟨some row.filter, select⟩, []⟩) ∧
      (maxDepth < row.depth → (Query.ofTokens (us ++ vs)).query = none ∧
        ∃ fault ∈ (Query.ofTokens (us ++ vs)).faults, fault.value.isTooDeep = true) := by
  have hstarts : startsTail (us ++ vs) = false := startsTail_of_starts (h.starts.append vs)
  have hfits := fits_readExpression h (lastPosition (us ++ vs)) 0 (Nat.zero_le _) hselect.ends
  rw [Nat.zero_add] at hfits
  constructor
  · intro hdepth
    rw [ofTokens_of_done hstarts (hfits.done hdepth)]
    exact assemble_of_select _ hselect
  · intro hdepth
    obtain ⟨hvalue, fault, hmem, hfault⟩ := hfits.tooDeep hdepth
    rw [Query.ofTokens, hstarts, if_neg Bool.false_ne_true]
    dsimp only
    rw [hvalue]
    exact ⟨rfl, fault, List.mem_append_left _ hmem, hfault⟩

/-- The tokens of a printed query are read as far as they may nest. -/
theorem ofTokens_of_filterTokens {q : Query} {us vs : List Token} (hfilter : FilterTokens q.filter us)
    (hselect : Select vs q.select) :
    (q.printDepth ≤ maxDepth → Query.ofTokens (us ++ vs) = ⟨some q.reread, []⟩) ∧
      (maxDepth < q.printDepth → (Query.ofTokens (us ++ vs)).query = none ∧
        ∃ fault ∈ (Query.ofTokens (us ++ vs)).faults, fault.value.isTooDeep = true) := by
  obtain ⟨filter, select⟩ := q
  cases filter with
  | none =>
    obtain rfl : us = [] := hfilter
    refine ⟨fun _ => ofTokens_of_isQuery (.mk .nothing hselect), fun hdepth => ?_⟩
    cases hdepth
  | some f => exact ofTokens_of_rowTokens hfilter hselect

/-- A query that was read is printed without lexical fault. -/
theorem tokens_of_print {q : Query}
    (hfilter : ∀ f ∈ q.filter, f.isShaped = true ∧ ∀ c ∈ f.conditions, c.IsRead)
    (hselect : ∀ field ∈ q.select, field.isWhole = true) (hplain : q.isPlain = true) :
    (tokenize q.print).faults = [] ∧ ∃ us vs, (tokenize q.print).tokens = us ++ vs ∧
      FilterTokens q.filter us ∧ Select vs q.select := by
  rw [Query.isPlain, Bool.and_eq_true, List.all_eq_true] at hplain
  have hnone : q.filter = none → FilterTokens q.filter [] := fun hq => hq ▸ rfl
  have hsome : ∀ f, q.filter = some f →
      Reads false f.print.toList false endsValue (FilterTokens q.filter) := by
    intro f hq
    obtain ⟨hshaped, hread⟩ := hfilter f hq
    have hconditions := hplain.1
    rw [hq, Option.all_some, List.all_eq_true] at hconditions
    rw [hq]
    exact reads_filterRow (Filter.isFilled_of_isShaped hshaped) (fun c hmem =>
      Condition.isCanonical_requoted (hread c hmem) (hconditions c hmem)) .and
  have hcanonical : ∀ field ∈ q.select, field.isCanonical = true := fun field hmem =>
    Field.isCanonical_of_isPlain (hselect field hmem) (hplain.2 field hmem)
  exact tokenize_of_reads (reads_print hnone hsome hcanonical)

theorem Query.ofText_eq_ok_iff {text : String} {q : Query} :
    Query.ofText text = .ok q ↔ (analyse text).query? = some q := by
  rw [Query.ofText_eq]
  cases (analyse text).query? <;> simp

/-- A query that was read off a text is that of its tokens. -/
theorem query_of_ofText {text : String} {q : Query} (h : Query.ofText text = .ok q) :
    (Query.ofTokens (tokenize text).tokens).query = some q := by
  rw [Query.ofText_eq_ok_iff, Analysis.query?] at h
  split at h
  · exact h
  · cases h

/-- The conditions and the truth of a query that is read off a printed one. -/
theorem Query.filter_reread (q : Query) :
    q.reread.filter.map Filter.conditions =
        q.filter.map (fun f => f.conditions.map Condition.requoted) ∧
      ∀ v, q.reread.filter.map (Filter.holds v 0) = q.filter.map (Filter.printedHolds v 0) := by
  obtain ⟨filter, select⟩ := q
  cases filter with
  | none => exact ⟨rfl, fun _ => rfl⟩
  | some f =>
    refine ⟨congrArg some ?_, fun v => congrArg some (Row.holds_filter v 0 (f.row .and))⟩
    rw [Row.conditions_filter, Filter.conditions_row]

/-- A query that was read off a text and is plain is printed as a text that is rejected exactly if it
nests too deep. Otherwise a query is read off it that selects the same fields and has the same
conditions in the same order, with quotes around all strings. It holds wherever the first query does,
and says the same exactly if the filter is orderly. -/
theorem Query.ofText_print_of_isPlain (text : String) (a : Query) (h : Query.ofText text = .ok a)
    (hplain : a.isPlain = true) :
    (a.printDepth ≤ maxDepth → ∃ b, Query.ofText a.print = .ok b ∧ b.select = a.select ∧
      b.filter.map Filter.conditions =
        a.filter.map (fun f => f.conditions.map Condition.requoted) ∧
      (∀ v, a.filter.map (Filter.holds v 0) = some true →
        b.filter.map (Filter.holds v 0) = some true) ∧
      ((∀ v, b.filter.map (Filter.holds v 0) = a.filter.map (Filter.holds v 0)) ↔
        a.filter.all Filter.isOrderly = true)) ∧
    (maxDepth < a.printDepth → Query.ofText a.print = .error (validate a.print) ∧
      ∃ fault ∈ (analyse a.print).outcome.faults, fault.value.isTooDeep = true) := by
  obtain ⟨hfilter, hselect⟩ := shape_of_ofTokens (query_of_ofText h)
  obtain ⟨hfaults, us, vs, htokens, hus, hvs⟩ := tokens_of_print hfilter hselect hplain
  obtain ⟨hread, htooDeep⟩ := ofTokens_of_filterTokens hus hvs
  rw [← htokens] at hread htooDeep
  have hquery : (analyse a.print).query? = (Query.ofTokens (tokenize a.print).tokens).query := by
    rw [Analysis.query?, analyse, hfaults]
    rfl
  constructor
  · intro hdepth
    obtain ⟨hconditions, hholds⟩ := Query.filter_reread a
    refine ⟨a.reread, ?_, rfl, hconditions, ?_, ?_⟩
    · rw [Query.ofText_eq_ok_iff, hquery, hread hdepth]
    · intro v hv
      rw [hholds]
      cases ha : a.filter with
      | none =>
        rw [ha] at hv
        cases hv
      | some f =>
        rw [ha] at hv
        have hfilled := Filter.isFilled_of_isShaped (hfilter f ha).1
        exact congrArg some (Filter.printedHolds_of_holds hfilled 0 (Option.some.inj hv))
    · simp only [hholds]
      cases ha : a.filter with
      | none => simp
      | some f =>
        simp only [Option.map_some, Option.some.injEq, Option.all_some]
        exact Filter.printedHolds_eq_iff (hfilter f ha).1 0
  · intro hdepth
    obtain ⟨hnone, hfault⟩ := htooDeep hdepth
    refine ⟨?_, hfault⟩
    rw [Query.ofText_eq, hquery, hnone]

/-- A group whose first member joins its children by `or`, a string without quotes, and a selected
path. -/
theorem Query.ofText_print_of_isPlain_orderly :
    let text := "(a = 1 or b = x 'c' = 3) and d != null | e.f"
    let a : Query := ⟨some (.logical .and [
        .group [
          .logical .or [.condition ⟨.simple "a", .equal, .integer 1, false⟩,
            .condition ⟨.simple "b", .equal, .string "x", false⟩],
          .condition ⟨.simple "c", .equal, .integer 3, false⟩],
        .condition ⟨.simple "d", .notEqual, .null, false⟩]), [.nested "e" ["f"]]⟩
    Query.ofText text = .ok a ∧ a.isPlain = true ∧ a.printDepth ≤ maxDepth ∧
      ∃ b, Query.ofText a.print = .ok b ∧ b.select = a.select ∧
        ∀ v, b.filter.map (Filter.holds v 0) = a.filter.map (Filter.holds v 0) := by
  intro text a
  have hread : Query.ofText text = .ok a := Query.ofText_eq_ok_iff.mpr (by decide +kernel)
  have hplain : a.isPlain = true := by decide +kernel
  have hdepth : a.printDepth ≤ maxDepth := by decide
  obtain ⟨b, hb, hselect, -, -, horderly⟩ :=
    (Query.ofText_print_of_isPlain text a hread hplain).1 hdepth
  exact ⟨hread, hplain, hdepth, b, hb, hselect, horderly.mpr (by decide)⟩

/-- A later member of a group that joins its children by `or`: what is printed holds for `b = 3`
alone, and what was read does not. -/
theorem Query.ofText_print_disorderly :
    let x : Filter := .condition ⟨.simple "x", .equal, .integer 1, false⟩
    let y : Filter := .condition ⟨.simple "a", .equal, .integer 2, false⟩
    let z : Filter := .condition ⟨.simple "b", .equal, .integer 3, false⟩
    let a : Query := ⟨some (.group [x, .logical .or [y, z]]), []⟩
    let b : Query := ⟨some (.logical .or [.logical .and [x, y], z]), []⟩
    Query.ofText "(x = 1 \"a\" = 2 or b = 3)" = .ok a ∧ a.isPlain = true ∧
      Query.ofText a.print = .ok b ∧ a.filter.map (Filter.holds (· = 2) 0) = some false ∧
      b.filter.map (Filter.holds (· = 2) 0) = some true := by
  intro x y z a b
  have hread : (analyse "(x = 1 \"a\" = 2 or b = 3)").query? = some a := by decide +kernel
  have hreread : (analyse a.print).query? = some b := by decide +kernel
  exact ⟨Query.ofText_eq_ok_iff.mpr hread, by decide +kernel, Query.ofText_eq_ok_iff.mpr hreread,
    rfl, rfl⟩

end LogQuery
