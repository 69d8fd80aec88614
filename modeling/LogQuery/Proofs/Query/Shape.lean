import LogQuery.Proofs.Filter.Truth
import LogQuery.Proofs.Literal.Integers
import LogQuery.Proofs.Query.Derivation
import LogQuery.Token.Tokenization

/-!
# The shape of queries that are read

What holds of every query that is read, whatever its tokens are: every node of the filter has at least
two children and does not start with a node of its own connective, every nested field has a path of
segments that are not empty, and every value is one that a token can stand for.

* `shape_of_primary` and its companions: by induction on the derivation of the filter;
* `Filter.isShaped_of_mem_nodes`: a shaped filter has shaped nodes at every depth;
* `shape_of_ofTokens`: for the filter and the selected fields of a query.
-/

namespace LogQuery

open Grammar (comparedField?)

/-! ## Fields -/

namespace Field

/-- Has a nested field a path, and no empty segment? -/
def isWhole : Field → Bool
  | simple _ => true
  | nested base path => !path.isEmpty && (base :: path).all (!·.isEmpty)

theorem isWhole_ofKey (key : String) : (ofKey key).isWhole = true := by
  have hnonempty : ∀ cs ∈ (segments none [] key.toList).filter (!·.isEmpty),
      (String.ofList cs).isEmpty = false := by
    intro cs hcs
    have hne : cs ≠ [] := by simpa using (List.mem_filter.mp hcs).2
    rw [Bool.eq_false_iff, ne_eq, String.isEmpty_iff]
    exact fun hempty => hne (String.ofList_eq_empty_iff.mp hempty)
  unfold ofKey
  split
  · rfl
  · rename_i base path hsegments
    rw [hsegments] at hnonempty
    cases path with
    | nil => rfl
    | cons next path =>
      show (nested (String.ofList base) ((next :: path).map String.ofList)).isWhole = true
      rw [isWhole, ← List.map_cons, List.all_map, Bool.and_eq_true, List.all_eq_true]
      exact ⟨rfl, fun cs hcs => by rw [Function.comp_apply, hnonempty cs hcs]; rfl⟩

theorem isWhole_nested_iff {base : String} {path : List String} :
    (nested base path).isWhole = true ↔ path ≠ [] ∧ base ≠ "" ∧ "" ∉ path := by
  rw [isWhole, Bool.and_eq_true, List.all_cons, Bool.and_eq_true, List.all_eq_true]
  refine and_congr (by simp) (and_congr (by simp) ⟨?_, ?_⟩)
  · intro hpath hmem
    exact absurd (hpath "" hmem) (by simp)
  · intro hempty segment hmem
    have hne : segment ≠ "" := fun heq => hempty (heq ▸ hmem)
    simpa using hne

end Field

theorem isWhole_of_comparedField? {t : Token} {field : Field} (h : comparedField? t = some field) :
    field.isWhole = true := by
  unfold comparedField? at h
  split at h
  · cases h
    exact Field.isWhole_ofKey t.text
  · cases h
    rfl
  · cases h

theorem isWhole_of_selectedField? {t : Token} {field : Field} (h : selectedField? t = some field) :
    field.isWhole = true := by
  unfold selectedField? at h
  split at h
  · cases h
    exact Field.isWhole_ofKey t.text
  · split at h
    · cases h
      rfl
    · cases h
  · cases h

/-- Is the field whole, and does some token stand for the value? -/
def Condition.IsRead (c : Condition) : Prop :=
  c.field.isWhole = true ∧ ∃ text, c.value = .ofText text c.quoted

/-! ## Filters -/

namespace Filter

theorem isShaped_pair {op : Connective} {left right : Filter} (hrun : left.isRunOf op = false)
    (hleft : left.isShaped = true) (hright : right.isShaped = true) :
    (logical op [left, right]).isShaped = true := by
  refine isShaped_logical_iff.mpr ⟨Nat.le_refl 2, ?_, ?_⟩
  · rintro first ⟨⟩
    exact hrun
  · exact List.forall_mem_cons.mpr ⟨hleft, List.forall_mem_singleton.mpr hright⟩

theorem isShaped_join {op : Connective} {left right : Filter} (hleft : left.isShaped = true)
    (hright : right.isShaped = true) : (join op left right).isShaped = true := by
  cases left with
  | logical op' children =>
    rw [join]
    split
    · rename_i hop
      subst hop
      obtain ⟨hlength, hfirst, hchildren⟩ := isShaped_logical_iff.mp hleft
      refine isShaped_logical_iff.mpr ⟨by rw [List.length_append]; omega, ?_, ?_⟩
      · cases children with
        | nil => exact absurd hlength (by simp)
        | cons child rest => exact hfirst
      · exact List.forall_mem_append.mpr ⟨hchildren, List.forall_mem_singleton.mpr hright⟩
    · rename_i hop
      exact isShaped_pair (decide_eq_false hop) hleft hright
  | _ => exact isShaped_pair rfl hleft hright

theorem isShaped_ofMembers {members : List Filter} (hne : members ≠ [])
    (h : ∀ f ∈ members, f.isShaped = true) : (ofMembers members).isShaped = true := by
  unfold ofMembers
  split
  · exact h _ List.mem_cons_self
  · rename_i hsingle
    refine isShaped_group_iff.mpr ⟨?_, h⟩
    cases members with
    | nil => exact absurd rfl hne
    | cons f rest =>
      cases rest with
      | nil => exact absurd rfl (hsingle f)
      | cons next rest => exact Nat.le_add_left 2 _

mutual

/-- All the filters that a filter is built from, itself first. -/
def nodes : Filter → List Filter
  | condition c => [condition c]
  | logical op children => logical op children :: nodesOf children
  | group members => group members :: nodesOf members

/-- All the filters that several filters are built from. -/
def nodesOf : List Filter → List Filter
  | [] => []
  | child :: rest => child.nodes ++ nodesOf rest

end

theorem mem_nodesOf_iff {node : Filter} {children : List Filter} :
    node ∈ nodesOf children ↔ ∃ child ∈ children, node ∈ child.nodes := by
  induction children with
  | nil => simp [nodesOf]
  | cons child rest ih => simp [nodesOf, ih]

theorem isShaped_of_mem_nodes {f node : Filter} (hshaped : f.isShaped = true)
    (hnode : node ∈ f.nodes) : node.isShaped = true := by
  induction f using byChildren with
  | condition c =>
    rw [nodes, List.mem_singleton] at hnode
    rw [hnode, isShaped]
  | logical op children ih =>
    rw [nodes, List.mem_cons, mem_nodesOf_iff] at hnode
    rcases hnode with rfl | ⟨child, hchild, hnode⟩
    · exact hshaped
    · exact ih child hchild ((isShaped_logical_iff.mp hshaped).2.2 child hchild) hnode
  | group members ih =>
    rw [nodes, List.mem_cons, mem_nodesOf_iff] at hnode
    rcases hnode with rfl | ⟨member, hmember, hnode⟩
    · exact hshaped
    · exact ih member hmember ((isShaped_group_iff.mp hshaped).2 member hmember) hnode

theorem mem_conditions_of_mem_nodes {f : Filter} {c : Condition} (h : condition c ∈ f.nodes) :
    c ∈ f.conditions := by
  induction f using byChildren with
  | condition c' =>
    rw [nodes, List.mem_singleton, condition.injEq] at h
    rw [conditions, h]
    exact List.mem_singleton_self c'
  | logical op children ih =>
    rw [nodes, List.mem_cons, mem_nodesOf_iff] at h
    rcases h with heq | ⟨child, hchild, hnode⟩
    · cases heq
    · exact mem_conditionsOf hchild (ih child hchild hnode)
  | group members ih =>
    rw [nodes, List.mem_cons, mem_nodesOf_iff] at h
    rcases h with heq | ⟨member, hmember, hnode⟩
    · cases heq
    · exact mem_conditionsOf hmember (ih member hmember hnode)

theorem conditions_ofMembers (fs : List Filter) :
    (ofMembers fs).conditions = conditionsOf fs := by
  unfold ofMembers
  split
  · exact (List.append_nil _).symm
  · rfl

end Filter

namespace Derivation

mutual

theorem shape_of_primary {depth : Nat} {ts rest : List Token} {f : Filter} :
    Primary depth ts f rest → f.isShaped = true ∧ ∀ c ∈ f.conditions, c.IsRead
  | .condition hkey _ _ =>
    ⟨rfl, List.forall_mem_singleton.mpr ⟨isWhole_of_comparedField? hkey, _, rfl⟩⟩
  | .parens _ _ h _ => by
    obtain ⟨hne, hshaped, hread⟩ := shape_of_members h
    rw [Filter.conditions_ofMembers]
    exact ⟨Filter.isShaped_ofMembers hne hshaped, hread⟩

theorem shape_of_members {depth : Nat} {ts rest : List Token} {members : List Filter} :
    Members depth ts members rest → members ≠ [] ∧ (∀ f ∈ members, f.isShaped = true) ∧
      ∀ c ∈ Filter.conditionsOf members, c.IsRead
  | .one h => by
    obtain ⟨hshaped, hread⟩ := shape_of_expression h
    rw [Filter.conditionsOf, Filter.conditionsOf, List.append_nil]
    exact ⟨List.cons_ne_nil _ _, List.forall_mem_singleton.mpr hshaped, hread⟩
  | .more h hrest => by
    obtain ⟨hshaped, hread⟩ := shape_of_expression h
    obtain ⟨-, hshaped', hread'⟩ := shape_of_members hrest
    rw [Filter.conditionsOf]
    exact ⟨List.cons_ne_nil _ _, List.forall_mem_cons.mpr ⟨hshaped, hshaped'⟩,
      List.forall_mem_append.mpr ⟨hread, hread'⟩⟩

theorem shape_of_expression {depth : Nat} {ts rest : List Token} {f : Filter} :
    Expression depth ts f rest → f.isShaped = true ∧ ∀ c ∈ f.conditions, c.IsRead
  | .chain h hchain => by
    obtain ⟨hshaped, hread⟩ := shape_of_primary h
    exact shape_of_chain hchain hshaped hread

theorem shape_of_chain {depth : Nat} {left f : Filter} {ts rest : List Token} :
    Chain depth left ts f rest → left.isShaped = true → (∀ c ∈ left.conditions, c.IsRead) →
      f.isShaped = true ∧ ∀ c ∈ f.conditions, c.IsRead
  | .done _, hshaped, hread => ⟨hshaped, hread⟩
  | .link _ _ h hchain, hshaped, hread => by
    obtain ⟨hshaped', hread'⟩ := shape_of_primary h
    refine shape_of_chain hchain (Filter.isShaped_join hshaped hshaped') ?_
    rw [Filter.conditions_join]
    exact List.forall_mem_append.mpr ⟨hread, hread'⟩

end

end Derivation

/-! ## Queries -/

theorem isWhole_of_readSelect (separator : Token) (ts : List Token) :
    ∀ field ∈ (readSelect separator ts).1, field.isWhole = true := by
  fun_induction readSelect separator ts with
  | case1 => simp
  | case2 => simp
  | case3 _ t field hfield => exact List.forall_mem_singleton.mpr (isWhole_of_selectedField? hfield)
  | case4 => simp
  | case5 _ t s rest field hfield hcomma r ih =>
    exact List.forall_mem_cons.mpr ⟨isWhole_of_selectedField? hfield, ih⟩
  | case6 _ t s rest field hfield hcomma =>
    exact List.forall_mem_singleton.mpr (isWhole_of_selectedField? hfield)

theorem isWhole_of_readTail (ts : List Token) :
    ∀ field ∈ (readTail ts).1, field.isWhole = true := by
  unfold readTail
  split
  · simp
  · split
    · exact isWhole_of_readSelect _ _
    · split <;> simp

/-- The filter of a query is shaped, and its conditions and selected fields are ones that tokens
stand for. -/
theorem shape_of_ofTokens {ts : List Token} {q : Query} (h : (Query.ofTokens ts).query = some q) :
    (∀ f ∈ q.filter, f.isShaped = true ∧ ∀ c ∈ f.conditions, c.IsRead) ∧
      ∀ field ∈ q.select, field.isWhole = true := by
  obtain ⟨rest, -, hselect, hfilter⟩ := Derivation.expression_of_ofTokens h
  refine ⟨fun f hf => ?_, hselect ▸ isWhole_of_readTail rest⟩
  rcases hfilter with ⟨hnone, -⟩ | ⟨f', hsome, hexpression⟩
  · rw [hnone] at hf
    cases hf
  · rw [hsome] at hf
    cases hf
    exact Derivation.shape_of_expression hexpression

/-- Every node of the filter of a query that was read, at any depth, has at least two children and
does not start with a node of its own connective; every value in quotes is a string and every integer
is held exactly; and every nested field, compared or selected, has a path and no empty segment. -/
theorem Query.shape_of_nodes {ts : List Token} {q : Query}
    (h : (Query.ofTokens ts).query = some q) :
    (∀ f ∈ q.filter,
      (∀ op children, .logical op children ∈ f.nodes →
        2 ≤ children.length ∧ ∀ grandchildren, children.head? ≠ some (.logical op grandchildren)) ∧
      (∀ members, .group members ∈ f.nodes → 2 ≤ members.length) ∧
      ∀ c, .condition c ∈ f.nodes →
        (c.quoted = true → ∃ s, c.value = .string s) ∧
        (∀ i, c.value = .integer i →
          -(Literal.maxInteger : Int) ≤ i ∧ i ≤ (Literal.maxInteger : Int)) ∧
        ∀ base path, c.field = .nested base path → path ≠ [] ∧ base ≠ "" ∧ "" ∉ path) ∧
      ∀ base path, .nested base path ∈ q.select → path ≠ [] ∧ base ≠ "" ∧ "" ∉ path := by
  obtain ⟨hfilter, hselect⟩ := shape_of_ofTokens h
  refine ⟨fun f hf => ?_, fun base path hmem => Field.isWhole_nested_iff.mp (hselect _ hmem)⟩
  obtain ⟨hshaped, hread⟩ := hfilter f hf
  refine ⟨fun op children hnode => ?_, fun members hnode => ?_, fun c hnode => ?_⟩
  · obtain ⟨hlength, hfirst, -⟩ :=
      Filter.isShaped_logical_iff.mp (Filter.isShaped_of_mem_nodes hshaped hnode)
    refine ⟨hlength, fun grandchildren hhead => ?_⟩
    have hrun := hfirst _ hhead
    rw [Filter.isRunOf, decide_eq_false_iff_not] at hrun
    exact hrun rfl
  · exact (Filter.isShaped_group_iff.mp (Filter.isShaped_of_mem_nodes hshaped hnode)).1
  · obtain ⟨hwhole, text, hvalue⟩ := hread c (Filter.mem_conditions_of_mem_nodes hnode)
    refine ⟨fun hquoted => ?_, fun i hi => ?_, fun base path hfield => ?_⟩
    · exact ⟨text, by rw [hvalue, hquoted]; rfl⟩
    · have hbound := Literal.natAbs_le_of_ofText (hvalue.symm.trans hi)
      omega
    · rw [hfield] at hwhole
      exact Field.isWhole_nested_iff.mp hwhole

/-- The query has a node of every kind, a value in quotes, integers on both sides of zero, and nested
fields that are compared and selected. -/
theorem Query.shape_of_nodes_grouped :
    let ts := (tokenize "(a.b = '1' 'c' = -7) or d = 2 or e = x | f.g").tokens
    let first := Filter.condition ⟨.nested "a" ["b"], .equal, .string "1", true⟩
    let second := Filter.condition ⟨.simple "c", .equal, .integer (-7), false⟩
    let third := Filter.condition ⟨.simple "d", .equal, .integer 2, false⟩
    let last := Filter.condition ⟨.simple "e", .equal, .string "x", false⟩
    let f := Filter.logical .or [.group [first, second], third, last]
    (Query.ofTokens ts).query = some ⟨some f, [.nested "f" ["g"]]⟩ ∧
    f.nodes = [f, .group [first, second], first, second, third, last] ∧
    (∀ op children, .logical op children ∈ f.nodes →
      2 ≤ children.length ∧ ∀ grandchildren, children.head? ≠ some (.logical op grandchildren)) ∧
    (∀ members, .group members ∈ f.nodes → 2 ≤ members.length) ∧
    ∀ c, .condition c ∈ f.nodes →
      (c.quoted = true → ∃ s, c.value = .string s) ∧
      (∀ i, c.value = .integer i →
        -(Literal.maxInteger : Int) ≤ i ∧ i ≤ (Literal.maxInteger : Int)) ∧
      ∀ base path, c.field = .nested base path → path ≠ [] ∧ base ≠ "" ∧ "" ∉ path := by
  intro ts first second third last f
  have hquery : (Query.ofTokens ts).query = some ⟨some f, [.nested "f" ["g"]]⟩ := by
    decide +kernel
  exact ⟨hquery, rfl, (Query.shape_of_nodes hquery).1 f rfl⟩

end LogQuery
