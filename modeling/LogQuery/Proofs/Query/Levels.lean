import LogQuery.Proofs.Query.Shape
import LogQuery.Query.Analysis

/-!
# How many levels a filter has

The depth of a reading counts the parentheses that are open and the changes of the connective in the
expressions around, and is at most `maxDepth`. It does not bound the levels of the filter that is
read: what stands in parentheses keeps its levels when they close, but the depth goes back, and the
operands that follow build further levels around it.

* `levels_lt_length`: a filter has more conditions than levels, so that it takes `maxDepth + 2`
  conditions to have too many levels;
* `Derivation.closesLast_of_expression` and its companions: nor has it too many if no operand is joined
  to one in parentheses before it;
* `Derivation.levels_of_expression` and its companions: with `room` levels of depth left, an expression
  has at most `mostLevels room` levels;
* `exists_levels_eq`: some filter has as many, 2207 in all.
-/

namespace LogQuery

/-! ## Levels -/

namespace Filter

mutual

/-- The levels of nodes in a filter. -/
def levels : Filter → Nat
  | condition _ => 0
  | logical _ children => levelsOf children + 1
  | group children => levelsOf children + 1

/-- The most levels that one of several filters has. -/
def levelsOf : List Filter → Nat
  | [] => 0
  | child :: rest => max child.levels (levelsOf rest)

end

theorem levelsOf_append (as bs : List Filter) :
    levelsOf (as ++ bs) = max (levelsOf as) (levelsOf bs) := by
  induction as with
  | nil => exact (Nat.zero_max _).symm
  | cons child rest ih => rw [List.cons_append, levelsOf, levelsOf, ih, Nat.max_assoc]

/-- Is the filter a run of some connective? -/
def IsRun (f : Filter) : Prop := ∃ op, f.isRunOf op = true

theorem isRunOf_join (op : Connective) (left right : Filter) :
    (join op left right).isRunOf op = true := by
  have hrun : ∀ children, (logical op children).isRunOf op = true := fun _ => decide_eq_true rfl
  cases left with
  | logical op' children =>
    rw [join]
    split <;> exact hrun _
  | _ => exact hrun _

/-- A further operand of a run stands one level below it. -/
theorem levels_join_of_run {op : Connective} {left : Filter} (h : left.isRunOf op = true)
    (right : Filter) : (join op left right).levels = max left.levels (right.levels + 1) := by
  cases left with
  | logical op' children =>
    rw [join, if_pos (of_decide_eq_true h), levels, levelsOf_append, levels, levelsOf, levelsOf]
    omega
  | _ => cases h

/-- A new run puts a level around both of its operands. -/
theorem levels_join {op : Connective} {left : Filter} (h : left.isRunOf op = false)
    (right : Filter) : (join op left right).levels = max left.levels right.levels + 1 := by
  have hpair : (logical op [left, right]).levels = max left.levels right.levels + 1 := by
    simp [levels, levelsOf]
  cases left with
  | logical op' children =>
    rw [join, if_neg (of_decide_eq_false h)]
    exact hpair
  | _ => exact hpair

/-- Every node has two children at least, so that every level takes a condition of its own. -/
theorem levels_lt_length {f : Filter} (hf : f.isShaped = true) :
    f.levels < f.conditions.length := by
  have hnode : ∀ children : List Filter,
      (∀ child ∈ children, child.levels < child.conditions.length) →
      levelsOf children + children.length ≤ (conditionsOf children).length := by
    intro children hchildren
    induction children with
    | nil => exact Nat.le_refl 0
    | cons child rest ih =>
      have hchild := hchildren child List.mem_cons_self
      have hrest := ih fun other hmem => hchildren other (List.mem_cons_of_mem _ hmem)
      rw [levelsOf, conditionsOf, List.length_append, List.length_cons]
      omega
  induction f using byChildren with
  | condition c => exact Nat.zero_lt_one
  | logical op children ih =>
    obtain ⟨hlength, -, hshaped⟩ := isShaped_logical_iff.mp hf
    have hchildren := hnode children fun child hmem => ih child hmem (hshaped child hmem)
    rw [levels, conditions]
    omega
  | group children ih =>
    obtain ⟨hlength, hshaped⟩ := isShaped_group_iff.mp hf
    have hchildren := hnode children fun child hmem => ih child hmem (hshaped child hmem)
    rw [levels, conditions]
    omega

end Filter

/-! ## Parentheses that close last -/

/-- Does no operand come next that would be joined to what stands before? -/
def endsOperands : List Token → Bool
  | [] => true
  | t :: _ => t.kind ≠ .bool && t.kind ≠ .key

/-- Is no operand joined to one in parentheses that stands before it? -/
def closesLast : List Token → Bool
  | [] => true
  | t :: rest => (!(t.kind = .paren && t.text = ")") || endsOperands rest) && closesLast rest

theorem closesLast_tail {t : Token} {rest : List Token} (h : closesLast (t :: rest) = true) :
    closesLast rest = true := by
  rw [closesLast, Bool.and_eq_true] at h
  exact h.2

theorem ends_of_closesLast {t : Token} {rest : List Token} (ht : Grammar.IsParen ")" t)
    (h : closesLast (t :: rest) = true) : Grammar.Ends rest := by
  rw [closesLast, Bool.and_eq_true, ht.1, ht.2] at h
  intro u hu
  cases rest with
  | nil => cases hu
  | cons v rest =>
    cases hu
    simpa [endsOperands] using h.1

namespace Derivation

theorem levels_of_ofMembers {members : List Filter} {n : Nat} (h : Filter.levelsOf members ≤ n) :
    (Filter.ofMembers members).levels ≤ n + 1 := by
  unfold Filter.ofMembers
  split
  · rw [Filter.levelsOf] at h
    omega
  · rw [Filter.levels]
    omega

/-- Where no operand is joined any more, a chain is at its end. -/
theorem Chain.eq_of_ends {depth : Nat} {left f : Filter} {ts rest : List Token}
    (h : Chain depth left ts f rest) (hends : Grammar.Ends ts) : f = left ∧ rest = ts := by
  cases h with
  | done _ => exact ⟨rfl, rfl⟩
  | link hlink _ _ _ =>
    cases hlink with
    | @keyword _ t _ ht => exact absurd ht.1 (hends t rfl).1
    | @implied t _ ht => exact absurd ht (hends t rfl).2

mutual

theorem closesLast_of_primary {depth : Nat} {ts rest : List Token} {f : Filter} :
    Primary depth ts f rest → closesLast ts = true → depth ≤ maxDepth →
      closesLast rest = true ∧ depth + f.levels ≤ maxDepth ∧
        (f.levels = 0 ∧ ¬ f.IsRun ∨ Grammar.Ends rest)
  | .condition .., hts, hdepth => by
    refine ⟨closesLast_tail (closesLast_tail (closesLast_tail hts)), hdepth, .inl ⟨rfl, ?_⟩⟩
    rintro ⟨op, hop⟩
    cases hop
  | @Primary.parens _ _ _ _ _ members _ hdepth h hright, hts, _ => by
    obtain ⟨hrest, hmembers⟩ := closesLast_of_members h (closesLast_tail hts) hdepth
    have hlevels : (Filter.ofMembers members).levels ≤ Filter.levelsOf members + 1 :=
      levels_of_ofMembers (Nat.le_refl _)
    exact ⟨closesLast_tail hrest, by omega, .inr (ends_of_closesLast hright hrest)⟩

theorem closesLast_of_members {depth : Nat} {ts rest : List Token} {members : List Filter} :
    Members depth ts members rest → closesLast ts = true → depth ≤ maxDepth →
      closesLast rest = true ∧ depth + Filter.levelsOf members ≤ maxDepth
  | .one h, hts, hdepth => by
    obtain ⟨hrest, hlevels⟩ := closesLast_of_expression h hts hdepth
    refine ⟨hrest, ?_⟩
    rw [Filter.levelsOf, Filter.levelsOf]
    omega
  | .more h hmembers, hts, hdepth => by
    obtain ⟨hmid, hlevels⟩ := closesLast_of_expression h hts hdepth
    obtain ⟨hrest, hlevels'⟩ := closesLast_of_members hmembers hmid hdepth
    refine ⟨hrest, ?_⟩
    rw [Filter.levelsOf]
    omega

theorem closesLast_of_expression {depth : Nat} {ts rest : List Token} {f : Filter} :
    Expression depth ts f rest → closesLast ts = true → depth ≤ maxDepth →
      closesLast rest = true ∧ depth + f.levels ≤ maxDepth
  | .chain h hchain, hts, hdepth => by
    obtain ⟨hmid, hlevels, ⟨hzero, hrun⟩ | hends⟩ := closesLast_of_primary h hts hdepth
    · exact closesLast_of_chain hchain hmid hdepth depth (by omega) fun hl => absurd hl hrun
    · obtain ⟨rfl, rfl⟩ := hchain.eq_of_ends hends
      exact ⟨hmid, hlevels⟩

/-- A chain that started at `base` with a condition has built no more levels than it went deeper, up
to an operand in parentheses, which is its last. -/
theorem closesLast_of_chain {depth : Nat} {left f : Filter} {ts rest : List Token} :
    Chain depth left ts f rest → closesLast ts = true → depth ≤ maxDepth →
      ∀ base, base + left.levels ≤ depth → (left.IsRun → base < depth) →
        closesLast rest = true ∧ base + f.levels ≤ maxDepth
  | .done _, hts, hdepth, base, hlevels, _ => ⟨hts, by omega⟩
  | @Chain.link _ next left right f op ts us vs rest hlink hstep h hchain, hts, hdepth, base,
      hlevels, hrun => by
    have hus : closesLast us = true := by
      cases hlink with
      | keyword _ => exact closesLast_tail hts
      | implied _ => exact hts
    have hprimary := closesLast_of_primary h hus
    have hrest := closesLast_of_chain hchain
    cases hstep with
    | extend hrunOf =>
      have hbase := hrun ⟨op, hrunOf⟩
      have hjoin := Filter.levels_join_of_run hrunOf right
      obtain ⟨hvs, hright, ⟨hzero, -⟩ | hends⟩ := hprimary hdepth
      · exact hrest hvs hdepth base (by omega) fun _ => hbase
      · obtain ⟨rfl, rfl⟩ := hchain.eq_of_ends hends
        exact ⟨hvs, by omega⟩
    | deepen hrunOf hlt =>
      have hjoin := Filter.levels_join hrunOf right
      obtain ⟨hvs, hright, ⟨hzero, -⟩ | hends⟩ := hprimary hlt
      · exact hrest hvs hlt base (by omega) fun _ => by omega
      · obtain ⟨rfl, rfl⟩ := hchain.eq_of_ends hends
        exact ⟨hvs, by omega⟩

end

end Derivation

/-! ## The most levels -/

/-- The most levels of an expression with `room` levels of depth left. -/
def mostLevels : Nat → Nat
  | 0 => 0
  | 1 => 2
  | room + 2 => mostLevels (room + 1) + (room + 2) + 2

/-- The most levels of a primary with `room` levels of depth left. -/
def mostOfPrimary : Nat → Nat
  | 0 => 0
  | room + 1 => mostLevels room + 1

theorem mostLevels_le_succ (room : Nat) : mostLevels room ≤ mostLevels (room + 1) := by
  cases room with
  | zero => decide
  | succ room =>
    rw [mostLevels]
    omega

theorem mostOfPrimary_le_succ (room : Nat) : mostOfPrimary room ≤ mostOfPrimary (room + 1) := by
  cases room with
  | zero => exact Nat.zero_le _
  | succ room =>
    have h := mostLevels_le_succ room
    simp only [mostOfPrimary]
    omega

namespace Derivation

mutual

/-- A primary is a run only if it stands in parentheses and a connective inside went deeper. -/
theorem levels_of_primary {depth : Nat} {ts rest : List Token} {f : Filter} :
    Primary depth ts f rest → ∀ room, depth + room = maxDepth →
      f.levels ≤ mostOfPrimary room ∧ (f.IsRun → 2 ≤ room)
  | .condition .., room, _ => ⟨Nat.zero_le _, by rintro ⟨op, hop⟩; cases hop⟩
  | @Primary.parens _ _ _ _ _ members _ hdepth h _, room, hroom => by
    obtain ⟨room, rfl⟩ : ∃ inner, room = inner + 1 := ⟨room - 1, by omega⟩
    obtain ⟨hlevels, hrun⟩ := levels_of_members h room (by omega)
    refine ⟨levels_of_ofMembers hlevels, ?_⟩
    unfold Filter.ofMembers
    split
    · rename_i member
      intro hmember
      have := hrun member List.mem_cons_self hmember
      omega
    · rintro ⟨op, hop⟩
      cases hop

theorem levels_of_members {depth : Nat} {ts rest : List Token} {members : List Filter} :
    Members depth ts members rest → ∀ room, depth + room = maxDepth →
      Filter.levelsOf members ≤ mostLevels room ∧ ∀ f ∈ members, f.IsRun → 1 ≤ room
  | .one h, room, hroom => by
    obtain ⟨hlevels, hrun⟩ := levels_of_expression h room hroom
    refine ⟨?_, List.forall_mem_singleton.mpr hrun⟩
    rw [Filter.levelsOf, Filter.levelsOf]
    omega
  | .more h hrest, room, hroom => by
    obtain ⟨hlevels, hrun⟩ := levels_of_expression h room hroom
    obtain ⟨hlevels', hrun'⟩ := levels_of_members hrest room hroom
    refine ⟨?_, List.forall_mem_cons.mpr ⟨hrun, hrun'⟩⟩
    rw [Filter.levelsOf]
    omega

theorem levels_of_expression {depth : Nat} {ts rest : List Token} {f : Filter} :
    Expression depth ts f rest → ∀ room, depth + room = maxDepth →
      f.levels ≤ mostLevels room ∧ (f.IsRun → 1 ≤ room)
  | @Expression.chain _ _ _ _ left f h hchain, room, hroom => by
    obtain ⟨hleft, hrunLeft⟩ := levels_of_primary h room hroom
    obtain ⟨hextended, hnew, hrun⟩ := levels_of_chain hchain room hroom
    by_cases hl : left.IsRun
    · obtain ⟨room, rfl⟩ : ∃ inner, room = inner + 2 := ⟨room - 2, by have := hrunLeft hl; omega⟩
      refine ⟨?_, fun _ => by omega⟩
      simp only [mostOfPrimary] at hleft hextended
      rw [mostLevels]
      omega
    · refine ⟨?_, fun hf => (hrun hf).resolve_left hl⟩
      have hlevels := hnew hl
      match room, hleft, hlevels with
      | 0, hleft, hlevels =>
        change left.levels ≤ 0 at hleft
        change f.levels ≤ max left.levels 0 + 0 at hlevels
        rw [mostLevels]
        omega
      | 1, hleft, hlevels =>
        change left.levels ≤ 0 + 1 at hleft
        change f.levels ≤ max left.levels 0 + 1 at hlevels
        rw [mostLevels]
        omega
      | room + 2, hleft, hlevels =>
        have hmono := mostLevels_le_succ room
        change left.levels ≤ mostLevels (room + 1) + 1 at hleft
        change f.levels ≤ max left.levels (mostLevels room + 1) + (room + 2) at hlevels
        rw [mostLevels]
        omega

/-- Every change of the connective puts one level around all that came before it. What came first may
already be a run; then operands are added to it at no depth. -/
theorem levels_of_chain {depth : Nat} {left f : Filter} {ts rest : List Token} :
    Chain depth left ts f rest → ∀ room, depth + room = maxDepth →
      f.levels ≤ max left.levels (mostOfPrimary room + 1) + room ∧
      (¬ left.IsRun → f.levels ≤ max left.levels (mostOfPrimary (room - 1)) + room) ∧
      (f.IsRun → left.IsRun ∨ 1 ≤ room)
  | .done _, room, _ => ⟨by omega, fun _ => by omega, .inl⟩
  | @Chain.link _ _ left right _ op _ _ _ _ _ hstep h hchain, room, hroom => by
    have hprimary := levels_of_primary h
    have hrest := levels_of_chain hchain
    cases hstep with
    | extend hrun =>
      have hright := (hprimary room hroom).1
      have hf := (hrest room hroom).1
      rw [Filter.levels_join_of_run hrun] at hf
      exact ⟨by omega, fun hl => absurd ⟨op, hrun⟩ hl, fun _ => .inl ⟨op, hrun⟩⟩
    | deepen hrun hdepth =>
      obtain ⟨room, rfl⟩ : ∃ inner, room = inner + 1 := ⟨room - 1, by omega⟩
      have hright := (hprimary room (by omega)).1
      have hf := (hrest room (by omega)).1
      have hmono := mostOfPrimary_le_succ room
      rw [Filter.levels_join hrun] at hf
      refine ⟨by omega, fun _ => ?_, fun _ => .inr (by omega)⟩
      rw [Nat.add_sub_cancel]
      omega

end

end Derivation

/-! ## Filters with the most levels -/

namespace Grammar

/-- A token without a place of its own. -/
def mark (kind : TokenKind) (text : String) : Token := ⟨kind, text, .start, false⟩

/-- A condition whose field is given by a token of the kind `kind`. -/
def conditionTokens (kind : TokenKind) : List Token :=
  [mark kind "a", mark .operator "=", mark .value "1"]

/-- A row of tokens in parentheses. -/
def parenthesize (ts : List Token) : List Token := mark .paren "(" :: (ts ++ [mark .paren ")"])

def otherThan : Connective → Connective
  | .and => .or
  | .or => .and

theorem isRunOf_otherThan {op : Connective} {f : Filter} (h : f.isRunOf op = true) :
    f.isRunOf (otherThan op) = false := by
  cases f with
  | logical op' children =>
    obtain rfl : op' = op := of_decide_eq_true h
    cases op' <;> rfl
  | _ => rfl

/-- Further operands, each with another connective than the one before it. -/
def switches : Connective → Nat → List Token
  | _, 0 => []
  | op, n + 1 => mark .bool op.keyword :: (conditionTokens .key ++ switches (otherThan op) n)

theorem isConnective_mark (op : Connective) : IsConnective op (mark .bool op.keyword) := by
  refine ⟨rfl, ?_⟩
  cases op <;> decide

theorem primary_conditionTokens (depth : Nat) {kind : TokenKind}
    (h : kind = .key ∨ kind = .value) :
    ∃ c, Primary depth (conditionTokens kind) (.condition c) := by
  rcases h with rfl | rfl
  · exact ⟨_, .condition rfl rfl rfl (.inl rfl)⟩
  · exact ⟨_, .condition rfl rfl rfl (.inl rfl)⟩

theorem expression_of_primary {depth : Nat} {ts : List Token} {f : Filter}
    (h : Primary depth ts f) : Expression depth ts f := by
  rw [← List.append_nil ts]
  exact .chain h .done

theorem primary_parenthesize {depth : Nat} {ts : List Token} {members : List Filter}
    (hdepth : depth < maxDepth) (h : Members (depth + 1) ts members) :
    Primary depth (parenthesize ts) (.ofMembers members) :=
  .parens ⟨rfl, rfl⟩ hdepth h ⟨rfl, rfl⟩

/-- With every change of the connective the filter gets one level more. -/
theorem chain_switches (n depth : Nat) (hdepth : depth + n ≤ maxDepth) {op : Connective}
    {left : Filter} (hrun : left.isRunOf op = false) :
    ∃ f, Chain depth left (switches op n) f ∧ f.levels = left.levels + n := by
  induction n generalizing depth op left with
  | zero => exact ⟨left, .done, rfl⟩
  | succ n ih =>
    obtain ⟨c, hc⟩ := primary_conditionTokens (depth + 1) (.inl rfl)
    have hother := isRunOf_otherThan (Filter.isRunOf_join op left (.condition c))
    have hlevels := Filter.levels_join hrun (.condition c)
    have hnext : depth + 1 + n ≤ maxDepth := by omega
    obtain ⟨f, hchain, hf⟩ := ih (depth + 1) hnext hother
    refine ⟨f, .deepen (isConnective_mark op) hrun (by omega) hc hchain, ?_⟩
    rw [hf, hlevels, Filter.levels]
    omega

/-- Two expressions in parentheses make a group, one level above them. -/
theorem primary_pair {depth : Nat} (hdepth : depth < maxDepth) {ts : List Token} {f : Filter}
    (h : Expression (depth + 1) ts f) :
    ∃ g, Primary depth (parenthesize (ts ++ conditionTokens .value)) g ∧ g.levels = f.levels + 1 ∧
      ∀ op, g.isRunOf op = false := by
  obtain ⟨c, hc⟩ := primary_conditionTokens (depth + 1) (.inr rfl)
  refine ⟨.group [f, .condition c], primary_parenthesize hdepth
    (.more h (.one (expression_of_primary hc)) ?_), ?_, fun _ => rfl⟩
  · rintro ⟨t, ht, hkind⟩
    cases ht
    cases hkind
  · simp [Filter.levels, Filter.levelsOf]

/-- Two conditions in parentheses are a run, which a further operand extends at no depth. -/
theorem primary_run (depth : Nat) (hdepth : depth + 1 < maxDepth) :
    ∃ left, Primary depth (parenthesize (conditionTokens .key ++ switches .and 1)) left ∧
      left.isRunOf .and = true ∧ left.levels = 1 := by
  obtain ⟨a, ha⟩ := primary_conditionTokens (depth + 1) (.inl rfl)
  obtain ⟨b, hb⟩ := primary_conditionTokens (depth + 2) (.inl rfl)
  have hpair : Expression (depth + 1) (conditionTokens .key ++ switches .and 1)
      (.join .and (.condition a) (.condition b)) :=
    .chain ha (.deepen (isConnective_mark .and) rfl hdepth hb .done)
  refine ⟨.join .and (.condition a) (.condition b),
    primary_parenthesize (Nat.lt_of_succ_lt hdepth) (.one hpair), Filter.isRunOf_join .and _ _, ?_⟩
  rw [Filter.levels_join rfl]
  rfl

/-- Some expression has the most levels. What uses up the depth that is left is written in
parentheses together with a further expression, and added to a run; then comes one change of the
connective after another. -/
theorem exists_expression_mostLevels (room depth : Nat) (h : depth + room = maxDepth) :
    ∃ ts f, Expression depth ts f ∧ f.levels = mostLevels room := by
  induction room generalizing depth with
  | zero =>
    obtain ⟨c, hc⟩ := primary_conditionTokens depth (.inl rfl)
    exact ⟨_, _, expression_of_primary hc, rfl⟩
  | succ room ih =>
    have hinner : depth + 1 + room = maxDepth := by omega
    obtain ⟨ts, inner, hexpression, hlevels⟩ := ih (depth + 1) hinner
    obtain ⟨group, hgroup, hgroupLevels, hnotRun⟩ := primary_pair (by omega) hexpression
    cases room with
    | zero =>
      obtain ⟨f, hchain, hf⟩ := chain_switches 1 depth (Nat.le_of_eq h) (hnotRun .and)
      exact ⟨_, f, .chain hgroup hchain, by rw [hf, hgroupLevels, hlevels, mostLevels, mostLevels]⟩
    | succ room =>
      obtain ⟨left, hleft, hrun, hleftLevels⟩ := primary_run depth (by omega)
      have hother := isRunOf_otherThan (Filter.isRunOf_join .and left group)
      have hjoin := Filter.levels_join_of_run hrun group
      obtain ⟨f, hchain, hf⟩ := chain_switches (room + 2) depth (Nat.le_of_eq h) hother
      refine ⟨_, f, .chain hleft (.extend (isConnective_mark .and) hrun hgroup hchain), ?_⟩
      rw [hf, hjoin, mostLevels]
      omega

theorem ofTokens_of_expression {ts : List Token} {f : Filter} (h : Expression 0 ts f) :
    Query.ofTokens ts = ⟨some ⟨some f, []⟩, []⟩ := by
  rw [← List.append_nil ts]
  exact ofTokens_of_isQuery ⟨.expression h, .nothing⟩

end Grammar

/-- Some filter has the most levels that any has. -/
theorem exists_levels_eq :
    ∃ ts q f, (Query.ofTokens ts).query = some q ∧ q.filter = some f ∧ f.levels = 2207 := by
  obtain ⟨ts, f, hexpression, hlevels⟩ := Grammar.exists_expression_mostLevels 64 0 rfl
  exact ⟨ts, _, f, by rw [Grammar.ofTokens_of_expression hexpression], rfl, hlevels⟩

/-- The filter of a query has at most `maxDepth` levels if it has at most one condition more than
that, or if no operand is joined to one in parentheses before it. However many tokens there are, it
has at most 2207. -/
theorem levels_ofTokens (ts : List Token) (q : Query) (f : Filter)
    (hq : (Query.ofTokens ts).query = some q) (hf : q.filter = some f) :
    (f.conditions.length ≤ maxDepth + 1 ∨ closesLast ts = true → f.levels ≤ maxDepth) ∧
      f.levels ≤ 2207 := by
  obtain ⟨hshape, -⟩ := shape_of_ofTokens hq
  obtain ⟨rest, -, -, ⟨hnone, -⟩ | ⟨f', hsome, hexpression⟩⟩ := Derivation.expression_of_ofTokens hq
  · rw [hnone] at hf
    cases hf
  · obtain rfl : f' = f := Option.some.inj (hsome.symm.trans hf)
    refine ⟨?_, (Derivation.levels_of_expression hexpression 64 rfl).1⟩
    rintro (hlength | hcloses)
    · have hlevels := Filter.levels_lt_length (hshape f' hf).1
      omega
    · have hlevels := Derivation.closesLast_of_expression hexpression hcloses (Nat.zero_le _)
      omega

/-- Operands in parentheses one in another, each the last of its expression. -/
theorem levels_ofTokens_nested :
    let ts := (tokenize "a = 1 or (b = 2 and (c = 3 or d = 4)) | a").tokens
    let f : Filter := .logical .or [.condition ⟨.simple "a", .equal, .integer 1, false⟩,
      .logical .and [.condition ⟨.simple "b", .equal, .integer 2, false⟩,
        .logical .or [.condition ⟨.simple "c", .equal, .integer 3, false⟩,
          .condition ⟨.simple "d", .equal, .integer 4, false⟩]]]
    (Query.ofTokens ts).query = some ⟨some f, [.simple "a"]⟩ ∧ closesLast ts = true ∧
      f.levels = 3 ∧ f.levels ≤ maxDepth ∧ f.levels ≤ 2207 := by
  intro ts f
  have hq : (Query.ofTokens ts).query = some ⟨some f, [.simple "a"]⟩ := by decide +kernel
  have hcloses : closesLast ts = true := by decide +kernel
  obtain ⟨hlevels, hmost⟩ := levels_ofTokens ts _ f hq rfl
  exact ⟨hq, hcloses, rfl, hlevels (.inr hcloses), hmost⟩

/-- A run in parentheses before as many changes of the connective as there may be: the parentheses
are closed by then, so the depth is never above the limit, but the filter has a level more. -/
theorem levels_above_maxDepth :
    let ts := Grammar.parenthesize (Grammar.conditionTokens .key ++ Grammar.switches .and 1) ++
      Grammar.switches .or maxDepth
    ∃ f, Query.ofTokens ts = ⟨some ⟨some f, []⟩, []⟩ ∧ maxDepth < f.levels := by
  intro ts
  obtain ⟨left, hleft, hrun, hlevels⟩ := Grammar.primary_run 0 (by decide)
  obtain ⟨f, hchain, hf⟩ := Grammar.chain_switches maxDepth 0 (by decide)
    (Grammar.isRunOf_otherThan hrun)
  refine ⟨f, Grammar.ofTokens_of_expression (.chain hleft hchain), ?_⟩
  omega

end LogQuery
