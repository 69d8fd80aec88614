import LogQuery.Filter

/-!
# The truth of a filter

What a filter says once the truth of its conditions is known. The conditions are numbered from left
to right, so that equal conditions in two places may differ in truth: `f.holds v n` is the truth of
`f` when its first condition has the number `n` and the condition with the number `i` has the truth
`v i`. An `and` holds if all its children do, an `or` if one does, and a group is an `and`.

Proofs about filters go by `Filter.byChildren`, which has what is to be shown for every child of a
node.
-/

namespace LogQuery

/-- The truth of two statements joined by a connective. -/
def Connective.apply : Connective → Bool → Bool → Bool
  | and, a, b => a && b
  | or, a, b => a || b

/-- The truth of no statements joined by a connective. -/
def Connective.unit : Connective → Bool
  | and => true
  | or => false

namespace Connective

theorem apply_assoc (op : Connective) (a b c : Bool) :
    op.apply (op.apply a b) c = op.apply a (op.apply b c) := by
  cases op
  · exact Bool.and_assoc a b c
  · exact Bool.or_assoc a b c

theorem apply_unit (op : Connective) (a : Bool) : op.apply a op.unit = a := by
  cases op
  · exact Bool.and_true a
  · exact Bool.or_false a

theorem unit_apply (op : Connective) (a : Bool) : op.apply op.unit a = a := by
  cases op <;> rfl

end Connective

namespace Filter

/-- Induction over a filter, with what is to be shown for every child of a node. -/
@[elab_as_elim]
theorem byChildren {motive : Filter → Prop} (condition : ∀ c, motive (.condition c))
    (logical : ∀ op children, (∀ child ∈ children, motive child) → motive (.logical op children))
    (group : ∀ children, (∀ child ∈ children, motive child) → motive (.group children)) :
    ∀ f, motive f
  | .condition c => condition c
  | .logical op children =>
    logical op children fun child _ => byChildren condition logical group child
  | .group children => group children fun child _ => byChildren condition logical group child

mutual

/-- The conditions of a filter, from left to right. -/
def conditions : Filter → List Condition
  | condition c => [c]
  | logical _ children => conditionsOf children
  | group children => conditionsOf children

/-- The conditions of several filters. -/
def conditionsOf : List Filter → List Condition
  | [] => []
  | child :: rest => child.conditions ++ conditionsOf rest

end

mutual

/-- The truth of a filter whose first condition has the number `n`. -/
def holds (v : Nat → Bool) (n : Nat) : Filter → Bool
  | condition _ => v n
  | logical op children => holdJoined v op n children
  | group children => holdJoined v .and n children

/-- The truth of several filters joined by `op`. -/
def holdJoined (v : Nat → Bool) (op : Connective) (n : Nat) : List Filter → Bool
  | [] => op.unit
  | child :: rest =>
    op.apply (child.holds v n) (holdJoined v op (n + child.conditions.length) rest)

end

theorem conditionsOf_append (as bs : List Filter) :
    conditionsOf (as ++ bs) = conditionsOf as ++ conditionsOf bs := by
  induction as with
  | nil => rfl
  | cons child rest ih => rw [List.cons_append, conditionsOf, conditionsOf, ih, List.append_assoc]

theorem mem_conditionsOf {child : Filter} {children : List Filter} (h : child ∈ children)
    {c : Condition} (hc : c ∈ child.conditions) : c ∈ conditionsOf children := by
  induction h with
  | head rest => exact List.mem_append_left _ hc
  | tail first _ ih => exact List.mem_append_right _ ih

theorem holdJoined_append (v : Nat → Bool) (op : Connective) (n : Nat) (as bs : List Filter) :
    holdJoined v op n (as ++ bs) = op.apply (holdJoined v op n as)
      (holdJoined v op (n + (conditionsOf as).length) bs) := by
  induction as generalizing n with
  | nil => exact (op.unit_apply _).symm
  | cons child rest ih =>
    rw [List.cons_append, holdJoined, holdJoined, ih, Connective.apply_assoc, conditionsOf,
      List.length_append, Nat.add_assoc]

theorem conditions_join (op : Connective) (left right : Filter) :
    (join op left right).conditions = left.conditions ++ right.conditions := by
  have hpair : (logical op [left, right]).conditions = left.conditions ++ right.conditions := by
    simp [conditions, conditionsOf]
  cases left with
  | logical op' children =>
    rw [join]
    split
    · simp [conditions, conditionsOf_append, conditionsOf]
    · exact hpair
  | _ => exact hpair

/-- Joining a filter to a run of the same connective or not makes no difference to the truth. -/
theorem holds_join (v : Nat → Bool) (n : Nat) (op : Connective) (left right : Filter) :
    (join op left right).holds v n =
      op.apply (left.holds v n) (right.holds v (n + left.conditions.length)) := by
  have hpair : (logical op [left, right]).holds v n =
      op.apply (left.holds v n) (right.holds v (n + left.conditions.length)) := by
    rw [holds, holdJoined, holdJoined, holdJoined, Connective.apply_unit]
  cases left with
  | logical op' children =>
    rw [join]
    split
    · rename_i hop
      rw [holds, holdJoined_append, holdJoined, holdJoined, Connective.apply_unit, holds, conditions,
        hop]
    · exact hpair
  | _ => exact hpair

/-- The assignments agree on the numbers from `n` up to `m`. -/
def AgreeOn (v w : Nat → Bool) (n m : Nat) : Prop := ∀ i, n ≤ i → i < m → v i = w i

theorem AgreeOn.mono {v w : Nat → Bool} {n m n' m' : Nat} (h : AgreeOn v w n m) (hn : n ≤ n')
    (hm : m' ≤ m) : AgreeOn v w n' m' :=
  fun i hlow hhigh => h i (Nat.le_trans hn hlow) (Nat.lt_of_lt_of_le hhigh hm)

mutual

/-- The truth of a filter rests on its own conditions only. -/
theorem holds_congr {v w : Nat → Bool} (n : Nat) :
    (f : Filter) → AgreeOn v w n (n + f.conditions.length) → f.holds v n = f.holds w n
  | condition _, h => h n (Nat.le_refl n) (Nat.lt_succ_self n)
  | logical op children, h => holdJoined_congr op n children h
  | group children, h => holdJoined_congr .and n children h

theorem holdJoined_congr {v w : Nat → Bool} (op : Connective) (n : Nat) :
    (children : List Filter) → AgreeOn v w n (n + (conditionsOf children).length) →
      holdJoined v op n children = holdJoined w op n children
  | [], _ => rfl
  | child :: rest, h => by
    rw [conditionsOf, List.length_append] at h
    rw [holdJoined, holdJoined, holds_congr n child (h.mono (by omega) (by omega)),
      holdJoined_congr op _ rest (h.mono (by omega) (by omega))]

end

mutual

/-- Does every node of the filter have a child? -/
def isFilled : Filter → Bool
  | condition _ => true
  | logical _ children => !children.isEmpty && areFilled children
  | group children => !children.isEmpty && areFilled children

/-- Are all the filters filled? -/
def areFilled : List Filter → Bool
  | [] => true
  | child :: rest => child.isFilled && areFilled rest

end

theorem areFilled_iff {children : List Filter} :
    areFilled children = true ↔ ∀ child ∈ children, child.isFilled = true := by
  induction children with
  | nil => simp [areFilled]
  | cons child rest ih => simp [areFilled, ih]

theorem isFilled_logical_iff {op : Connective} {children : List Filter} :
    (logical op children).isFilled = true ↔
      children ≠ [] ∧ ∀ child ∈ children, child.isFilled = true := by
  simp [isFilled, areFilled_iff]

theorem isFilled_group_iff {members : List Filter} :
    (group members).isFilled = true ↔
      members ≠ [] ∧ ∀ member ∈ members, member.isFilled = true := by
  simp [isFilled, areFilled_iff]

mutual

/-- Has every node of the filter at least two children, and does none start with a node of its own
connective? -/
def isShaped : Filter → Bool
  | condition _ => true
  | logical op children =>
    decide (2 ≤ children.length) && children.head?.all (!·.isRunOf op) && areShaped children
  | group children => decide (2 ≤ children.length) && areShaped children

/-- Are all the filters shaped? -/
def areShaped : List Filter → Bool
  | [] => true
  | child :: rest => child.isShaped && areShaped rest

end

theorem areShaped_iff {children : List Filter} :
    areShaped children = true ↔ ∀ child ∈ children, child.isShaped = true := by
  induction children with
  | nil => simp [areShaped]
  | cons child rest ih => simp [areShaped, ih]

theorem isShaped_logical_iff {op : Connective} {children : List Filter} :
    (logical op children).isShaped = true ↔
      2 ≤ children.length ∧ (∀ first ∈ children.head?, first.isRunOf op = false) ∧
        ∀ child ∈ children, child.isShaped = true := by
  have hfirst : children.head?.all (!·.isRunOf op) = true ↔
      ∀ first ∈ children.head?, first.isRunOf op = false := by
    cases children.head? <;> simp
  rw [isShaped, Bool.and_eq_true, Bool.and_eq_true, decide_eq_true_eq, hfirst, areShaped_iff,
    and_assoc]

theorem isShaped_group_iff {members : List Filter} :
    (group members).isShaped = true ↔
      2 ≤ members.length ∧ ∀ member ∈ members, member.isShaped = true := by
  simp [isShaped, areShaped_iff]

theorem isFilled_of_isShaped {f : Filter} (h : f.isShaped = true) : f.isFilled = true := by
  induction f using byChildren with
  | condition c => rfl
  | logical op children ih =>
    obtain ⟨hlength, -, hchildren⟩ := isShaped_logical_iff.mp h
    rw [isFilled_logical_iff, ← List.length_pos_iff]
    exact ⟨by omega, fun child hmem => ih child hmem (hchildren child hmem)⟩
  | group members ih =>
    obtain ⟨hlength, hmembers⟩ := isShaped_group_iff.mp h
    rw [isFilled_group_iff, ← List.length_pos_iff]
    exact ⟨by omega, fun member hmem => ih member hmem (hmembers member hmem)⟩

/-- If all conditions have one truth, so does a filter. -/
theorem holds_const (b : Bool) {f : Filter} (hf : f.isFilled = true) (n : Nat) :
    f.holds (fun _ => b) n = b := by
  have hjoined : ∀ op (children : List Filter), children ≠ [] →
      (∀ child ∈ children, ∀ n, child.holds (fun _ => b) n = b) →
      ∀ n, holdJoined (fun _ => b) op n children = b := by
    intro op children hne hchildren
    induction children with
    | nil => exact absurd rfl hne
    | cons child rest ih =>
      intro n
      rw [holdJoined, hchildren child List.mem_cons_self]
      cases rest with
      | nil => exact op.apply_unit b
      | cons next rest =>
        rw [ih (List.cons_ne_nil next rest) fun other hmem =>
          hchildren other (List.mem_cons_of_mem _ hmem)]
        cases op
        · exact Bool.and_self b
        · exact Bool.or_self b
  induction f using byChildren generalizing n with
  | condition c => rfl
  | logical op children ih =>
    obtain ⟨hne, hchildren⟩ := isFilled_logical_iff.mp hf
    rw [holds]
    exact hjoined op children hne (fun child hmem => ih child hmem (hchildren child hmem)) n
  | group members ih =>
    obtain ⟨hne, hmembers⟩ := isFilled_group_iff.mp hf
    rw [holds]
    exact hjoined .and members hne (fun member hmem => ih member hmem (hmembers member hmem)) n

/-- A filter has the truth that all its conditions have. -/
theorem holds_of_agreeOn {v : Nat → Bool} {b : Bool} {n : Nat} {f : Filter} (hf : f.isFilled = true)
    (h : AgreeOn v (fun _ => b) n (n + f.conditions.length)) : f.holds v n = b := by
  rw [holds_congr n f h, holds_const b hf]

end Filter

end LogQuery
