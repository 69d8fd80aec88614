import LogQuery.Proofs.Filter.Truth

/-!
# Filters as rows

A printed filter is a row of operands with a connective between any two; an operand is a condition, or
a row in parentheses. Reading knows no precedence, so a row says what its operands say from left to
right.

* `Row.filter`: the filter that is read off a row, with the conditions and the truth of the row
  (`Row.conditions_filter`, `Row.holds_filter`);
* `Row.depth`: how deep reading a row goes;
* `Filter.row`: the row that a filter is printed as, which has the conditions of the filter
  (`Filter.conditions_row`).
-/

namespace LogQuery

/-! ## Rows -/

/-- A condition, or a row in parentheses. In a row each operand comes with the connective in front of
it; that of the first one is not written. -/
inductive Operand where
  | condition (c : Condition)
  | parens (row : List (Connective × Operand))

abbrev Row := List (Connective × Operand)

mutual

/-- The conditions of an operand, from left to right. -/
def Operand.conditions : Operand → List Condition
  | .condition c => [c]
  | .parens row => Row.conditions row

/-- The conditions of a row. -/
def Row.conditions : Row → List Condition
  | [] => []
  | (_, o) :: rest => o.conditions ++ Row.conditions rest

end

mutual

/-- The truth of an operand whose first condition has the number `n`. -/
def Operand.holds (v : Nat → Bool) (n : Nat) : Operand → Bool
  | .condition _ => v n
  | .parens row => Row.holds v n row

/-- The truth of a row from left to right. -/
def Row.holds (v : Nat → Bool) (n : Nat) : Row → Bool
  | [] => true
  | (_, o) :: rest => Row.holdsAfter v (n + o.conditions.length) (o.holds v n) rest

/-- The truth of a row that goes on after the truth `a`. -/
def Row.holdsAfter (v : Nat → Bool) (n : Nat) (a : Bool) : Row → Bool
  | [] => a
  | (op, o) :: rest =>
    Row.holdsAfter v (n + o.conditions.length) (op.apply a (o.holds v n)) rest

end

mutual

/-- The filter that is read off an operand. -/
def Operand.filter : Operand → Filter
  | .condition c => .condition c
  | .parens row => Row.filter row

/-- The filter that is read off a row. -/
def Row.filter : Row → Filter
  | [] => .group []
  | (_, o) :: rest => Row.joinTo o.filter rest

/-- The filter `left` with a further row joined to it. -/
def Row.joinTo (left : Filter) : Row → Filter
  | [] => left
  | (op, o) :: rest => Row.joinTo (.join op left o.filter) rest

end

mutual

/-- How many levels deeper reading an operand goes. -/
def Operand.depth : Operand → Nat
  | .condition _ => 0
  | .parens row => Row.depth row + 1

/-- How many levels deeper reading a row goes. -/
def Row.depth : Row → Nat
  | [] => 0
  | (_, o) :: rest => max o.depth (Row.depthAfter o.filter rest)

/-- How many levels deeper reading a further row goes: a connective that does not extend the run
`left` takes one level. -/
def Row.depthAfter (left : Filter) : Row → Nat
  | [] => 0
  | (op, o) :: rest =>
    (if left.isRunOf op then 0 else 1) + max o.depth (Row.depthAfter (.join op left o.filter) rest)

end

mutual

theorem Operand.conditions_filter : (o : Operand) → o.filter.conditions = o.conditions
  | .condition _ => rfl
  | .parens row => Row.conditions_filter row

theorem Row.conditions_filter : (row : Row) → (Row.filter row).conditions = Row.conditions row
  | [] => rfl
  | (_, o) :: rest => by
    rw [Row.filter, Row.conditions_joinTo, Operand.conditions_filter o, Row.conditions]

theorem Row.conditions_joinTo (left : Filter) :
    (row : Row) → (Row.joinTo left row).conditions = left.conditions ++ Row.conditions row
  | [] => (List.append_nil _).symm
  | (op, o) :: rest => by
    rw [Row.joinTo, Row.conditions_joinTo _ rest, Filter.conditions_join,
      Operand.conditions_filter o, Row.conditions, List.append_assoc]

end

mutual

theorem Operand.holds_filter (v : Nat → Bool) (n : Nat) :
    (o : Operand) → o.filter.holds v n = o.holds v n
  | .condition _ => rfl
  | .parens row => Row.holds_filter v n row

/-- The filter that is read off a row has its truth. -/
theorem Row.holds_filter (v : Nat → Bool) (n : Nat) :
    (row : Row) → (Row.filter row).holds v n = Row.holds v n row
  | [] => rfl
  | (_, o) :: rest => by
    rw [Row.filter, Row.holds_joinTo, Operand.holds_filter v n o, Operand.conditions_filter o,
      Row.holds]

theorem Row.holds_joinTo (v : Nat → Bool) (n : Nat) (left : Filter) :
    (row : Row) → (Row.joinTo left row).holds v n =
      Row.holdsAfter v (n + left.conditions.length) (left.holds v n) row
  | [] => rfl
  | (op, o) :: rest => by
    rw [Row.joinTo, Row.holds_joinTo v n _ rest, Filter.holds_join, Filter.conditions_join,
      Operand.holds_filter v _ o, Operand.conditions_filter o, Row.holdsAfter, List.length_append,
      Nat.add_assoc]

end

theorem Row.conditions_append (row row' : Row) :
    Row.conditions (row ++ row') = Row.conditions row ++ Row.conditions row' := by
  induction row with
  | nil => rfl
  | cons link rest ih =>
    rw [List.cons_append, Row.conditions, ih, Row.conditions, List.append_assoc]

theorem Row.holdsAfter_append (v : Nat → Bool) (n : Nat) (a : Bool) (row row' : Row) :
    Row.holdsAfter v n a (row ++ row') =
      Row.holdsAfter v (n + (Row.conditions row).length) (Row.holdsAfter v n a row) row' := by
  induction row generalizing n a with
  | nil => rfl
  | cons link rest ih =>
    rw [List.cons_append, Row.holdsAfter, ih, Row.holdsAfter, Row.conditions, List.length_append,
      Nat.add_assoc]

/-- A row starts like one that goes on after `true`, if `and` stands in front of it. -/
theorem Row.holds_eq_holdsAfter (v : Nat → Bool) (n : Nat) (o : Operand) (rest : Row) :
    Row.holds v n ((.and, o) :: rest) = Row.holdsAfter v n true ((.and, o) :: rest) := rfl

/-! ## The row of a filter -/

def Literal.isString : Literal → Bool
  | string _ => true
  | _ => false

/-- The condition as it is read when it is printed, for strings are printed in quotes. -/
def Condition.requoted (c : Condition) : Condition := { c with quoted := c.value.isString }

namespace Filter

mutual

/-- The row that a filter is printed as after `op`. -/
def row (op : Connective) : Filter → Row
  | condition c => [(op, .condition c.requoted)]
  | logical op' children => rowJoined (needsParens op') op' op children
  | group children => [(op, .parens (rowJoined (fun _ => false) .and .and children))]

/-- The row of several filters with `separator` between them, the first one after `op`, and with
parentheses around those that are `enclosed`. -/
def rowJoined (enclosed : Filter → Bool) (separator op : Connective) : List Filter → Row
  | [] => []
  | child :: rest =>
    (if enclosed child then [(op, .parens (child.row .and))] else child.row op) ++
      rowJoined enclosed separator separator rest

end

mutual

theorem conditions_row (op : Connective) :
    (f : Filter) → Row.conditions (f.row op) = f.conditions.map Condition.requoted
  | condition _ => rfl
  | logical op' children => conditions_rowJoined (needsParens op') op' op children
  | group children => by
    rw [row, Row.conditions, Operand.conditions, conditions_rowJoined, Row.conditions,
      List.append_nil, conditions]

theorem conditions_rowJoined (enclosed : Filter → Bool) (separator op : Connective) :
    (children : List Filter) → Row.conditions (rowJoined enclosed separator op children) =
      (conditionsOf children).map Condition.requoted
  | [] => rfl
  | child :: rest => by
    rw [rowJoined, Row.conditions_append, conditions_rowJoined enclosed separator separator rest,
      conditionsOf, List.map_append]
    split
    · rw [Row.conditions, Operand.conditions, conditions_row .and child, Row.conditions,
        List.append_nil]
    · rw [conditions_row op child]

end

/-- The row of one child of a node, after `op`. -/
def rowChild (enclosed : Bool) (op : Connective) (child : Filter) : Row :=
  if enclosed then [(op, .parens (child.row .and))] else child.row op

theorem rowJoined_cons (enclosed : Filter → Bool) (separator op : Connective) (child : Filter)
    (rest : List Filter) :
    rowJoined enclosed separator op (child :: rest) =
      rowChild (enclosed child) op child ++ rowJoined enclosed separator separator rest := by
  rw [rowJoined, rowChild]

theorem exists_rowJoined {child : Filter} (h : ∃ o rest, ∀ op, child.row op = (op, o) :: rest)
    (enclosed : Filter → Bool) (separator : Connective) (rest : List Filter) :
    ∃ o tail, ∀ op, rowJoined enclosed separator op (child :: rest) = (op, o) :: tail := by
  obtain ⟨o, tail, hrow⟩ := h
  cases henclosed : enclosed child with
  | true => exact ⟨_, _, fun op => by rw [rowJoined_cons, henclosed]; rfl⟩
  | false =>
    refine ⟨o, tail ++ rowJoined enclosed separator separator rest, fun op => ?_⟩
    rw [rowJoined_cons, henclosed, rowChild, if_neg Bool.false_ne_true, hrow]
    rfl

/-- A filter has a first operand, and the row after it does not depend on what stands in front. -/
theorem exists_row {f : Filter} (hf : f.isFilled = true) :
    ∃ o rest, ∀ op, f.row op = (op, o) :: rest := by
  induction f using byChildren with
  | condition c => exact ⟨_, _, fun _ => rfl⟩
  | logical op' children ih =>
    obtain ⟨hne, hfilled⟩ := isFilled_logical_iff.mp hf
    cases children with
    | nil => exact absurd rfl hne
    | cons child rest =>
      have hchild := ih child List.mem_cons_self (hfilled child List.mem_cons_self)
      exact exists_rowJoined hchild (needsParens op') op' rest
  | group children => exact ⟨_, _, fun _ => rfl⟩

end Filter

end LogQuery
