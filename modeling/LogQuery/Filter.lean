import LogQuery.Field
import LogQuery.Literal

/-!
# Filters

A filter is a tree of conditions, joined by `and` and `or`. A `group` holds several filters that
were written side by side in one pair of parentheses, all of which must hold.

Functions on trees are paired with one on lists of trees; `prints_eq` and `printsGroup_eq` say that
the printers of lists only map.
-/

namespace LogQuery

/-- How a field is compared with a value. -/
inductive Comparison where
  | equal
  | notEqual
  /-- The value occurs in the field, whatever the case of letters. -/
  | contains
  | notContains
  | greater
  | less
  | greaterOrEqual
  | lessOrEqual
  deriving DecidableEq

namespace Comparison

def symbol : Comparison → String
  | equal => "="
  | notEqual => "!="
  | contains => "~"
  | notContains => "!~"
  | greater => ">"
  | less => "<"
  | greaterOrEqual => ">="
  | lessOrEqual => "<="

def all : List Comparison :=
  [equal, notEqual, contains, notContains, greater, less, greaterOrEqual, lessOrEqual]

/-- The comparison with the given symbol; `==` is another spelling of `=`. -/
def ofSymbol? (s : String) : Option Comparison :=
  if s = "==" then some equal else all.find? (·.symbol = s)

theorem ofSymbol?_symbol (c : Comparison) : ofSymbol? c.symbol = some c := by
  cases c <;> decide

end Comparison

/-- How several conditions are joined. -/
inductive Connective where
  | and
  | or
  deriving DecidableEq

namespace Connective

/-- The keyword as it is written in a query. -/
def keyword : Connective → String
  | and => "and"
  | or => "or"

/-- The connective of a keyword in any case. -/
def ofKeyword? (s : String) : Option Connective :=
  if Text.sameWord s "and" then some and
  else if Text.sameWord s "or" then some or
  else none

end Connective

/-- The comparison of a field with a value. -/
structure Condition where
  field : Field
  comparison : Comparison
  value : Literal
  /-- Was the value written in quotes? -/
  quoted : Bool
  deriving DecidableEq

/-- The condition as it is written in a query. -/
def Condition.print (c : Condition) : String :=
  c.field.print ++ " " ++ c.comparison.symbol ++ " " ++ c.value.print

inductive Filter where
  | condition (c : Condition)
  | logical (op : Connective) (children : List Filter)
  | group (children : List Filter)

namespace Filter

mutual

/-- Are two filters equal? -/
def decEq : (a b : Filter) → Decidable (a = b)
  | condition c, condition d =>
    if h : c = d then .isTrue (by rw [h]) else .isFalse (by simp [h])
  | logical op as, logical op' bs =>
    if h : op = op' then
      match decEqs as bs with
      | .isTrue hs => .isTrue (by rw [h, hs])
      | .isFalse hs => .isFalse (by simp [hs])
    else .isFalse (by simp [h])
  | group as, group bs =>
    match decEqs as bs with
    | .isTrue hs => .isTrue (by rw [hs])
    | .isFalse hs => .isFalse (by simp [hs])
  | condition _, logical .. => .isFalse (by simp)
  | condition _, group _ => .isFalse (by simp)
  | logical .., condition _ => .isFalse (by simp)
  | logical .., group _ => .isFalse (by simp)
  | group _, condition _ => .isFalse (by simp)
  | group _, logical .. => .isFalse (by simp)

/-- Are two lists of filters equal? -/
def decEqs : (as bs : List Filter) → Decidable (as = bs)
  | [], [] => .isTrue rfl
  | [], _ :: _ => .isFalse (by simp)
  | _ :: _, [] => .isFalse (by simp)
  | a :: as, b :: bs =>
    match decEq a b with
    | .isTrue h =>
      match decEqs as bs with
      | .isTrue hs => .isTrue (by rw [h, hs])
      | .isFalse hs => .isFalse (by simp [hs])
    | .isFalse h => .isFalse (by simp [h])

end

instance : DecidableEq Filter := decEq

/-- The connective that joins the children of a filter. -/
def connective? : Filter → Option Connective
  | condition _ => none
  | logical op _ => some op
  | group _ => some .and

mutual

/-- The number of conditions in a filter. -/
def count : Filter → Nat
  | condition _ => 1
  | logical _ children => counts children
  | group children => counts children

/-- The number of conditions in several filters. -/
def counts : List Filter → Nat
  | [] => 0
  | child :: rest => child.count + counts rest

end

/-- Must a child be put in parentheses under `op`? Only if it joins its own children differently; a
group brings its own parentheses. -/
def needsParens (op : Connective) : Filter → Bool
  | logical op' _ => op' ≠ op
  | _ => false

mutual

/-- The filter as it is written in a query. -/
def print : Filter → String
  | condition c => c.print
  | logical op children => String.intercalate (" " ++ op.keyword ++ " ") (prints op children)
  | group children => "(" ++ String.intercalate " and " (printsGroup children) ++ ")"

/-- The children of `op`, each in parentheses where it needs them. -/
def prints (op : Connective) : List Filter → List String
  | [] => []
  | child :: rest =>
    (if child.needsParens op then "(" ++ child.print ++ ")" else child.print) :: prints op rest

/-- The members of a group. -/
def printsGroup : List Filter → List String
  | [] => []
  | child :: rest => child.print :: printsGroup rest

end

theorem prints_eq (op : Connective) (children : List Filter) :
    prints op children = children.map fun child =>
      if child.needsParens op then "(" ++ child.print ++ ")" else child.print := by
  induction children with
  | nil => rfl
  | cons child rest ih => simp [prints, ih]

theorem printsGroup_eq (children : List Filter) : printsGroup children = children.map print := by
  induction children with
  | nil => rfl
  | cons child rest ih => simp [printsGroup, ih]

/-- Joins a further filter to the right of one, in one node with a run of the same connective. -/
def join (op : Connective) (left right : Filter) : Filter :=
  match left with
  | logical op' children =>
    if op' = op then logical op (children ++ [right]) else logical op [left, right]
  | _ => logical op [left, right]

/-- Is the filter a run of `op` that a further filter can be added to? -/
def isRunOf (op : Connective) : Filter → Bool
  | logical op' _ => op' = op
  | _ => false

end Filter

end LogQuery
