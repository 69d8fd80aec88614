import LogQuery.Proofs.Filter.Truth
import LogQuery.Proofs.Sql.Lexeme

/-!
# Reading a condition

How a server reads the text of a condition (`Predicate.read`). The lexemes are gathered into items
first (`items`): parentheses, connectives and whole comparisons, whose own parentheses belong to
function calls. What stands in quotes is one lexeme, so nothing in it is taken for any of these. The
items are then read with `and` binding tighter than `or`: the reader keeps the disjunction that is
complete, and the conjunction that the next operand may still belong to (`Expecting`, `Complete`),
and one such pair for every parenthesis that is open.

* `items_within`: what a comparison takes up;
* `Stops`: what ends one;
* `run_append`: a row of items is read one stretch after the other.
-/

namespace LogQuery.Sql

/-- A condition as it is read. -/
inductive Predicate where
  | comparison (text : String)
  | joined (op : Connective) (left right : Predicate)
  deriving DecidableEq

namespace Predicate

/-- The texts of the comparisons, from left to right. -/
def comparisons : Predicate → List String
  | comparison text => [text]
  | joined _ left right => left.comparisons ++ right.comparisons

/-- The truth of a predicate whose first comparison has the number `n`. -/
def holds (v : Nat → Bool) (n : Nat) : Predicate → Bool
  | comparison _ => v n
  | joined op left right =>
    op.apply (left.holds v n) (right.holds v (n + left.comparisons.length))

end Predicate

/-! ## Items -/

/-- What a condition is made of. -/
inductive Item where
  | opening
  | closing
  | connective (op : Connective)
  | comparison (text : String)
  deriving DecidableEq

/-- The item that a token stands for, if it is not part of a comparison. -/
def Item.ofToken? (t : Token) : Option Item :=
  if t = .punctuation "(" then some .opening
  else if t = .punctuation ")" then some .closing
  else
    match t with
    | .word w => (Connective.ofKeyword? w).map .connective
    | _ => none

/-- The item that ends a comparison in which `depth` parentheses are open. -/
def Item.ending? (depth : Nat) (t : Token) : Option Item :=
  if depth = 0 ∧ t ≠ .punctuation "(" then Item.ofToken? t else none

/-- The number of parentheses that are open after a token. -/
def nested (depth : Nat) (t : Token) : Nat :=
  if t = .punctuation "(" then depth + 1 else if t = .punctuation ")" then depth - 1 else depth

/-- A text without the white space at its end. -/
def trimmed (cs : List Char) : String :=
  String.ofList (cs.reverse.dropWhile Char.isWhitespace).reverse

/-- The items that some lexemes make up; `none` if a parenthesis of a comparison stays open. If a
comparison has started, `started` has the number of its open parentheses and its text so far. -/
def items (started : Option (Nat × List Char)) : List Lexeme → Option (List Item)
  | [] =>
    match started with
    | none => some []
    | some (depth, text) => if depth = 0 then some [.comparison (trimmed text)] else none
  | l :: ls =>
    match started, l.token with
    | none, none => items none ls
    | some (depth, text), none => items (some (depth, text ++ l.source)) ls
    | none, some t =>
      match Item.ofToken? t with
      | some item => (items none ls).map (item :: ·)
      | none => items (some (0, l.source)) ls
    | some (depth, text), some t =>
      match Item.ending? depth t with
      | some item => (items none ls).map (.comparison (trimmed text) :: item :: ·)
      | none => items (some (nested depth t, text ++ l.source)) ls

/-- The number of parentheses that are open after tokens within a comparison; `none` if it ends. -/
def depthAfter (depth : Nat) : List Token → Option Nat
  | [] => some depth
  | t :: ts => if (Item.ending? depth t).isSome then none else depthAfter (nested depth t) ts

theorem depthAfter_append (depth : Nat) (as bs : List Token) :
    depthAfter depth (as ++ bs) = (depthAfter depth as).bind fun d => depthAfter d bs := by
  induction as generalizing depth with
  | nil => rfl
  | cons t as ih =>
    rw [List.cons_append, depthAfter, depthAfter]
    split
    · rfl
    · exact ih _

/-- A comparison takes up lexemes as long as it does not end. -/
theorem items_within {ls : List Lexeme} {depth depth' : Nat}
    (h : depthAfter depth (ls.filterMap Lexeme.token) = some depth') (text : List Char)
    (rest : List Lexeme) :
    items (some (depth, text)) (ls ++ rest) =
      items (some (depth', text ++ ls.flatMap Lexeme.source)) rest := by
  induction ls generalizing depth text with
  | nil =>
    cases h
    rw [List.nil_append, List.flatMap_nil, List.append_nil]
  | cons l ls ih =>
    rw [List.cons_append, List.flatMap_cons, ← List.append_assoc]
    cases ht : l.token with
    | none =>
      rw [List.filterMap_cons_none ht] at h
      simp only [items, ht]
      exact ih h _
    | some t =>
      rw [List.filterMap_cons_some ht, depthAfter] at h
      split at h
      · cases h
      · rename_i hend
        rw [Option.not_isSome_iff_eq_none] at hend
        simp only [items, ht, hend]
        exact ih h _

/-- The lexemes `rest` end a comparison that no parenthesis keeps open. -/
def Stops (rest : List Lexeme) : Prop :=
  ∀ text, items (some (0, text)) rest = (items none rest).map (.comparison (trimmed text) :: ·)

theorem stops_nil : Stops [] := fun _ => rfl

theorem items_closing (rest : List Lexeme) :
    items none (mark ")" :: rest) = (items none rest).map (.closing :: ·) := rfl

theorem items_opening (rest : List Lexeme) :
    items none (mark "(" :: rest) = (items none rest).map (.opening :: ·) := rfl

theorem stops_closing (rest : List Lexeme) : Stops (mark ")" :: rest) := by
  intro text
  rw [items_closing, Option.map_map]
  rfl

theorem trimmed_append_blank (text : List Char) : trimmed (text ++ blank.source) = trimmed text := by
  rw [trimmed, List.reverse_append]
  rfl

/-! ## Precedence -/

/-- A predicate added to what has been read, if anything has. -/
def joinedTo (op : Connective) : Option Predicate → Predicate → Predicate
  | none, p => p
  | some q, p => .joined op q p

/-- An operand must follow. -/
structure Expecting where
  disjunction : Option Predicate
  conjunction : Option Predicate

/-- An operand has been read. -/
structure Complete where
  disjunction : Option Predicate
  conjunction : Predicate

/-- Nothing has been read yet. -/
def Expecting.start : Expecting := ⟨none, none⟩

/-- An operand belongs to the conjunction before it. -/
def Expecting.add (e : Expecting) (p : Predicate) : Complete :=
  ⟨e.disjunction, joinedTo .and e.conjunction p⟩

/-- All that has been read. -/
def Complete.value (c : Complete) : Predicate := joinedTo .or c.disjunction c.conjunction

/-- An `and` goes on with the conjunction, an `or` ends it. -/
def Complete.next (c : Complete) : Connective → Expecting
  | .and => ⟨c.disjunction, some c.conjunction⟩
  | .or => ⟨some c.value, none⟩

/-- A reader, with what stands before each parenthesis that is open. -/
inductive Reader where
  | expecting (outer : List Expecting) (here : Expecting)
  | complete (outer : List Expecting) (here : Complete)

namespace Reader

/-- Reads one item; `none` if it cannot stand there. -/
def step : Reader → Item → Option Reader
  | expecting outer here, .opening => some (expecting (here :: outer) .start)
  | expecting outer here, .comparison text => some (complete outer (here.add (.comparison text)))
  | complete outer here, .connective op => some (expecting outer (here.next op))
  | complete (before :: outer) here, .closing => some (complete outer (before.add here.value))
  | _, _ => none

/-- Reads items one after the other. -/
def run (r : Reader) (is : List Item) : Option Reader := is.foldlM step r

/-- What has been read once there is nothing left to read. -/
def result : Reader → Option Predicate
  | complete [] here => some here.value
  | _ => none

theorem run_append (r : Reader) (as bs : List Item) :
    r.run (as ++ bs) = (r.run as).bind fun r' => r'.run bs :=
  List.foldlM_append

end Reader

/-- The predicate that a text stands for. -/
def Predicate.read (sql : String) : Option Predicate := do
  let is ← items none (← lexemes sql.toList)
  (← (Reader.expecting [] .start).run is).result

/-- An `and` binds tighter than an `or` on either side of it, unless parentheses say otherwise. -/
example :
    Predicate.read "`a` = 1 OR `b` = 'x AND y' AND (`c` = 2 OR f(`d`, 'OR') > 0)" =
      some (.joined .or (.comparison "`a` = 1")
        (.joined .and (.comparison "`b` = 'x AND y'")
          (.joined .or (.comparison "`c` = 2") (.comparison "f(`d`, 'OR') > 0")))) := by
  decide +kernel

end LogQuery.Sql
