import LogQuery.Proofs.Filter.Truth

/-!
# Filters written in a row

However a filter is written, it becomes a row: its conditions from left to right, a separator between
the children of a node, and marks around a group and around a child that joins its own children with
the other connective. An `Arrangement` says what stands for each of these; the parts, the lexemes and
the tokens of a filter are all arranged by its tree in this way, and one can be had from another
(`Arrangement.apply_row`).
-/

namespace LogQuery

/-- What stands in the row of a filter: for a condition, between two children, and around a node. -/
structure Arrangement (α : Type) where
  leaf : Condition → List α
  separator : Connective → List α
  opening : List α
  closing : List α

namespace Arrangement

variable {α β : Type}

/-- A row between the marks that open and close it. -/
def enclose (a : Arrangement α) (row : List α) : List α := a.opening ++ row ++ a.closing

mutual

/-- The row of a filter. -/
def row (a : Arrangement α) : Filter → List α
  | .condition c => a.leaf c
  | .logical op children => List.intercalate (a.separator op) (a.rows op children)
  | .group children => a.enclose (List.intercalate (a.separator .and) (a.rows .and children))

/-- The rows of the children of `op`, each enclosed where it needs to be. -/
def rows (a : Arrangement α) (op : Connective) : List Filter → List (List α)
  | [] => []
  | child :: rest =>
    (if child.needsParens op then a.enclose (a.row child) else a.row child) :: a.rows op rest

end

/-- The row of one child of `op`. -/
def childRow (a : Arrangement α) (op : Connective) (child : Filter) : List α :=
  if child.needsParens op then a.enclose (a.row child) else a.row child

theorem rows_eq (a : Arrangement α) (op : Connective) (children : List Filter) :
    a.rows op children = children.map (a.childRow op) := by
  induction children with
  | nil => rfl
  | cons child rest ih => rw [rows, ih, List.map_cons, childRow]

/-- The children of `op` with separators between them. -/
def joinedRows (a : Arrangement α) (op : Connective) (children : List Filter) : List α :=
  List.intercalate (a.separator op) (children.map (a.childRow op))

theorem row_logical (a : Arrangement α) (op : Connective) (children : List Filter) :
    a.row (.logical op children) = a.joinedRows op children := by
  rw [row, rows_eq, joinedRows]

theorem row_group (a : Arrangement α) (children : List Filter) :
    a.row (.group children) = a.enclose (a.joinedRows .and children) := by
  rw [row, rows_eq, joinedRows]

theorem joinedRows_singleton (a : Arrangement α) (op : Connective) (child : Filter) :
    a.joinedRows op [child] = a.childRow op child :=
  List.intercalate_singleton

theorem joinedRows_cons (a : Arrangement α) (op : Connective) (child next : Filter)
    (rest : List Filter) :
    a.joinedRows op (child :: next :: rest) =
      a.childRow op child ++ a.separator op ++ a.joinedRows op (next :: rest) :=
  List.intercalate_cons_cons

/-! ## From one arrangement to another -/

/-- What keeps concatenation can be applied row by row. -/
theorem apply_intercalate {g : List α → List β} (hnil : g [] = [])
    (happend : ∀ as bs, g (as ++ bs) = g as ++ g bs) (separator : List α) (rows : List (List α)) :
    g (List.intercalate separator rows) = List.intercalate (g separator) (rows.map g) := by
  induction rows with
  | nil => exact hnil
  | cons row rows ih =>
    cases rows with
    | nil => simp
    | cons row' rows =>
      rw [List.intercalate_cons_cons, happend, happend, ih, List.map_cons, List.map_cons,
        List.map_cons, List.intercalate_cons_cons]

/-- The arrangement with `g` applied to all that stands in it. -/
def map (g : List α → List β) (a : Arrangement α) : Arrangement β :=
  ⟨fun c => g (a.leaf c), fun op => g (a.separator op), g a.opening, g a.closing⟩

/-- What keeps concatenation can be applied to an arrangement instead of its rows. -/
theorem apply_row {g : List α → List β} (hnil : g [] = [])
    (happend : ∀ as bs, g (as ++ bs) = g as ++ g bs) (a : Arrangement α) (f : Filter) :
    g (a.row f) = (a.map g).row f := by
  have henclose : ∀ row, g (a.enclose row) = (a.map g).enclose (g row) := by
    intro row
    rw [enclose, happend, happend]
    rfl
  have hjoined : ∀ op children, (∀ child ∈ children, g (a.row child) = (a.map g).row child) →
      g (a.joinedRows op children) = (a.map g).joinedRows op children := by
    intro op children ih
    rw [joinedRows, apply_intercalate hnil happend, List.map_map]
    refine congrArg _ (List.map_congr_left fun child hmem => ?_)
    rw [Function.comp_apply, childRow, childRow, ← ih child hmem]
    split
    · exact henclose _
    · rfl
  induction f using Filter.byChildren with
  | condition c => rfl
  | logical op children ih => rw [row_logical, row_logical, hjoined op children ih]
  | group children ih => rw [row_group, row_group, henclose, hjoined .and children ih]

end Arrangement

end LogQuery
