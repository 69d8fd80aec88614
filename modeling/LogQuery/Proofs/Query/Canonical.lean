import LogQuery.Query.Basic
import LogQuery.Query.Reading

/-!
# Canonical queries

The queries that reading makes of a text with quotes around its strings, as far as they can be
printed: no group, no node of a single child or with a child of its own connective, no number that
is not held exactly, and no field that its printed key does not stand for. Printing such a query
takes no more depth than reading allows (`Filter.need`).
-/

namespace LogQuery

/-- Does every backslash escape a character, and is every double quote escaped? -/
def Text.isEscaped : List Char → Bool
  | [] => true
  | ['\\'] => false
  | '\\' :: _ :: rest => isEscaped rest
  | c :: rest => c ≠ '"' && isEscaped rest

/-- Induction over a text with its escapes: a backslash is taken with what it escapes. -/
theorem Text.byEscapes {motive : List Char → Prop} (nil : motive [])
    (escape : ∀ c cs, motive cs → motive ('\\' :: c :: cs))
    (plain : ∀ c cs, c ≠ '\\' → c ≠ '"' → motive cs → motive (c :: cs)) {cs : List Char}
    (h : isEscaped cs = true) : motive cs := by
  fun_induction isEscaped cs with
  | case1 => exact nil
  | case2 => cases h
  | case3 c cs ih => exact escape c cs (ih h)
  | case4 c cs hlone hpair ih =>
    rw [Bool.and_eq_true, decide_eq_true_eq] at h
    refine plain c cs ?_ h.1 (ih h.2)
    rintro rfl
    cases cs with
    | nil => exact hlone rfl rfl
    | cons d cs => exact hpair d cs rfl rfl

theorem Text.isEscaped_of_plain {cs : List Char} (h : ∀ c ∈ cs, c ≠ '"' ∧ c ≠ '\\') :
    isEscaped cs = true := by
  induction cs with
  | nil => rfl
  | cons c cs ih =>
    obtain ⟨hq, hb⟩ := h c List.mem_cons_self
    rw [isEscaped, ih fun d hd => h d (List.mem_cons_of_mem _ hd)]
    · simpa using hq
    · simp [hb]
    · simp [hb]

namespace Field

/-- A segment of a path that can stand in double quotes as it is. -/
def isCanonicalSegment (segment : String) : Bool :=
  !segment.isEmpty && Text.isEscaped segment.toList

/-- A column is named without quotes and backslashes, and not like a keyword; a nested field has a
path. -/
def isCanonical : Field → Bool
  | simple name =>
    name.toList.all (fun c => c ≠ '"' && c ≠ '\\') && (Connective.ofKeyword? name).isNone
  | nested base path => !path.isEmpty && (base :: path).all isCanonicalSegment

end Field

/-- Does the literal come back as it is printed, with or without quotes? -/
def Literal.isCanonical (quoted : Bool) : Literal → Bool
  | string _ => quoted
  | integer i => !quoted && i.natAbs ≤ maxInteger
  | boolean _ => !quoted
  | null => !quoted
  | float _ => false

def Condition.isCanonical (c : Condition) : Bool :=
  c.field.isCanonical && c.value.isCanonical c.quoted

namespace Filter

mutual

/-- Every node joins at least two children, none of which is a group or a node of its connective. -/
def isCanonical : Filter → Bool
  | condition c => c.isCanonical
  | logical op children => decide (2 ≤ children.length) && areCanonical op children
  | group _ => false

/-- Are the children of `op` canonical? -/
def areCanonical (op : Connective) : List Filter → Bool
  | [] => true
  | child :: rest => !child.isRunOf op && child.isCanonical && areCanonical op rest

end

mutual

/-- The levels that a filter takes up as an operand: the parentheses around it, and what it needs
inside them. -/
def weight : Filter → Nat
  | logical _ children => 1 + needJoined children
  | _ => 0

/-- The most levels that one of several filters takes up. -/
def weights : List Filter → Nat
  | [] => 0
  | child :: rest => max child.weight (weights rest)

/-- The levels that filters joined by one connective take up: every operand after the first stands
one level deeper. -/
def needJoined : List Filter → Nat
  | [] => 1
  | first :: rest => max 1 (max first.weight (1 + weights rest))

end

/-- The levels that a filter takes up. -/
def need : Filter → Nat
  | logical _ children => needJoined children
  | _ => 0

end Filter

/-- Can the query be printed and read back? -/
def Query.isCanonical (q : Query) : Bool :=
  q.filter.all (fun f => f.isCanonical && decide (f.need ≤ maxDepth)) &&
    q.select.all Field.isCanonical

end LogQuery
