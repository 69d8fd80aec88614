import LogQuery.Text.Blank
import LogQuery.Text.Start

/-!
# Table schemas

A schema lists the columns of a table with their declared types. All that matters of a type is how
data nested in the column is reached (`ColumnKind`); the wrappers `Nullable(...)` and
`LowCardinality(...)` are looked through (`unwrapType`).
-/

namespace LogQuery

/-- A column and its declared type. -/
structure Column where
  name : String
  type : String
  deriving DecidableEq

/-- How the data nested in a column is reached. -/
inductive ColumnKind where
  /-- An associative array, read by key. -/
  | map
  /-- A document, read by path. -/
  | json
  | other
  /-- The schema has no such column. -/
  | unknown
  deriving DecidableEq

namespace ColumnKind

def name : ColumnKind → String
  | map => "Map"
  | json => "Json"
  | other => "Other"
  | unknown => "Unknown"

end ColumnKind

/-! ## Declared types -/

/-- The names that open a wrapper. -/
def wrappers : List (List Char) := ["Nullable(".toList, "LowCardinality(".toList]

/-- The content of a type that is a wrapper. -/
def unwrapOnce? (cs : List Char) : Option (List Char) :=
  match wrappers.findSome? (Text.afterStart? · cs) with
  | none => none
  | some rest => if rest.getLast? = some ')' then some rest.dropLast else none

theorem length_trim_le (cs : List Char) : (Text.trim cs).length ≤ cs.length := by
  have hle : ∀ cs : List Char, (cs.dropWhile Text.isBlank).length ≤ cs.length :=
    fun _ => (List.dropWhile_suffix _).length_le
  have hend := hle (cs.dropWhile Text.isBlank).reverse
  rw [List.length_reverse] at hend
  rw [Text.trim, List.length_reverse]
  exact Nat.le_trans hend (hle cs)

theorem length_lt_of_unwrapOnce? {cs inner : List Char} (h : unwrapOnce? cs = some inner) :
    inner.length < cs.length := by
  unfold unwrapOnce? at h
  split at h
  · simp at h
  · rename_i rest hrest
    obtain ⟨wrapper, _, hw⟩ := List.exists_of_findSome?_eq_some hrest
    have hlen := congrArg List.length (Text.append_of_afterStart? hw)
    split at h
    · rename_i hlast
      cases h
      cases rest with
      | nil => simp at hlast
      | cons c rest =>
        simp only [List.length_append, List.length_cons, List.length_dropLast] at hlen ⊢
        omega
    · simp at h

/-- The type inside all wrappers, without white space around it. -/
def unwrapType (cs : List Char) : List Char :=
  match _h : unwrapOnce? (Text.trim cs) with
  | none => Text.trim cs
  | some inner => unwrapType inner
termination_by cs.length
decreasing_by exact Nat.lt_of_lt_of_le (length_lt_of_unwrapOnce? _h) (length_trim_le cs)

/-- The kind of a column with the given declared type. -/
def ColumnKind.ofType (type : String) : ColumnKind :=
  let inner := unwrapType type.toList
  if Text.startsWith "Map(".toList inner then .map
  else if Text.startsWith "JSON".toList inner || Text.startsWith "Object(".toList inner then .json
  else .other

/-! ## Schemas -/

/-- The columns of a table, in order. -/
structure Schema where
  columns : List Column
  deriving DecidableEq

namespace Schema

/-- The first column with the given name. -/
def column? (s : Schema) (name : String) : Option Column := s.columns.find? (·.name = name)

/-- How data nested in a column is reached. -/
def kindOf (s : Schema) (name : String) : ColumnKind :=
  match s.column? name with
  | none => .unknown
  | some c => .ofType c.type

/-- The places of the columns without a name. -/
def unnamed (s : Schema) : List Nat :=
  s.columns.zipIdx.filterMap fun (c, i) => if c.name.isEmpty then some i else none

end Schema

end LogQuery
