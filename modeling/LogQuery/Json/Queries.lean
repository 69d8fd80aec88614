import LogQuery.Json.Basic
import LogQuery.Query.Basic

/-!
# Queries as JSON

A field or filter is written as an object whose member `type` says which kind it is. It is also read
from a list that starts with the kind. All that is inside a filter is read as standing inside a value
with a kind of its own (`Json.Place.inner`).
-/

namespace LogQuery

namespace Literal

def toJson : Literal → Json
  | string s => .string s
  | integer i => .integer i
  | float x => .ofBinary64 x
  | boolean b => .bool b
  | null => .null

/-- A number is an integer if it is written as one and fits 64 bits with a sign. -/
def ofJson? : Json → Option Literal
  | .string s => some (string s)
  | .integer i =>
    if -Int.pow 2 63 ≤ i ∧ i < Int.pow 2 63 then some (integer i)
    else some (float (.ofRatio (i < 0) i.natAbs 1))
  | .float x => some (float x)
  | .bool b => some (boolean b)
  | .null => some null
  | _ => none

end Literal

namespace Json

/-- The kind of a value that says which kind it is, and the rest of it. -/
def tagged? {α : Type} (place : Place) (all : List α) (name : α → String) :
    Json → Option (α × Json)
  | object members => (require members "type" (kind? place all name)).map (·, object members)
  | array (tag :: items) => (kind? place all name tag).map (·, array items)
  | _ => none

end Json

namespace Field

/-- The kinds of fields. -/
inductive Kind where
  | simple
  | nested
  deriving DecidableEq

namespace Kind

/-- The name of a kind in JSON. -/
def name : Kind → String
  | simple => "simple"
  | nested => "nested"

def all : List Kind := [simple, nested]

/-- The name of a kind stands for it everywhere. -/
theorem kind?_name (place : Json.Place) (k : Kind) :
    Json.kind? place all name (.string k.name) = some k := by
  cases k <;> simp [Json.kind?, all, name]

end Kind

def toJson : Field → Json
  | simple name => .object [("type", .string Kind.simple.name), ("name", .string name)]
  | nested base path =>
    .object [("type", .string Kind.nested.name), ("base", .string base),
      ("path", .ofList .string path)]

/-- Reads a field that stands at the given place. -/
def ofJsonAt? (place : Json.Place) (j : Json) : Option Field := do
  match ← j.tagged? place Kind.all Kind.name with
  | (.simple, j) =>
    let fields ← j.fields? ["name"] 1
    let name ← Json.require fields "name" Json.string?
    return simple name
  | (.nested, j) =>
    let fields ← j.fields? ["base", "path"] 2
    let base ← Json.require fields "base" Json.string?
    let path ← Json.require fields "path" (Json.list? Json.string?)
    return nested base path

def ofJson? (j : Json) : Option Field := ofJsonAt? .outer j

end Field

namespace Comparison

/-- The name of a comparison in JSON. -/
def name : Comparison → String
  | equal => "Eq"
  | notEqual => "NotEq"
  | contains => "Contains"
  | notContains => "NotContains"
  | greater => "Gt"
  | less => "Lt"
  | greaterOrEqual => "GtEq"
  | lessOrEqual => "LtEq"

end Comparison

namespace Connective

/-- The name of a connective in JSON. -/
def name : Connective → String
  | and => "And"
  | or => "Or"

def all : List Connective := [and, or]

end Connective

namespace Condition

/-- The members of a condition. -/
def toMembers (c : Condition) : List (String × Json) :=
  [("field", c.field.toJson), ("operator", .string c.comparison.name), ("value", c.value.toJson),
    ("quoted", .bool c.quoted)]

def toJson (c : Condition) : Json := .object c.toMembers

/-- Reads a condition that stands at the given place. -/
def ofJsonAt? (place : Json.Place) (j : Json) : Option Condition := do
  let fields ← j.fields? ["field", "operator", "value", "quoted"] 3
  let field ← Json.require fields "field" (Field.ofJsonAt? place)
  let comparison ←
    Json.require fields "operator" (Json.oneOf? place Comparison.all Comparison.name)
  let value ← Json.require fields "value" Literal.ofJson?
  let quoted ← Json.default fields "quoted" Json.bool? false
  return ⟨field, comparison, value, quoted⟩

def ofJson? (j : Json) : Option Condition := ofJsonAt? .outer j

end Condition

namespace Filter

/-- The kinds of filters. -/
inductive Kind where
  | condition
  | logical
  | group
  deriving DecidableEq

namespace Kind

/-- The name of a kind in JSON. -/
def name : Kind → String
  | condition => "expression"
  | logical => "logical"
  | group => "group"

def all : List Kind := [condition, logical, group]

/-- The name of a kind stands for it everywhere. -/
theorem kind?_name (place : Json.Place) (k : Kind) :
    Json.kind? place all name (.string k.name) = some k := by
  cases k <;> simp [Json.kind?, all, name]

end Kind

mutual

def toJson : Filter → Json
  | condition c => .object (("type", .string Kind.condition.name) :: c.toMembers)
  | logical op children =>
    .object [("type", .string Kind.logical.name), ("operator", .string op.name),
      ("children", .array (toJsons children))]
  | group children =>
    .object [("type", .string Kind.group.name), ("children", .array (toJsons children))]

def toJsons : List Filter → List Json
  | [] => []
  | child :: rest => child.toJson :: toJsons rest

end

theorem toJsons_eq (children : List Filter) : toJsons children = children.map toJson := by
  induction children with
  | nil => rfl
  | cons child rest ih => simp [toJsons, ih]

mutual

/-- Reads a filter that stands at the given place. -/
def ofJsonAt? (place : Json.Place) : Json → Option Filter
  | .object members =>
    match Json.require members "type" (Json.kind? place Kind.all Kind.name) with
    | some .condition => (Condition.ofJsonAt? .inner (.object members)).map condition
    | some .logical =>
      match Json.require members "operator" (Json.oneOf? .inner Connective.all Connective.name) with
      | some op => (ofChildren? members).map (logical op)
      | none => none
    | some .group => (ofChildren? members).map group
    | none => none
  | .array [kind, op, .array children] =>
    match kind.kind? place Kind.all Kind.name, op.oneOf? .inner Connective.all Connective.name with
    | some .logical, some op => (ofJsons? children).map (logical op)
    | _, _ => none
  | .array [kind, .array children] =>
    match kind.kind? place Kind.all Kind.name with
    | some .group => (ofJsons? children).map group
    | _ => none
  | .array (kind :: items) =>
    match kind.kind? place Kind.all Kind.name with
    | some .condition => (Condition.ofJsonAt? .inner (.array items)).map condition
    | _ => none
  | _ => none

/-- The filters of a list inside a filter. -/
def ofJsons? : List Json → Option (List Filter)
  | [] => some []
  | item :: rest =>
    match ofJsonAt? .inner item, ofJsons? rest with
    | some child, some children => some (child :: children)
    | _, _ => none

/-- The filters of the member `children`. -/
def ofChildren? : List (String × Json) → Option (List Filter)
  | [] => none
  | (name, value) :: rest =>
    if name = "children" then
      match value with
      | .array items => ofJsons? items
      | _ => none
    else ofChildren? rest

end

def ofJson? (j : Json) : Option Filter := ofJsonAt? .outer j

end Filter

namespace Query

def toJson (q : Query) : Json :=
  .object [("where_clause", .ofOption Filter.toJson q.filter),
    ("select", .ofList Field.toJson q.select)]

def ofJson? (j : Json) : Option Query := do
  let fields ← j.fields? ["where_clause", "select"] 1
  let filter ← Json.default fields "where_clause" (Json.optional? Filter.ofJson?) none
  let select ← Json.default fields "select" (Json.list? Field.ofJson?) []
  return ⟨filter, select⟩

end Query

end LogQuery
