import LogQuery.Json.Document
import LogQuery.Schema

/-!
# Schema documents

A schema is given as a JSON text, `{"columns": [{"name": ..., "type": ...}, ...]}`. Members with
other names are skipped, whatever they hold; a member that is repeated or missing, a value of the
wrong kind, or any text after the document makes it unreadable. A column must have a name.
-/

namespace LogQuery

/-- Why a text is no schema. -/
inductive SchemaError where
  | unreadable
  /-- The places of the columns without a name. -/
  | unnamed (columns : List Nat)
  deriving DecidableEq

namespace SchemaError

def message : SchemaError → String
  | unreadable => "Invalid schema JSON"
  | unnamed columns =>
    "Invalid schema: " ++ String.join (columns.map fun i =>
      "columns[" ++ Nat.repr i ++ "].name: Column name cannot be empty")

end SchemaError

namespace Document

/-- The members with the given name. -/
def named (name : String) (members : List (String × Document)) : List Document :=
  members.filterMap fun (n, d) => if n = name then some d else none

/-- The members of an object, with the names read as text. -/
def members? (members : List (List StringUnit × Document)) : Option (List (String × Document)) :=
  members.mapM fun (name, value) => (text? name).map (·, value)

/-- The fields of a record, in the order of the given names. A record is written as an object, in
which each name occurs once, or as the list of its fields. -/
def record? (names : List String) : Document → Option (List Document)
  | object members => do
    let members ← members? members
    names.mapM fun name =>
      match named name members with
      | [d] => some d
      | _ => none
  | array items => if items.length = names.length then some items else none
  | _ => none

/-- The text of a string. -/
def string? : Document → Option String
  | string units => text? units
  | _ => none

end Document

namespace Column

/-- Reads a column of a schema document. -/
def ofDocument? (d : Document) : Option Column :=
  match d.record? ["name", "type"] with
  | some [name, type] =>
    match name.string?, type.string? with
    | some name, some type => some ⟨name, type⟩
    | _, _ => none
  | _ => none

end Column

namespace Schema

/-- Reads a schema document. -/
def ofDocument? (d : Document) : Option Schema :=
  match d.record? ["columns"] with
  | some [.array items] => (items.mapM Column.ofDocument?).map Schema.mk
  | _ => none

/-- Reads a schema from a JSON text. -/
def ofText (text : String) : Except SchemaError Schema :=
  match (Document.ofText? text).bind ofDocument? with
  | none => .error .unreadable
  | some s => if s.unnamed.isEmpty then .ok s else .error (.unnamed s.unnamed)

end Schema

end LogQuery
