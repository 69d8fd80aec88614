import LogQuery.Token.Basic

/-!
# Fields

A field is a column, or a path of segments into a column that holds nested data. A key is cut into
segments at its dots outside quotes (`Field.ofKey`), and a field is printed as a key
(`Field.print`).
-/

namespace LogQuery

open Text

inductive Field where
  | simple (name : String)
  | nested (base : String) (path : List String)
  deriving DecidableEq

namespace Field

/-- The field with the given path into a column; with no path it is the column itself. -/
def ofPath (base : String) (path : List String) : Field :=
  match path with
  | [] => simple base
  | path => nested base path

/-- The column that holds the field. -/
def column : Field → String
  | simple name => name
  | nested base _ => base

/-- The column and the path with dots between them. -/
def dotted : Field → String
  | simple name => name
  | nested base path => base ++ "." ++ String.intercalate "." path

/-- Can a segment be written without quotes? -/
def isPlainSegment (segment : String) : Bool :=
  !segment.isEmpty && segment.toList.all isNameChar

/-- A segment as it is written in a key: in double quotes unless it is plain. -/
def printSegment (segment : String) : String :=
  if isPlainSegment segment then segment else "\"" ++ segment ++ "\""

/-- The field as it is written in a query. -/
def print : Field → String
  | simple name => printSegment name
  | nested base path => String.intercalate "." ((base :: path).map printSegment)

/-- Cuts a key at its dots outside quotes. A quote opens only where a segment starts, and goes; inside
it a backslash keeps the next character from closing it, and stays. `quote` is the quote that is
open, and `current` is the segment so far, in reverse. -/
def segments (quote : Option Char) (current : List Char) : List Char → List (List Char)
  | [] => [current.reverse]
  | c :: rest =>
    match quote with
    | some q =>
      if c = '\\' then
        match rest with
        | [] => [('\\' :: current).reverse]
        | d :: rest => segments (some q) (d :: '\\' :: current) rest
      else if c = q then segments none current rest
      else segments (some q) (c :: current) rest
    | none =>
      if isQuote c && current.isEmpty then segments (some c) current rest
      else if c = '.' then current.reverse :: segments none [] rest
      else segments none (c :: current) rest

/-- The field that a key stands for. Empty segments are dropped; a key without any other names a
column as it stands. -/
def ofKey (key : String) : Field :=
  match (segments none [] key.toList).filter (!·.isEmpty) with
  | [] => simple key
  | base :: path => ofPath (String.ofList base) (path.map String.ofList)

end Field

end LogQuery
