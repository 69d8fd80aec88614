import LogQuery.Number.Decimal
import LogQuery.Number.Layout

/-!
# JSON values

A JSON value keeps the members of an object in order, and tells integers from floating-point
numbers. `Json.compact` and `Json.pretty` write a value as text, `Json.sorted` puts the members of
every object in the order of their names.
-/

namespace LogQuery

inductive Json where
  | null
  | bool (b : Bool)
  | integer (i : Int)
  | float (x : Binary64)
  | string (s : String)
  | array (items : List Json)
  | object (members : List (String × Json))

namespace Json

instance : Inhabited Json := ⟨null⟩

/-- A natural number. -/
def nat (n : Nat) : Json := integer n

/-- A floating-point number; what is not finite has no place in JSON and is written as null. -/
def ofBinary64 (x : Binary64) : Json := if x.isFinite then float x else null

/-- A value that may be absent. -/
def ofOption {α : Type} (f : α → Json) : Option α → Json
  | none => null
  | some a => f a

/-- A list of values. -/
def ofList {α : Type} (f : α → Json) (as : List α) : Json := array (as.map f)

/-! ## Writing -/

/-- The escape of a character inside a string, if it needs one. -/
def escape? (c : Char) : Option (List Char) :=
  if c = '"' then some ['\\', '"']
  else if c = '\\' then some ['\\', '\\']
  else if c = '\n' then some ['\\', 'n']
  else if c = '\r' then some ['\\', 'r']
  else if c = '\t' then some ['\\', 't']
  else if c = '\x08' then some ['\\', 'b']
  else if c = '\x0c' then some ['\\', 'f']
  else if c.toNat < 32 then
    some ['\\', 'u', '0', '0', Nat.digitChar (c.toNat / 16), Nat.digitChar (c.toNat % 16)]
  else none

/-- A string in double quotes. -/
def quote (s : String) : String :=
  "\"" ++ String.ofList (s.toList.flatMap fun c => (escape? c).getD [c]) ++ "\""

mutual

/-- The value as text, without any white space. -/
def compact : Json → String
  | null => "null"
  | bool b => if b then "true" else "false"
  | integer i => Decimal.integerText i
  | float x => Layout.json.write x
  | string s => quote s
  | array items => "[" ++ String.intercalate "," (compactItems items) ++ "]"
  | object members => "\x7b" ++ String.intercalate "," (compactMembers members) ++ "\x7d"

def compactItems : List Json → List String
  | [] => []
  | item :: rest => item.compact :: compactItems rest

def compactMembers : List (String × Json) → List String
  | [] => []
  | (name, value) :: rest => (quote name ++ ":" ++ value.compact) :: compactMembers rest

end

/-- A line break and an indentation of `depth` levels. -/
def newline (depth : Nat) : String := "\n" ++ String.ofList (List.replicate (2 * depth) ' ')

/-- Lines one level deeper, between two brackets; nothing between them if there are none. -/
def block (opening closing : String) (depth : Nat) (lines : List String) : String :=
  if lines.isEmpty then opening ++ closing
  else
    opening ++ newline (depth + 1) ++ String.intercalate ("," ++ newline (depth + 1)) lines ++
      newline depth ++ closing

mutual

/-- The value as text over several lines, starting `depth` levels deep. -/
def prettyAt (depth : Nat) : Json → String
  | null => "null"
  | bool b => if b then "true" else "false"
  | integer i => Decimal.integerText i
  | float x => Layout.json.write x
  | string s => quote s
  | array items => block "[" "]" depth (prettyItems (depth + 1) items)
  | object members => block "\x7b" "\x7d" depth (prettyMembers (depth + 1) members)

def prettyItems (depth : Nat) : List Json → List String
  | [] => []
  | item :: rest => prettyAt depth item :: prettyItems depth rest

def prettyMembers (depth : Nat) : List (String × Json) → List String
  | [] => []
  | (name, value) :: rest =>
    (quote name ++ ": " ++ prettyAt depth value) :: prettyMembers depth rest

end

/-- The value as text over several lines, two spaces a level. -/
def pretty (j : Json) : String := prettyAt 0 j

/-! ## Order of members -/

/-- Puts a member where its name belongs among members in the order of their names. -/
def insertMember (member : String × Json) : List (String × Json) → List (String × Json)
  | [] => [member]
  | first :: rest =>
    if member.1 ≤ first.1 then member :: first :: rest else first :: insertMember member rest

mutual

/-- The value with the members of every object in the order of their names. -/
def sorted : Json → Json
  | array items => array (sortedItems items)
  | object members => object (sortedMembers members)
  | null => null
  | bool b => bool b
  | integer i => integer i
  | float x => float x
  | string s => string s

def sortedItems : List Json → List Json
  | [] => []
  | item :: rest => item.sorted :: sortedItems rest

def sortedMembers : List (String × Json) → List (String × Json)
  | [] => []
  | (name, value) :: rest => insertMember (name, value.sorted) (sortedMembers rest)

end

/-! ## Reading parts -/

def string? : Json → Option String
  | string s => some s
  | _ => none

def bool? : Json → Option Bool
  | bool b => some b
  | _ => none

/-- A natural number of at most 64 bits. -/
def nat? : Json → Option Nat
  | integer i => if 0 ≤ i ∧ i < Int.pow 2 64 then some i.toNat else none
  | _ => none

/-- A number, as a floating-point number. -/
def number? : Json → Option Binary64
  | float x => some x
  | integer i => some (.ofRatio (i < 0) i.natAbs 1)
  | _ => none

/-- A list of values, each read by `f`. -/
def list? {α : Type} (f : Json → Option α) : Json → Option (List α)
  | array items => items.mapM f
  | _ => none

/-- A value that may be absent, read by `f`. -/
def optional? {α : Type} (f : Json → Option α) : Json → Option (Option α)
  | null => some none
  | j => (f j).map some

/-- The member with the given name. -/
def member? (name : String) : Json → Option Json
  | object members => members.lookup name
  | _ => none

/-- The fields of a record with the given names, of which all but the last few, which have defaults,
must be there. A record is written as an object, or as the list of its fields in order. -/
def fields? (names : List String) (least : Nat) : Json → Option (List (String × Json))
  | object members => some members
  | array items =>
    if least ≤ items.length ∧ items.length ≤ names.length then some (names.zip items) else none
  | _ => none

/-- A field that must be there. -/
def require {α : Type} (fields : List (String × Json)) (name : String) (f : Json → Option α) :
    Option α :=
  (fields.lookup name).bind f

/-- A field that may be missing, with its default. -/
def default {α : Type} (fields : List (String × Json)) (name : String) (f : Json → Option α)
    (a : α) : Option α :=
  match fields.lookup name with
  | none => some a
  | some j => f j

/-! ## Kinds and constants

Some values say of which kind they are. What is inside such a value is read more freely than what is
not: a kind may be given by its number there, and a constant in one more way.
-/

/-- Does a value stand inside another one that says its kind? -/
inductive Place where
  | outer
  | inner
  deriving DecidableEq

/-- A kind, read by its name or, inside a value with a kind of its own, by its number. -/
def kind? {α : Type} (place : Place) (all : List α) (name : α → String) : Json → Option α
  | string s => all.find? (name · = s)
  | integer i => if place = .inner ∧ 0 ≤ i then all[i.toNat]? else none
  | _ => none

/-- A member of an enumeration, read by its name: a string, or an object with that one name and
null. Inside a value that says its kind, an empty object may stand for null. -/
def oneOf? {α : Type} (place : Place) (all : List α) (name : α → String) : Json → Option α
  | string s => all.find? (name · = s)
  | object [(s, null)] => all.find? (name · = s)
  | object [(s, object [])] => if place = .inner then all.find? (name · = s) else none
  | _ => none

end Json

end LogQuery
