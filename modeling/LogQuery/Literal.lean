import LogQuery.Number.FixedWidth
import LogQuery.Number.Layout
import LogQuery.Text.Quoted
import LogQuery.Text.Word

/-!
# Literals

The right-hand side of a comparison. A value written in quotes is a string as it stands
(`Literal.ofText`); a value without quotes may also be `null`, a boolean or a number. An integer
must lie within `± (2 ^ 53 - 1)`, so that a floating-point number holds it exactly; a larger one
stays a string.
-/

namespace LogQuery

inductive Literal where
  | string (s : String)
  | integer (i : Int)
  | float (x : Binary64)
  | boolean (b : Bool)
  | null
  deriving DecidableEq

namespace Literal

/-- The name of the literal's type. -/
def typeName : Literal → String
  | string _ => "string"
  | integer _ => "number"
  | float _ => "number"
  | boolean _ => "boolean"
  | null => "null"

def booleanText (b : Bool) : String := if b then "true" else "false"

/-- The literal as plain text, without quotes. -/
def text : Literal → String
  | string s => s
  | integer i => Decimal.integerText i
  | float x => Layout.plain.write x
  | boolean b => booleanText b
  | null => "null"

/-- The literal as it is written in a query. -/
def print : Literal → String
  | string s => "\"" ++ String.ofList (Text.escape s.toList) ++ "\""
  | l => l.text

/-- The largest integer up to which a floating-point number holds every integer exactly. -/
def maxInteger : Nat := Nat.pow 2 53 - 1

/-- Takes a minus sign off a text. -/
def splitMinus : List Char → Bool × List Char
  | '-' :: rest => (true, rest)
  | cs => (false, cs)

/-- A run of at least one digit. -/
def isDigits (cs : List Char) : Bool := !cs.isEmpty && cs.all Char.isDigit

/-- Is the text a number with digits on both sides of a point? -/
def isPointed (cs : List Char) : Bool :=
  let digits := (splitMinus cs).2
  match digits.dropWhile Char.isDigit with
  | '.' :: fraction => !(digits.takeWhile Char.isDigit).isEmpty && isDigits fraction
  | _ => false

/-- The floating-point number that a text stands for, if it has digits on both sides of a point. -/
def readFloat? (cs : List Char) : Option Binary64 :=
  if isPointed cs then (Decimal.read? cs).map Decimal.toBinary64 else none

/-- Do the digits stand for a number that is held exactly? A number of more than 128 bits is not. -/
def isExact (digits : List Char) : Bool :=
  match (FixedWidth.unsigned 128).read? digits with
  | some n => decide (n ≤ maxInteger)
  | none => false

/-- The integer that a text stands for, if it is one of the integers that are held exactly. -/
def readInteger? (cs : List Char) : Option Int :=
  let digits := (splitMinus cs).2
  if isDigits digits && isExact digits then (FixedWidth.signed 64).read? cs else none

/-- The text without a pair of equal quotes around it. -/
def stripQuotes (cs : List Char) : List Char :=
  match cs with
  | c :: d :: rest =>
    if Text.isQuote c && (d :: rest).getLast? == some c then (d :: rest).dropLast else cs
  | _ => cs

/-- What a value token stands for. -/
def ofText (text : String) (quoted : Bool) : Literal :=
  if quoted then string text
  else if Text.sameWord text "null" then null
  else if Text.sameWord text "true" then boolean true
  else if Text.sameWord text "false" then boolean false
  else
    match readFloat? text.toList with
    | some x => float x
    | none =>
      match readInteger? text.toList with
      | some i => integer i
      | none => string (String.ofList (stripQuotes text.toList))

end Literal

end LogQuery
