import LogQuery.Number.Binary64

/-!
# Numbers in decimal notation

A decimal text is an optional sign, digits with an optional point among them, and an optional
power of ten: `-12.5`, `.5`, `7.`, `1e-7`. `Decimal.read?` reads one exactly, and
`Decimal.toBinary64` rounds it to the nearest floating-point number.
-/

namespace LogQuery

/-- The number `± coefficient * 10 ^ exponent`. -/
structure Decimal where
  negative : Bool
  coefficient : Nat
  exponent : Int
  deriving DecidableEq

namespace Decimal

/-- The decimal text of an integer. -/
def integerText (i : Int) : String :=
  if i < 0 then "-" ++ Nat.repr i.natAbs else Nat.repr i.natAbs

/-- Takes a sign off a text; a text without one is positive. -/
def splitSign : List Char → Bool × List Char
  | '-' :: rest => (true, rest)
  | '+' :: rest => (false, rest)
  | cs => (false, cs)

/-- The value of a run of digits. -/
def ofDigits (ds : List Char) : Nat := Nat.ofDigitChars 10 ds 0

/-- An optional power of ten at the end of a number: nothing, or `e` or `E` with an optional sign
and at least one digit. -/
def readExponent? : List Char → Option Int
  | [] => some 0
  | c :: rest =>
    if c = 'e' ∨ c = 'E' then
      let (negative, ds) := splitSign rest
      if ds.isEmpty || !ds.all Char.isDigit then none
      else some (if negative then -(ofDigits ds : Int) else ofDigits ds)
    else none

/-- Reads a whole text as a number; `none` if it is not one. -/
def read? (cs : List Char) : Option Decimal :=
  let (negative, unsigned) := splitSign cs
  let whole := unsigned.takeWhile Char.isDigit
  let (fraction, rest) := match unsigned.dropWhile Char.isDigit with
    | '.' :: rest => (rest.takeWhile Char.isDigit, rest.dropWhile Char.isDigit)
    | rest => ([], rest)
  if whole.isEmpty && fraction.isEmpty then none
  else (readExponent? rest).map fun e => ⟨negative, ofDigits (whole ++ fraction), e - fraction.length⟩

/-- The nearest floating-point number. A positive number of at least `10 ^ 400` is infinite and one
below `10 ^ (-400)` is zero, so that no larger power of ten is ever computed: a coefficient of `b`
binary digits is below `10 ^ b`. -/
def toBinary64 (d : Decimal) : Binary64 :=
  if d.coefficient = 0 then Binary64.ofCode d.negative 0
  else if 400 < d.exponent then Binary64.ofCode d.negative Binary64.infinityCode
  else if d.exponent + (d.coefficient.log2 + 1 : Nat) < -400 then Binary64.ofCode d.negative 0
  else
    Binary64.ofRatio d.negative (d.coefficient * Nat.pow 10 d.exponent.toNat)
      (Nat.pow 10 (-d.exponent).toNat)

end Decimal

end LogQuery
