/-!
# Binary floating-point numbers of 64 bits

A value is a sign and a code of 63 bits. Codes count the magnitudes of the format in ascending
order: 0 is zero, the codes below `2 ^ 52` are the numbers `code * 2 ^ (-1074)`, each later run of
`2 ^ 52` codes doubles the step, and `infinityCode` is infinity. The codes above it are the
not-a-numbers. Values are equal if they have the same sign and code, so the two zeros differ and a
not-a-number is equal to itself.

`ofRatio` rounds an exact quotient to the nearest number of the format, a tie going to the even
code; `significand` and `exponent` give the exact value `significand * 2 ^ exponent` of a finite
number.
-/

namespace LogQuery

/-- The code of infinity, one above those of the finite magnitudes and one below those of the
not-a-numbers. -/
def Binary64.infinityCode : Nat := 2047 * Nat.pow 2 52

/-- A floating-point number of 64 bits, infinite ones and not-a-numbers included. -/
structure Binary64 where
  negative : Bool
  code : Nat
  code_lt : code < Nat.pow 2 63
  deriving DecidableEq

namespace Binary64

theorem infinityCode_lt : infinityCode < Nat.pow 2 63 := by decide

/-- The number with the given sign and magnitude; a magnitude past the last one is infinity. -/
def ofCode (negative : Bool) (code : Nat) : Binary64 :=
  ⟨negative, min code infinityCode, Nat.lt_of_le_of_lt (Nat.min_le_right ..) infinityCode_lt⟩

/-- Is the value a finite number? -/
def isFinite (x : Binary64) : Bool := decide (x.code < infinityCode)

/-- Is the value a not-a-number? -/
def isNaN (x : Binary64) : Bool := decide (infinityCode < x.code)

/-- The significand of a magnitude, as a natural number. -/
def significand (x : Binary64) : Nat :=
  if x.code < Nat.pow 2 52 then x.code else Nat.pow 2 52 + x.code % Nat.pow 2 52

/-- The power of two that the significand is multiplied by. -/
def exponent (x : Binary64) : Int :=
  if x.code < Nat.pow 2 52 then -1074 else (x.code / Nat.pow 2 52 : Nat) - 1075

/-- The quotient rounded to the nearest natural number, a tie to the even one. -/
def roundDiv (num den : Nat) : Nat :=
  let q := num / den
  let r := num % den
  if 2 * r < den then q
  else if den < 2 * r then q + 1
  else if q % 2 = 0 then q
  else q + 1

/-- The largest `k` with `2 ^ k ≤ num / den`, for a positive quotient. -/
def floorLog2 (num den : Nat) : Int :=
  let k : Int := (num.log2 : Int) - den.log2
  if den * Nat.pow 2 k.toNat ≤ num * Nat.pow 2 (-k).toNat then k else k - 1

/-- The code of the magnitude nearest to `num / den`. The quotient is measured in the unit
`2 ^ q` that gives it 53 binary digits, or in the smallest unit of the format if that is larger;
rounding up to `2 ^ 53` units lands on the first code of the next run. -/
def codeOfRatio (num den : Nat) : Nat :=
  if num = 0 then 0
  else
    let q : Int := max (-1074) (floorLog2 num den - 52)
    let units := roundDiv (num * Nat.pow 2 (-q).toNat) (den * Nat.pow 2 q.toNat)
    (q + 1074).toNat * Nat.pow 2 52 + units

/-- The number nearest to `num / den` in magnitude, with the given sign. -/
def ofRatio (negative : Bool) (num den : Nat) : Binary64 :=
  ofCode negative (codeOfRatio num den)

/-- The number nearest to a natural number. -/
def ofNat (n : Nat) : Binary64 := ofRatio false n 1

end Binary64

end LogQuery
