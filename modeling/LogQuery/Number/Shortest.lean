import LogQuery.Number.Binary64

/-!
# The shortest decimal digits of a floating-point number

Every number of the format is the nearest one to an interval of reals around it. `shortest` finds,
among the decimals in that interval, those with the fewest digits, and of these the one nearest to
the number; between two equally near ones a `Tie` decides. All arithmetic is exact, on natural
numbers over a common denominator.
-/

namespace LogQuery

/-- Which of two equally near decimals is taken. -/
inductive Tie where
  | up
  | even
  deriving DecidableEq

namespace Binary64

/-- A number, and the ends of the interval of reals that round to it, over one denominator. The ends
belong to the interval if `closed`. -/
structure Interval where
  low : Nat
  value : Nat
  high : Nat
  den : Nat
  closed : Bool

/-- The interval of reals that round to a finite number other than zero. Below a power of two the
next number is half as far as above it, except where the steps no longer shrink. -/
def interval (x : Binary64) : Interval :=
  let m := x.significand
  let q := x.exponent - 2
  let scale := Nat.pow 2 q.toNat
  let below := if m = Nat.pow 2 52 ∧ x.exponent ≠ -1074 then 1 else 2
  { low := (4 * m - below) * scale
    value := 4 * m * scale
    high := (4 * m + 2) * scale
    den := Nat.pow 2 (-q).toNat
    closed := m % 2 = 0 }

/-- The largest `k` with `10 ^ k ≤ num / den`, for a positive quotient. The first guess comes from
the binary logarithm and is at most one too small. -/
def floorLog10 (num den : Nat) : Int :=
  let l : Int := (num.log2 : Int) - den.log2
  let k := ((l - 1) * 30103 - 100) / 100000
  if den * Nat.pow 10 (k + 1).toNat ≤ num * Nat.pow 10 (-(k + 1)).toNat then k + 1 else k

/-- Does the interval hold `units * step / den`, where `step` and `den` share the unit of the
interval's ends? -/
def Interval.holds (i : Interval) (grow units step : Nat) : Bool :=
  let point := units * step
  if i.closed then decide (i.low * grow ≤ point) && decide (point ≤ i.high * grow)
  else decide (i.low * grow < point) && decide (point < i.high * grow)

/-- The multiple of `10 ^ e` in the interval that is nearest to the number, in units of `10 ^ e`. -/
def Interval.nearest? (tie : Tie) (i : Interval) (e : Int) : Option Nat :=
  let grow := Nat.pow 10 (-e).toNat
  let step := i.den * Nat.pow 10 e.toNat
  let low := i.value * grow / step
  let rest := i.value * grow % step
  match i.holds grow low step, i.holds grow (low + 1) step with
  | false, false => none
  | true, false => some low
  | false, true => some (low + 1)
  | true, true =>
    if 2 * rest < step then some low
    else if step < 2 * rest then some (low + 1)
    else match tie with
      | .up => some (low + 1)
      | .even => some (if low % 2 = 0 then low else low + 1)

/-- The fewest digits that read back as the finite number `x`, as a coefficient and a power of ten.
Seventeen digits always suffice. -/
def shortest (tie : Tie) (x : Binary64) : Nat × Int :=
  if x.code = 0 then (0, 0)
  else
    let i := x.interval
    let k := floorLog10 i.value i.den
    let found := (List.range 17).findSome? fun (n : Nat) =>
      (i.nearest? tie (k - n)).map fun c => (c, k - (n : Int))
    found.getD (0, 0)

end Binary64

end LogQuery
