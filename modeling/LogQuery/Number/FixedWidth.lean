import LogQuery.Number.Decimal

/-!
# Integers of a fixed width

An integer of a fixed width is read digit by digit, and every step is checked: as soon as the number
leaves the range of the width, nothing is read. It never wraps around.
-/

namespace LogQuery

/-- The integers that a width holds: zero, and those from `low` to `high`. -/
structure FixedWidth where
  low : Int
  high : Int
  low_le : low ≤ 0
  le_high : 0 ≤ high
  deriving DecidableEq

namespace FixedWidth

theorem pow_sub_one_nonneg (bits : Nat) : 0 ≤ (Nat.pow 2 bits : Int) - 1 :=
  Int.sub_nonneg_of_le (Int.ofNat_le.mpr (Nat.pow_pos (by decide)))

def unsigned (bits : Nat) : FixedWidth :=
  ⟨0, (Nat.pow 2 bits : Int) - 1, Int.le_refl 0, pow_sub_one_nonneg bits⟩

def signed (bits : Nat) : FixedWidth :=
  ⟨-(Nat.pow 2 (bits - 1) : Int), (Nat.pow 2 (bits - 1) : Int) - 1,
    Int.neg_nonpos_of_nonneg (Int.natCast_nonneg _), pow_sub_one_nonneg (bits - 1)⟩

/-- The integer, if the width holds it. -/
def check? (w : FixedWidth) (i : Int) : Option Int :=
  if w.low ≤ i ∧ i ≤ w.high then some i else none

/-- The integer with one more digit behind it. A negative one grows away from zero too, so that the
lowest integer of the width is not out of reach. -/
def push? (w : FixedWidth) (negative : Bool) (i : Int) (c : Char) : Option Int :=
  if c.isDigit then
    let digit : Int := (c.toNat - '0'.toNat : Nat)
    (w.check? (10 * i)).bind fun tens => w.check? (if negative then tens - digit else tens + digit)
  else none

/-- The integer with a run of digits behind it. -/
def pushAll? (w : FixedWidth) (negative : Bool) : Int → List Char → Option Int
  | i, [] => some i
  | i, c :: rest => (w.push? negative i c).bind fun j => pushAll? w negative j rest

/-- Reads a whole text: an optional sign and at least one digit. There is a minus sign only where the
width holds negative integers. -/
def read? (w : FixedWidth) (cs : List Char) : Option Int :=
  let (negative, digits) := Decimal.splitSign cs
  if digits.isEmpty || negative && decide (0 ≤ w.low) then none else w.pushAll? negative 0 digits

end FixedWidth

end LogQuery
