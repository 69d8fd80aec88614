import LogQuery.Number.Shortest

/-!
# Writing floating-point numbers

A `Layout` holds the decisions of a way to write the shortest digits of a number: which numbers are
written positionally, whether an integral one keeps its `.0`, and which of two equally near
decimals is taken. `Layout.plain` is the way of queries and conditions, `Layout.json` that of JSON
output.
-/

namespace LogQuery

/-- A way to write floating-point numbers. -/
structure Layout where
  /-- Is a number whose first digit stands for this power of ten written positionally? -/
  positional : Int → Bool
  /-- Does an integral number end in `.0`? -/
  pointZero : Bool
  tie : Tie

namespace Layout

/-- No power of ten, and an integral number has no point. -/
def plain : Layout := ⟨fun _ => true, false, .up⟩

/-- Five zeros at most after the point, sixteen digits at most before it, and a point in every
positional number. -/
def json : Layout := ⟨fun e => decide (-5 ≤ e) && decide (e ≤ 15), true, .even⟩

/-- `n` zeros. -/
def zeros (n : Nat) : List Char := List.replicate n '0'

/-- The digits with the point after the first `point` of them. -/
def place (pointZero : Bool) (ds : List Char) (point : Int) : List Char :=
  if point ≤ 0 then '0' :: '.' :: zeros (-point).toNat ++ ds
  else if ds.length ≤ point.toNat then
    ds ++ zeros (point.toNat - ds.length) ++ (if pointZero then ['.', '0'] else [])
  else ds.take point.toNat ++ '.' :: ds.drop point.toNat

/-- The digits with the point after the first one, and the power of ten of that digit. -/
def scientific (ds : List Char) (e : Int) : List Char :=
  let power := (if e < 0 then '-' else '+') :: Nat.toDigits 10 e.natAbs
  match ds with
  | [d] => d :: 'e' :: power
  | d :: rest => d :: '.' :: rest ++ 'e' :: power
  | [] => 'e' :: power

/-- The magnitude of a finite number. -/
def magnitude (layout : Layout) (x : Binary64) : List Char :=
  let (coefficient, exponent) := x.shortest layout.tie
  let all := Nat.toDigits 10 coefficient
  let ds := (all.reverse.dropWhile (· == '0')).reverse
  if ds.isEmpty then place layout.pointZero ['0'] 1
  else
    let e : Int := exponent + all.length - 1
    if layout.positional e then place layout.pointZero ds (e + 1) else scientific ds e

/-- The text of a number. A not-a-number has no sign in it. -/
def write (layout : Layout) (x : Binary64) : String :=
  if x.isNaN then "NaN"
  else
    let body := if x.isFinite then layout.magnitude x else ['i', 'n', 'f']
    String.ofList (if x.negative then '-' :: body else body)

end Layout

end LogQuery
