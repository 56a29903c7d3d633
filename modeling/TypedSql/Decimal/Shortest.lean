import TypedSql.Binary64.Basic

/-!
# Shortest decimals

The decimals `d · 10 ^ p` with a fixed exponent `p` form a grid.  `Decimal.shortest x` is
a decimal that reads back as the positive number `x`, on the coarsest grid that has one.
Only the two grid points next to `x` need to be looked at: when any grid point reads back
as `x`, one of these does.  Of two that do, the nearer is chosen, and a tie is decided by
the caller.
-/

namespace TypedSql

/-- The number `digits · 10 ^ exponent`. -/
structure Decimal where
  digits : Nat
  exponent : Int
deriving DecidableEq

namespace Decimal

/-- Which of two equally near neighbours is chosen. -/
inductive Tie where
  | up
  | toEven
deriving DecidableEq

/-- The neighbour chosen between `d` and `d + 1`. -/
def Tie.pick (tie : Tie) (d : Nat) : Nat :=
  match tie with
  | .up => d + 1
  | .toEven => d + d % 2

/-- The numbers `low < value < high`, of which the outer two bound the reals that round
to `value`, and of which the bounds themselves round to it when `closed` is true. -/
structure Neighbourhood where
  low : Nat
  value : Nat
  high : Nat
  closed : Bool

/-- The neighbourhood of a positive finite number, in quarters of its last place.  Below a
power of two the numbers are twice as dense, so the lower bound is twice as near. -/
def neighbourhood (x : Binary64) : Neighbourhood where
  low := 4 * x.significand - (if x.fraction = 0 ∧ 1 < x.exponentField then 1 else 2)
  value := 4 * x.significand
  high := 4 * x.significand + 2
  closed := x.significand % 2 == 0

/-- Whether the neighbourhood, scaled by `unit`, contains the number `n`. -/
def Neighbourhood.contains (i : Neighbourhood) (unit n : Nat) : Bool :=
  if i.closed then decide (i.low * unit ≤ n ∧ n ≤ i.high * unit)
  else decide (i.low * unit < n ∧ n < i.high * unit)

/-- The digits of the point of the grid of exponent `p` that reads back as `x`.  Lengths
are measured in a unit that makes both the quarters of the last place of `x` and the steps
of the grid whole. -/
def onGrid (tie : Tie) (x : Binary64) (p : Int) : Option Nat :=
  let i := neighbourhood x
  let q := x.exponent - 2
  let unit := power (-p).toNat <<< q.toNat
  let step := power p.toNat <<< (-q).toNat
  let d := i.value * unit / step
  match i.contains unit (d * step), i.contains unit ((d + 1) * step) with
  | true, true =>
    let below := i.value * unit - d * step
    let above := (d + 1) * step - i.value * unit
    some (if below < above then d else if above < below then d + 1 else tie.pick d)
  | true, false => some d
  | false, true => some (d + 1)
  | false, false => none

/-- The first grid, from the exponent `p` down through `n` exponents, on which `point`
finds something. -/
def coarsest (point : Int → Option Nat) : Nat → Int → Decimal
  | 0, p => ⟨(point p).getD 0, p⟩
  | n + 1, p =>
    match point p with
    | some d => ⟨d, p⟩
    | none => coarsest point n (p - 1)

/-- The shortest decimal that reads back as a positive finite number.  No such number has
a decimal on a grid above `10 ^ 309`, and each has one on a grid above `10 ^ (-344)`. -/
def shortest (tie : Tie) (x : Binary64) : Decimal :=
  coarsest (onGrid tie x) 653 309

end Decimal

end TypedSql
