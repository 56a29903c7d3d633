import TypedSql.Binary64.Basic
import TypedSql.Json.Basic

/-!
# Doubles in JSON

How a numeral is read as a double.  The digits are gathered in a word of sixty-four bits as
long as they fit; digits beyond that only count towards the exponent.  The double nearest to
the word is then multiplied or divided by the double nearest to a power of ten, so that the
result may differ from the nearest double in its last place.  A numeral too large for a
double is refused.
-/

namespace TypedSql.JsonNumeral

/-- The least number that does not fit into a word of sixty-four bits. -/
def wordLimit : Nat := 0x10000000000000000

/-- Appends digits to a number as long as it fits into a word of sixty-four bits: the number, and
the digits that are left. -/
def gather (n : Nat) : List Char → Nat × List Char
  | [] => (n, [])
  | c :: cs =>
    let m := 10 * n + Decimal.digitValue c
    if m < wordLimit then gather m cs else (n, c :: cs)

/-- The double nearest to a power of ten. -/
def powerOfTen (e : Nat) : Binary64 :=
  .ofRatio false (Decimal.power e) 1

/-- A nonnegative double times a power of ten.  Exponents below `-308` are taken in steps of
`308`, of which the third leaves nothing of a number of sixty-four bits. -/
def scale (x : Binary64) (e : Int) : Option Binary64 :=
  if 308 < e then (if x.isZero then some x else none)
  else if 0 ≤ e then
    let y := x.mul (powerOfTen e.toNat)
    if y.isInfinite then none else some y
  else
    let n := (e.natAbs - 1) / 308
    let reduced := (List.replicate (min n 3) (powerOfTen 308)).foldl Binary64.div x
    some (reduced.div (powerOfTen (e.natAbs - 308 * n)))

/-- The nonnegative double that a numeral writes, without its sign. -/
def magnitude? (n : JsonNumeral) : Option Binary64 :=
  let whole := gather 0 n.whole
  let fraction := n.fraction.getD []
  let word := gather whole.1 fraction
  let e : Int := whole.2.length - ((fraction.length : Int) - word.2.length)
  match n.exponent with
  | none =>
    if n.fraction.isNone ∧ whole.2 = [] then some (.ofInt word.1)
    else scale (.ofInt word.1) e
  | some (negative, ds) =>
    let m := Decimal.value ds
    if Decimal.Bounds.signed32.contains m = false then
      if word.1 ≠ 0 ∧ negative = false then none else some .zero
    else scale (.ofInt word.1) (if negative then e - m else e + m)

/-- The double that a numeral writes. -/
def toDouble? (n : JsonNumeral) : Option Binary64 :=
  n.magnitude?.map fun x => if n.negative then x.neg else x

end TypedSql.JsonNumeral
