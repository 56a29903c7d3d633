import TypedSql.Decimal.Numeral

/-!
# Double-precision binary numbers

A `Binary64` is a word of 64 bits read as a number: a sign, eleven bits of exponent and
fifty-two bits of fraction.  A finite word of significand `m` and exponent `q` denotes
`± m · 2 ^ q`.  All arithmetic is exact arithmetic on natural numbers followed by one
rounding, `roundMagnitude`, to the nearest word, a tie going to the even significand.

The numerical comparison `equal` is not equality of words: the two zeros agree, and a word
that is not a number agrees with nothing.
-/

namespace TypedSql

/-- A number of double precision, given by its sixty-four bits. -/
structure Binary64 where
  bits : UInt64
deriving DecidableEq

namespace Binary64

/-! ### Reading a word -/

/-- The place value of the sign. -/
def signPlace : Nat := 0x8000000000000000

/-- The place value of the least bit of the exponent, which is also the implicit leading bit
of a significand. -/
def exponentPlace : Nat := 0x10000000000000

/-- Whether the sign bit is set. -/
def negative (x : Binary64) : Bool :=
  decide (signPlace ≤ x.bits.toNat)

/-- The eleven bits of exponent. -/
def exponentField (x : Binary64) : Nat :=
  x.bits.toNat / exponentPlace % 2048

/-- The fifty-two bits of fraction. -/
def fraction (x : Binary64) : Nat :=
  x.bits.toNat % exponentPlace

/-- Whether the word is not a number. -/
def isNaN (x : Binary64) : Bool :=
  x.exponentField == 2047 && x.fraction != 0

/-- Whether the word is one of the two infinities. -/
def isInfinite (x : Binary64) : Bool :=
  x.exponentField == 2047 && x.fraction == 0

/-- Whether the word denotes a real number. -/
def isFinite (x : Binary64) : Bool :=
  x.exponentField != 2047

/-- Whether the word is one of the two zeros. -/
def isZero (x : Binary64) : Bool :=
  x.exponentField == 0 && x.fraction == 0

/-- The integer `m` of the magnitude `m · 2 ^ q`: the fraction, with its implicit leading
bit unless the exponent is the least one. -/
def significand (x : Binary64) : Nat :=
  if x.exponentField = 0 then x.fraction else exponentPlace + x.fraction

/-- The exponent `q` of the magnitude `m · 2 ^ q`. -/
def exponent (x : Binary64) : Int :=
  (max x.exponentField 1 : Nat) - 1075

/-- Numerical equality: words that are not numbers agree with nothing, and the zeros agree
with each other. -/
def equal (x y : Binary64) : Bool :=
  !x.isNaN && !y.isNaN && (x.bits == y.bits || (x.isZero && y.isZero))

/-! ### Building a word -/

/-- The word with the given sign whose remaining bits are `magnitude`. -/
def ofMagnitude (negative : Bool) (magnitude : Nat) : Binary64 :=
  ⟨UInt64.ofNat ((if negative then signPlace else 0) + magnitude)⟩

/-- The bits of infinity without its sign. -/
def infinityMagnitude : Nat := 2047 * exponentPlace

/-- Positive zero. -/
def zero : Binary64 := ofMagnitude false 0

/-- The number one. -/
def one : Binary64 := ofMagnitude false (1023 * exponentPlace)

/-- The infinity of the given sign. -/
def infinity (negative : Bool) : Binary64 := ofMagnitude negative infinityMagnitude

/-- A quiet word that is not a number, of the given sign. -/
def nan (negative : Bool) : Binary64 := ofMagnitude negative (infinityMagnitude + exponentPlace / 2)

/-! ### Rounding -/

/-- The natural number nearest to `num / den`, a half going to the even neighbour. -/
def divNearest (num den : Nat) : Nat :=
  let d := num / den
  let r := num % den
  if 2 * r < den then d else if den < 2 * r then d + 1 else d + d % 2

/-- The bits of the word nearest to the positive quotient `num / den`.

The exponent `low` makes the quotient `num / (den · 2 ^ low)` lie between `2 ^ 52` and
`2 ^ 54` unless it is the least exponent, so that `low` or its successor is the exponent
of the result.  Since the significand is added to the exponent, a significand that rounds
up to `2 ^ 53` carries into the exponent, and a sum past the largest finite word is
infinite. -/
def roundMagnitude (num den : Nat) : Nat :=
  if num = 0 then 0 else
    let low : Int := max ((num.log2 : Int) - den.log2 - 53) (-1074)
    let scaled (q : Int) : Nat × Nat := (num <<< (-q).toNat, den <<< q.toNat)
    let q := if 2 * exponentPlace ≤ (scaled low).1 / (scaled low).2 then low + 1 else low
    let m := divNearest (scaled q).1 (scaled q).2
    min ((q + 1074).toNat * exponentPlace + m) infinityMagnitude

/-- The word nearest to `± num / den`. -/
def ofRatio (negative : Bool) (num den : Nat) : Binary64 :=
  ofMagnitude negative (roundMagnitude num den)

/-- The word nearest to `± num / den · 2 ^ e`. -/
def ofScaledRatio (negative : Bool) (num den : Nat) (e : Int) : Binary64 :=
  ofRatio negative (num <<< e.toNat) (den <<< (-e).toNat)

/-- The word nearest to an integer. -/
def ofInt (n : Int) : Binary64 :=
  ofRatio (decide (n < 0)) n.natAbs 1

/-! ### Arithmetic -/

/-- The product of two finite numbers, rounded. -/
def mul (x y : Binary64) : Binary64 :=
  ofScaledRatio (x.negative != y.negative) (x.significand * y.significand) 1
    (x.exponent + y.exponent)

/-- The quotient of a finite number by a finite nonzero number, rounded. -/
def div (x y : Binary64) : Binary64 :=
  ofScaledRatio (x.negative != y.negative) x.significand y.significand
    (x.exponent - y.exponent)

/-- The number with the opposite sign. -/
def neg (x : Binary64) : Binary64 :=
  ofMagnitude (!x.negative) (x.bits.toNat % signPlace)

/-- The integer part of a finite number: its fractional digits are dropped. -/
def truncate (x : Binary64) : Int :=
  let n := x.significand <<< x.exponent.toNat >>> (-x.exponent).toNat
  if x.negative then -(n : Int) else n

/-- The integer part brought into a range.  An infinity is beyond every bound, and a word that
is not a number gives zero. -/
def truncateWithin (b : Decimal.Bounds) (x : Binary64) : Int :=
  if x.isNaN then 0
  else if x.isInfinite then (if x.negative then b.low else b.high)
  else b.clamp x.truncate

/-- Positive zero for either zero, and every other word itself. -/
def foldZero (x : Binary64) : Binary64 :=
  if x.isZero then zero else x

theorem equal_comm (x y : Binary64) :
  x.equal y = y.equal x
  := by
  unfold equal
  rw [Bool.and_comm (!x.isNaN), Bool.and_comm x.isZero, BEq.comm (a := x.bits)]

end Binary64

end TypedSql
