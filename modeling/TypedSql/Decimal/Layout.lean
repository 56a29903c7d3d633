import TypedSql.Decimal.Shortest

/-!
# Layouts of decimals

How a finite number is written from its shortest decimal.  Texts are positional with at
least one digit on either side of the point, or scientific with one digit before the point
and no point when that digit is the only one.  A `Layout` fixes what the two written forms
of this library do not share.
-/

namespace TypedSql.Decimal

/-- The decisions of a written form: which of two equally near decimals is written, the
scientific exponents that are written positionally (from the first up to but without the
second), and whether a positive exponent has a plus sign. -/
structure Layout where
  tie : Tie
  positionalFrom : Int
  positionalBelow : Int
  plusSign : Bool

/-- The form of SQL literals and of canonical texts: `0.0001`, `1e16`, `5e-324`. -/
def plain : Layout := ⟨.up, -4, 16, false⟩

/-- The form of JSON texts: `0.00001`, `1e+16`, `5e-324`. -/
def json : Layout := ⟨.toEven, -5, 16, true⟩

/-- The digits `ds` with `k` of them before the point, filled up with zeros. -/
def positional (ds : List Char) (k : Int) : List Char :=
  if k ≤ 0 then '0' :: '.' :: (List.replicate (-k).toNat '0' ++ ds)
  else
    let before := ds.take k.toNat ++ List.replicate (k.toNat - ds.length) '0'
    let after := ds.drop k.toNat
    before ++ '.' :: (if after.isEmpty then ['0'] else after)

/-- The digits `ds` with one of them before the point and the exponent `s`. -/
def scientific (plusSign : Bool) (ds : List Char) (s : Int) : List Char :=
  let mantissa :=
    match ds with
    | d :: e :: r => d :: '.' :: e :: r
    | ds => ds
  let sign := if s < 0 then ['-'] else if plusSign then ['+'] else []
  mantissa ++ 'e' :: (sign ++ Nat.toDigits 10 s.natAbs)

/-- A decimal in a layout. -/
def Layout.write (layout : Layout) (d : Decimal) : List Char :=
  let ds := Nat.toDigits 10 d.digits
  let k := d.exponent + ds.length
  if layout.positionalFrom < k ∧ k ≤ layout.positionalBelow then positional ds k
  else scientific layout.plusSign ds (k - 1)

/-- The text of a finite number. -/
def Layout.finite (layout : Layout) (x : Binary64) : String :=
  let body := if x.isZero then ['0', '.', '0'] else layout.write (shortest layout.tie x)
  String.ofList (if x.negative then '-' :: body else body)

/-- The text of any number, in the plain form. -/
def text (x : Binary64) : String :=
  if x.isNaN then "NaN"
  else if x.isInfinite then (if x.negative then "-inf" else "inf")
  else plain.finite x

end TypedSql.Decimal
