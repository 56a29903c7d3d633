import TypedSql.Binary64.Basic
import TypedSql.Decimal.Numeral

/-!
# Reading numbers of double precision

`Decimal.read?` reads the texts of numbers: an optional sign followed by `inf`, `infinity`
or `nan` in letters of either case, or by digits with at most one point among or beside
them and at most one exponent.  The number read is the nearest one to the number written.
-/

namespace TypedSql.Decimal

/-- The parts of a numeral that matter to its value: all its digits, how many of them
follow the point, and its exponent. -/
structure Numeral where
  digits : List Char
  places : Nat
  exponent : Int

/-- Reads the exponent that may end a numeral. -/
def exponent? : List Char → Option Int
  | [] => some 0
  | c :: cs => if c = 'e' ∨ c = 'E' then integer? cs else none

/-- Reads a numeral without its sign. -/
def numeral? (cs : List Char) : Option Numeral :=
  let whole := spanDigits cs
  let fraction :=
    match whole.2 with
    | '.' :: r => spanDigits r
    | r => ([], r)
  if whole.1.isEmpty && fraction.1.isEmpty then none
  else (exponent? fraction.2).map fun e => ⟨whole.1 ++ fraction.1, fraction.1.length, e⟩

/-- The number nearest to `± digits · 10 ^ e`.

Magnitudes of at least `10 ^ 310` are infinite and those below `10 ^ (-330)` are zero, so
the powers of ten that are formed stay small. -/
def nearest (negative : Bool) (digits : Nat) (e : Int) : Binary64 :=
  let width : Int := (Nat.toDigits 10 digits).length
  if digits = 0 then .ofMagnitude negative 0
  else if 310 < e + width then .infinity negative
  else if e + width < -330 then .ofMagnitude negative 0
  else .ofRatio negative (digits * power e.toNat) (power (-e).toNat)

/-- Reads a number without its sign. -/
def unsigned? (negative : Bool) (cs : List Char) : Option Binary64 :=
  let word := String.ofList (cs.map Char.toLower)
  if word = "inf" ∨ word = "infinity" then some (.infinity negative)
  else if word = "nan" then some (.nan negative)
  else (numeral? cs).map fun n =>
    nearest negative (value n.digits) (n.exponent - n.places)

/-- Reads the text of a number. -/
def read? (s : String) : Option Binary64 :=
  match s.toList with
  | '-' :: cs => unsigned? true cs
  | '+' :: cs => unsigned? false cs
  | cs => unsigned? false cs

end TypedSql.Decimal
