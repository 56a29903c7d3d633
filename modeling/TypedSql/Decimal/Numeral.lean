/-!
# Decimal numerals

Reading numerals written with the ten ASCII digits.  `digits?` reads a nonempty run of
digits, `natural?` and `integer?` allow one sign before it; nothing else is skipped or
ignored, so a numeral with a blank, a separator or a digit of another script is refused.
-/

namespace TypedSql.Decimal

/-- The bounds of a range of integers, which belong to it. -/
structure Bounds where
  low : Int
  high : Int

namespace Bounds

/-- The integers of thirty-two bits. -/
def signed32 : Bounds := ⟨-2147483648, 2147483647⟩

/-- The integers of sixty-four bits. -/
def signed64 : Bounds := ⟨-9223372036854775808, 9223372036854775807⟩

/-- The natural numbers of eight bits. -/
def unsigned8 : Bounds := ⟨0, 255⟩

/-- The natural numbers of sixteen bits. -/
def unsigned16 : Bounds := ⟨0, 65535⟩

/-- Whether an integer is in the range. -/
def contains (b : Bounds) (n : Int) : Bool :=
  decide (b.low ≤ n ∧ n ≤ b.high)

/-- The integer of the range that is nearest to a given one. -/
def clamp (b : Bounds) (n : Int) : Int :=
  max b.low (min b.high n)

end Bounds

/-- A power of ten. -/
def power (e : Nat) : Nat :=
  Nat.pow 10 e

/-- The value of an ASCII digit. -/
def digitValue (c : Char) : Nat :=
  c.toNat - 48

/-- The natural number written by a list of digits, the most significant first. -/
def value (ds : List Char) : Nat :=
  ds.foldl (fun n c => 10 * n + digitValue c) 0

/-- A nonempty text of ASCII digits, as a number. -/
def digits? (cs : List Char) : Option Nat :=
  if cs ≠ [] ∧ cs.all Char.isDigit then some (value cs) else none

/-- A text of digits after at most one plus sign. -/
def natural? : List Char → Option Nat
  | '+' :: cs => digits? cs
  | cs => digits? cs

/-- A text of digits after at most one sign. -/
def integer? : List Char → Option Int
  | '-' :: cs => (digits? cs).map fun n => -(n : Int)
  | cs => (natural? cs).map fun n => (n : Int)

/-- An integer of a range. -/
def integerWithin? (b : Bounds) (cs : List Char) : Option Int :=
  (integer? cs).filter b.contains

/-- The longest run of ASCII digits at the front, and the rest. -/
def spanDigits (cs : List Char) : List Char × List Char :=
  (cs.takeWhile Char.isDigit, cs.dropWhile Char.isDigit)

end TypedSql.Decimal
