import TypedSql.Decimal.Layout
import TypedSql.Value.Kind

/-!
# Values

A value is null or a scalar of one of the six kinds.  `agrees` compares values as the
library does throughout: only values of one kind agree, and doubles agree as numbers do, so
that it is neither coarser nor finer than identity.  Values that agree have one `fingerprint`,
the list of atoms from which hashes are made.
-/

namespace TypedSql

/-- The value of a column. -/
inductive Value where
  | null
  | integer (n : Int32)
  | long (n : Int64)
  | double (x : Binary64)
  | text (s : String)
  | boolean (b : Bool)
  | blob (bytes : List UInt8)
deriving DecidableEq

/-- The two lowercase hexadecimal digits of each byte. -/
def hexadecimal (bytes : List UInt8) : String :=
  String.ofList (bytes.flatMap fun b =>
    [Nat.digitChar (b.toNat / 16), Nat.digitChar (b.toNat % 16)])

/-- What a hash is fed with. -/
inductive Atom where
  | number (n : Nat)
  | text (s : String)
  | bytes (bs : List UInt8)
deriving DecidableEq

namespace Value

/-- Whether a value is null. -/
def isNull : Value → Bool
  | null => true
  | _ => false

/-- The kind of a value; null has none. -/
def kind? : Value → Option Kind
  | null => none
  | integer _ => some .integer
  | long _ => some .long
  | double _ => some .double
  | text _ => some .text
  | boolean _ => some .boolean
  | blob _ => some .blob

/-- Null for nothing, and otherwise the given value. -/
def ofOption : Option Value → Value
  | none => null
  | some v => v

/-! ### Parts -/

/-- The integer a value is. -/
def asInteger : Value → Option Int32
  | integer n => some n
  | _ => none

/-- The long integer a value is. -/
def asLong : Value → Option Int64
  | long n => some n
  | _ => none

/-- The double a value is. -/
def asDouble : Value → Option Binary64
  | double x => some x
  | _ => none

/-- The text a value is. -/
def asText : Value → Option String
  | text s => some s
  | _ => none

/-- The truth value a value is. -/
def asBoolean : Value → Option Bool
  | boolean b => some b
  | _ => none

/-- The bytes a value is. -/
def asBlob : Value → Option (List UInt8)
  | blob bytes => some bytes
  | _ => none

/-! ### Texts -/

/-- The text that a value becomes in a text column; null has none. -/
def canonicalText : Value → Option String
  | null => none
  | integer n => some (toString n.toInt)
  | long n => some (toString n.toInt)
  | double x => some (Decimal.text x)
  | text s => some s
  | boolean b => some (if b then "true" else "false")
  | blob bytes => some (hexadecimal bytes)

/-- The text by which messages refer to a value. -/
def display : Value → String
  | null => "null"
  | integer n => toString n.toInt
  | long n => toString n.toInt ++ "L"
  | double x => Decimal.text x
  | text s => "'" ++ s ++ "'"
  | boolean b => if b then "true" else "false"
  | blob bytes => "X'" ++ hexadecimal bytes ++ "'"

/-! ### Comparison -/

/-- Whether two values are of one kind and equal there. -/
def agrees : Value → Value → Bool
  | null, null => true
  | integer m, integer n => m == n
  | long m, long n => m == n
  | double x, double y => x.equal y
  | text s, text t => s == t
  | boolean b, boolean c => b == c
  | blob bs, blob cs => bs == cs
  | _, _ => false

/-- The atoms of which the hash of a value is made.  The two zeros have the same. -/
def fingerprint : Value → List Atom
  | null => [.number 0]
  | integer n => [.number 1, .number n.toUInt32.toNat]
  | long n => [.number 2, .number n.toUInt64.toNat]
  | double x => [.number 3, .number x.foldZero.bits.toNat]
  | text s => [.number 4, .text s]
  | boolean b => [.number 5, .number b.toNat]
  | blob bytes => [.number 6, .bytes bytes]

end Value

end TypedSql
