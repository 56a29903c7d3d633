import TypedSql.Decimal.Reading
import TypedSql.Diagnostic.Report
import TypedSql.Value.Basic

/-!
# Coercion

Values written to or read from a column are cast to its kind.  Null passes every cast.
Numbers are widened or narrowed, a truth value is one or zero, and a text becomes a number
only if all of it reads as one; every value has a text; truth values are made of numbers
but not of texts; and bytes are made of nothing else.

A type whose members are the scalars of a kind is a `ColumnType`; `extract` reads a value as
such a type and refuses null, `extractOption` reads null as nothing.
-/

namespace TypedSql

/-- Why a value could not be cast. -/
inductive CoercionReason where
  /-- Values of this kind have no conversion to the target. -/
  | wrongKind
  /-- The text does not read as a number of the target kind. -/
  | unparsableText
  /-- The target has no place for null. -/
  | null
deriving DecidableEq

/-- A value that could not be cast to a kind. -/
structure CoercionError where
  value : Value
  target : Kind
  reason : CoercionReason
deriving DecidableEq

namespace CoercionError

/-- The code of a failed cast. -/
def code (e : CoercionError) : Diagnostic.Code :=
  match e.reason with
  | .unparsableText => .textNotNumeric
  | .wrongKind | .null => .castRefused

/-- The message of a failed cast. -/
def message (e : CoercionError) : String :=
  "Value " ++ e.value.display ++ " could not be cast to " ++ e.target.name

/-- The report on a failed cast. -/
def report (e : CoercionError) : Diagnostic.Report :=
  .coercion e.code e.message e.value.display e.target.name

end CoercionError

namespace Value

/-! ### Conversions

Each conversion gives nothing for null. -/

/-- The integer of thirty-two bits a value stands for.  Long integers wrap around, and
doubles are truncated into the range. -/
def toInteger (v : Value) : Except CoercionError (Option Int32) :=
  match v with
  | null => .ok none
  | integer n => .ok (some n)
  | long n => .ok (some n.toInt32)
  | double x => .ok (some (.ofInt (x.truncateWithin .signed32)))
  | boolean b => .ok (some (if b then 1 else 0))
  | text s =>
    match Decimal.integerWithin? .signed32 s.toList with
    | some n => .ok (some (.ofInt n))
    | none => .error ⟨v, .integer, .unparsableText⟩
  | blob _ => .error ⟨v, .integer, .wrongKind⟩

/-- The integer of sixty-four bits a value stands for.  Doubles are truncated into the
range. -/
def toLong (v : Value) : Except CoercionError (Option Int64) :=
  match v with
  | null => .ok none
  | integer n => .ok (some n.toInt64)
  | long n => .ok (some n)
  | double x => .ok (some (.ofInt (x.truncateWithin .signed64)))
  | boolean b => .ok (some (if b then 1 else 0))
  | text s =>
    match Decimal.integerWithin? .signed64 s.toList with
    | some n => .ok (some (.ofInt n))
    | none => .error ⟨v, .long, .unparsableText⟩
  | blob _ => .error ⟨v, .long, .wrongKind⟩

/-- The double a value stands for: the nearest one. -/
def toDouble (v : Value) : Except CoercionError (Option Binary64) :=
  match v with
  | null => .ok none
  | integer n => .ok (some (.ofInt n.toInt))
  | long n => .ok (some (.ofInt n.toInt))
  | double x => .ok (some x)
  | boolean b => .ok (some (if b then .one else .zero))
  | text s =>
    match Decimal.read? s with
    | some x => .ok (some x)
    | none => .error ⟨v, .double, .unparsableText⟩
  | blob _ => .error ⟨v, .double, .wrongKind⟩

/-- The text of a value. -/
def toText (v : Value) : Except CoercionError (Option String) :=
  .ok v.canonicalText

/-- The truth value a value stands for: numbers other than zero are true. -/
def toBoolean (v : Value) : Except CoercionError (Option Bool) :=
  match v with
  | null => .ok none
  | boolean b => .ok (some b)
  | integer n => .ok (some (n != 0))
  | long n => .ok (some (n != 0))
  | double x => .ok (some (!x.isZero))
  | text _ | blob _ => .error ⟨v, .boolean, .wrongKind⟩

/-- The bytes of a blob. -/
def toBlob (v : Value) : Except CoercionError (Option (List UInt8)) :=
  match v with
  | null => .ok none
  | blob bytes => .ok (some bytes)
  | _ => .error ⟨v, .blob, .wrongKind⟩

/-- Casts a value to a kind. -/
def cast (k : Kind) (v : Value) : Except CoercionError Value :=
  match k with
  | .integer => v.toInteger.map fun r => ofOption (r.map integer)
  | .long => v.toLong.map fun r => ofOption (r.map long)
  | .double => v.toDouble.map fun r => ofOption (r.map double)
  | .text => v.toText.map fun r => ofOption (r.map text)
  | .boolean => v.toBoolean.map fun r => ofOption (r.map boolean)
  | .blob => v.toBlob.map fun r => ofOption (r.map blob)

end Value

/-! ### Typed access -/

/-- A type whose members are the scalars of one kind. -/
class ColumnType (α : Type) where
  /-- The kind. -/
  kind : Kind
  /-- Casts a value to the kind; null gives nothing. -/
  convert : Value → Except CoercionError (Option α)
  /-- The value of a member. -/
  toValue : α → Value

instance : ColumnType Int32 := ⟨.integer, Value.toInteger, .integer⟩

instance : ColumnType Int64 := ⟨.long, Value.toLong, .long⟩

instance : ColumnType Binary64 := ⟨.double, Value.toDouble, .double⟩

instance : ColumnType String := ⟨.text, Value.toText, .text⟩

instance : ColumnType Bool := ⟨.boolean, Value.toBoolean, .boolean⟩

instance : ColumnType (List UInt8) := ⟨.blob, Value.toBlob, .blob⟩

/-- Reads a value as a member of a type, refusing null. -/
def Value.extract (α : Type) [ColumnType α] (v : Value) : Except CoercionError α :=
  match ColumnType.convert v with
  | .ok (some a) => .ok a
  | .ok none => .error ⟨v, ColumnType.kind α, .null⟩
  | .error e => .error e

/-- Reads a value as a member of a type, or null as nothing. -/
def Value.extractOption (α : Type) [ColumnType α] (v : Value) :
    Except CoercionError (Option α) :=
  if v.isNull then .ok none else (v.extract α).map some

end TypedSql
