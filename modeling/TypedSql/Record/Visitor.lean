import TypedSql.Record.InPlace

/-!
# Visiting columns

A visitor does something with columns of each kind, and a column accepts it by having done what is
meant for its own kind.  Casting a value for a column is done by one visitor, and saving it in a
store by another one, which writes the scalar that the conversion to the kind gives.
-/

namespace TypedSql

/-- What is done with columns of each kind, and something else that is given. -/
structure Sql.Column.Visitor (π ρ : Type) where
  integer : Column → π → ρ
  long : Column → π → ρ
  double : Column → π → ρ
  text : Column → π → ρ
  boolean : Column → π → ρ
  blob : Column → π → ρ

/-- Has done what a visitor does with columns of this kind. -/
def Sql.Column.accept {π ρ : Type} (c : Column) (visitor : Visitor π ρ) (a : π) : ρ :=
  match c.kind with
  | .integer => visitor.integer c a
  | .long => visitor.long c a
  | .double => visitor.double c a
  | .text => visitor.text c a
  | .boolean => visitor.boolean c a
  | .blob => visitor.blob c a

namespace Record

open Sql (Column)

variable {α : Type}

/-! ### Casting -/

/-- The value of what a conversion gives: null for nothing. -/
def converted (wrap : α → Value) (r : Except CoercionError (Option α)) :
    Except CoercionError Value :=
  r.map fun a => .ofOption (a.map wrap)

/-- Casts values to the kinds of columns. -/
def castingVisitor : Column.Visitor Value (Except CoercionError Value) where
  integer _ v := converted .integer v.toInteger
  long _ v := converted .long v.toLong
  double _ v := converted .double v.toDouble
  text _ v := converted .text v.toText
  boolean _ v := converted .boolean v.toBoolean
  blob _ v := converted .blob v.toBlob

/-- Casts a value to the kind of a column, which picks the conversion. -/
def castVisited (c : Column) (v : Value) : Except CoercionError Value :=
  c.accept castingVisitor v

/-! ### Saving -/

namespace Change

/-- Puts what a conversion gives under a key: a scalar of the kind, or null for nothing. -/
def putConverted (wrap : α → Value) (key : String) (r : Except CoercionError (Option α)) :
    Change Store Unit := do
  match ← ofExcept r with
  | some a => modify fun s => s.put key (wrap a)
  | none => modify fun s => s.put key .null

/-- Saves values of columns in a store. -/
def savingVisitor (mode : KeyMode) : Column.Visitor Value (Change Store Unit) where
  integer c v := putConverted .integer (mode.key c) v.toInteger
  long c v := putConverted .long (mode.key c) v.toLong
  double c v := putConverted .double (mode.key c) v.toDouble
  text c v := putConverted .text (mode.key c) v.toText
  boolean c v := putConverted .boolean (mode.key c) v.toBoolean
  blob c v := putConverted .blob (mode.key c) v.toBlob

/-- Saves a value in a store.  Null is put for columns of any kind, and otherwise the kind of the
column picks the conversion. -/
def saveVisited (mode : KeyMode) (c : Column) (v : Value) : Change Store Unit :=
  if v.isNull then modify fun s => s.put (mode.key c) .null
  else c.accept (savingVisitor mode) v

end Change

end Record

end TypedSql
