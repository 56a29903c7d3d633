import TypedSql.Sql.Column
import TypedSql.Value.Coercion
import TypedSql.Value.Store

/-!
# Saving values of columns

A value is cast to the kind of its column when it is put into a store.  The keys of columns of
a model's own table are their expressions; columns of other tables are stored under their
names in results.
-/

namespace TypedSql

/-- The value of a column, cast to the kind of the column. -/
def Sql.Column.cast (c : Sql.Column) (v : Value) : Except CoercionError Value :=
  v.cast c.kind

namespace Record

open Sql (Column)

/-- Which key a value is saved under. -/
inductive KeyMode where
  /-- The expression of the column. -/
  | native
  /-- The name of the column in results. -/
  | foreign
deriving DecidableEq

/-- The key of a column. -/
def KeyMode.key (mode : KeyMode) (c : Column) : String :=
  match mode with
  | .native => c.expression
  | .foreign => c.selectName

/-- Puts a value, cast to the kind of its column, into a store.  Null is put as it is. -/
def save (mode : KeyMode) (c : Column) (v : Value) (s : Store) :
    Except CoercionError Store :=
  if v.isNull then .ok (s.put (mode.key c) .null)
  else (c.cast v).map fun w => s.put (mode.key c) w

end Record

end TypedSql
