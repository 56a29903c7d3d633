import TypedSql.Assoc
import TypedSql.Sql.Column

/-!
# Rows

A row maps column handles to values and keeps the handles in the order of their first
insertion.  A `RowSource` is whatever a model can be read from: it says which handles it has,
their values, and which handles it carries in which order.
-/

namespace TypedSql.Record

open Sql (Column)

/-- A row of a result. -/
structure Row where
  entries : List (Column × Value)

/-- Whatever a model can be read from.  A source may have a column without having a value for
it. -/
structure RowSource where
  has : Column → Bool
  get? : Column → Option Value
  columns : List Column

namespace Row

/-- The row without columns. -/
def empty : Row := ⟨[]⟩

/-- Adds a column, or replaces the value of a column that is there.  Handles that are the same
are one column, and the first of them is kept. -/
def put (r : Row) (c : Column) (v : Value) : Row :=
  ⟨Assoc.put c v r.entries⟩

/-- The row of a list of columns and values, put in one after the other. -/
def ofList (es : List (Column × Value)) : Row :=
  es.foldl (fun r e => r.put e.1 e.2) empty

/-- The handles, in the order of their first insertion. -/
def columns (r : Row) : List Column :=
  r.entries.map Prod.fst

/-- The value of a column. -/
def get? (r : Row) (c : Column) : Option Value :=
  Assoc.get? c r.entries

/-- Whether the row has a column. -/
def has (r : Row) (c : Column) : Bool :=
  (r.get? c).isSome

/-- The number of columns. -/
def size (r : Row) : Nat :=
  r.entries.length

/-- Whether there are no columns. -/
def isEmpty (r : Row) : Bool :=
  r.entries.isEmpty

/-- The row as a source. -/
def source (r : Row) : RowSource where
  has := r.has
  get? := r.get?
  columns := r.columns

end Row

end TypedSql.Record
