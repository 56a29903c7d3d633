import TypedSql.Record.Row

/-!
# Rows in two lists

A row can also be kept in two lists, its columns and their values, which belong together index by
index.  A column is searched for among the columns, and its value is at the same index.

Nothing about the lists alone keeps them in step.  Where the index of a column is out of the range
of the values, the value can be neither replaced nor looked up.
-/

namespace TypedSql.Record

open Sql (Column)

/-- Columns, and values for them index by index. -/
structure SplitRow where
  columns : List Column
  values : List Value

/-- Replaces what is at an index, if that is in range. -/
def replaceAt? {α : Type} (xs : List α) (i : Nat) (a : α) : Option (List α) :=
  if i < xs.length then some (xs.set i a) else none

namespace SplitRow

/-- The row without columns. -/
def empty : SplitRow := ⟨[], []⟩

/-- The index of a column: the first at which there is a handle that is the same. -/
def index? (r : SplitRow) (c : Column) : Option Nat :=
  r.columns.findIdx? (· == c)

/-- Adds a column, or replaces the value of a column that is there. -/
def put (r : SplitRow) (c : Column) (v : Value) : Option SplitRow :=
  match r.index? c with
  | some i => do
    let vs ← replaceAt? r.values i v
    return { r with values := vs }
  | none => some ⟨r.columns ++ [c], r.values ++ [v]⟩

/-- Puts columns and values in, one after the other. -/
def putEach (r : SplitRow) (es : List (Column × Value)) : Option SplitRow :=
  es.foldlM (fun r e => r.put e.1 e.2) r

/-- The value of a column, where the row has that column. -/
def get (r : SplitRow) (c : Column) : Option (Option Value) :=
  match r.index? c with
  | some i => do
    let v ← r.values[i]?
    return some v
  | none => some none

/-- Whether the row has a column. -/
def has (r : SplitRow) (c : Column) : Bool :=
  (r.index? c).isSome

end SplitRow

end TypedSql.Record
