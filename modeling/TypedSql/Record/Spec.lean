import TypedSql.Journal.Entry
import TypedSql.Record.Saving

/-!
# Row types

A `Spec` describes the rows of a model: the name of the model, its table, its columns, and the
defaults to which every row falls back.  The defaults can be overridden; a row sees the
defaults that are in force when it is asked.
-/

namespace TypedSql.Record

open Sql (Column Table TableId)

/-- A type of row. -/
structure Spec where
  name : String
  table : Table
  columns : List Column
  defaults : Store

/-- A column to be declared: its kind, its name, and its default if it has one. -/
structure ColumnDecl where
  kind : Kind
  name : String
  default : Option Value

namespace Spec

/-- The identity of the table of the row type. -/
def owner (s : Spec) : TableId :=
  s.table.id

/-- Saves the defaults of declared columns, from the first on. -/
def saveDefaults (t : Table) : List ColumnDecl → Store → Except CoercionError Store
  | [], s => .ok s
  | d :: ds, s =>
    match d.default with
    | none => saveDefaults t ds s
    | some v =>
      match save .native (t.column d.kind d.name) v s with
      | .ok s => saveDefaults t ds s
      | .error e => .error e

/-- The row type of a model with the given columns.  It fails when a default does not cast to
the kind of its column. -/
def build (name table : String) (decls : List ColumnDecl) : Except CoercionError Spec :=
  let t : Table := { model := name, name := table }
  (saveDefaults t decls .empty).map fun defaults =>
    ⟨name, t, decls.map fun d => t.column d.kind d.name, defaults⟩

/-- The handle on the column of a given name. -/
def column? (s : Spec) (name : String) : Option Column :=
  s.columns.find? fun c => c.expression == name

/-- The default under a key. -/
def default? (s : Spec) (key : String) : Option Value :=
  s.defaults.get? key

/-- Overrides the default of a column. -/
def overrideDefault (s : Spec) (c : Column) (v : Value) : Except CoercionError Spec :=
  (save .native c v s.defaults).map fun defaults => { s with defaults := defaults }

/-- Removes the default of a column. -/
def clearDefault (s : Spec) (c : Column) : Spec :=
  { s with defaults := s.defaults.remove c.expression }

/-- What overriding a default tells about itself. -/
def overrideJournal (s : Spec) (c : Column) (v : Value) : List Journal.Entry :=
  [⟨.debug, "overriding default of " ++ s.name ++ "." ++ c.expression ++ " with " ++
    v.display⟩]

/-- What removing a default tells about itself. -/
def clearJournal (s : Spec) (c : Column) : List Journal.Entry :=
  [⟨.debug, "clearing default of " ++ s.name ++ "." ++ c.expression⟩]

end Spec

end TypedSql.Record
