import TypedSql.Assoc
import TypedSql.Sql.Criterion
import TypedSql.Value.Store

/-!
# Building statements

Queries, insertions, updates and deletions are built up clause by clause.
-/

namespace TypedSql.Sql

namespace Join

/-- A join without a constraint. -/
def plain (kind : JoinKind) (source : Source) : Join :=
  ⟨kind, source, none, []⟩

/-- Adds a condition to those the source is joined on. -/
def onCondition (j : Join) (c : Criterion) : Join :=
  { j with on := some (match j.on with
    | some d => d.and c
    | none => c) }

/-- Joins on columns of the same name. -/
def sharing (j : Join) (cs : List Column) : Join :=
  { j with shared := j.shared ++ cs.map Column.expression }

end Join

namespace Order

/-- The ordering by an operand in a direction. -/
def of (x : Operand) (direction : Direction) : Order :=
  ⟨x, direction, none⟩

/-- The same ordering with nulls in the given place. -/
def withNulls (o : Order) (place : NullsPlace) : Order :=
  { o with nulls := some place }

end Order

namespace Query

/-- The query of a list of items, without other clauses. -/
def select (fields : List SelectItem) : Query where
  fields := fields
  distinct := false
  source := none
  joins := []
  filters := []
  groups := []
  having := []
  orders := []
  limit := none
  offset := none
  compounds := []
  validated := false

/-- The query of the distinct rows of a list of items. -/
def selectDistinct (fields : List SelectItem) : Query :=
  { select fields with distinct := true }

/-- The query of all columns. -/
def selectAll : Query :=
  select [.all]

/-- Adds an item to the select list. -/
def field (q : Query) (f : SelectItem) : Query :=
  { q with fields := q.fields ++ [f] }

/-- Selects from a source. -/
def selectFrom (q : Query) (s : Source) : Query :=
  { q with source := some s }

/-- Adds a join. -/
def join (q : Query) (j : Join) : Query :=
  { q with joins := q.joins ++ [j] }

/-- Adds a condition on rows. -/
def filter (q : Query) (c : Criterion) : Query :=
  { q with filters := q.filters ++ [c] }

/-- Adds a term of the grouping. -/
def groupBy (q : Query) (x : Operand) : Query :=
  { q with groups := q.groups ++ [x] }

/-- Adds a condition on groups. -/
def filterGroups (q : Query) (c : Criterion) : Query :=
  { q with having := q.having ++ [c] }

/-- Adds a term of the ordering. -/
def orderBy (q : Query) (o : Order) : Query :=
  { q with orders := q.orders ++ [o] }

/-- Limits the number of rows. -/
def limitTo (q : Query) (x : Operand) : Query :=
  { q with limit := some x }

/-- Skips a number of rows. -/
def skip (q : Query) (x : Operand) : Query :=
  { q with offset := some x }

/-- Adds a member to the compound. -/
def compound (q : Query) (op : Compounding) (r : Query) : Query :=
  { q with compounds := q.compounds ++ [(op, r)] }

/-- Asks for the raw fragments, identifiers and literals of the query to be checked. -/
def requestValidation (q : Query) : Query :=
  { q with validated := true }

end Query

namespace Insert

/-- An insertion into a table, without columns or rows. -/
def into (t : Table) : Insert :=
  ⟨t, [], [], none, false, .unspecified⟩

/-- The insertion of one row that holds every entry of a store. -/
def ofStore (t : Table) (s : Store) : Insert :=
  { into t with
    columns := s.keys
    rows := [s.entries.map fun e => .value e.2] }

/-- Adds columns. -/
def columnsOf (i : Insert) (cs : List Column) : Insert :=
  { i with columns := i.columns ++ cs.map Column.expression }

/-- Adds a row. -/
def row (i : Insert) (r : List Operand) : Insert :=
  { i with rows := i.rows ++ [r] }

/-- Inserts the result of a query. -/
def fromQuery (i : Insert) (q : Query) : Insert :=
  { i with select := some q }

/-- Inserts a row of default values. -/
def defaults (i : Insert) : Insert :=
  { i with useDefaults := true }

/-- Resolves conflicts in the given way. -/
def onConflict (i : Insert) (c : Conflict) : Insert :=
  { i with conflict := c }

end Insert

namespace Update

/-- An update of a table that assigns nothing. -/
def of (t : Table) : Update :=
  ⟨t, [], [], .unspecified⟩

/-- An update of a table that assigns every entry of a store. -/
def ofStore (t : Table) (s : Store) : Update :=
  { of t with assignments := s.entries.map fun e => (e.1, .value e.2) }

/-- Assigns an operand to a column.  An earlier assignment to it is replaced in its place. -/
def set (u : Update) (c : Column) (x : Operand) : Update :=
  { u with assignments := Assoc.put c.expression x u.assignments }

/-- Adds a condition on rows. -/
def filter (u : Update) (c : Criterion) : Update :=
  { u with filters := u.filters ++ [c] }

/-- Resolves conflicts in the given way. -/
def onConflict (u : Update) (c : Conflict) : Update :=
  { u with conflict := c }

end Update

namespace Delete

/-- A deletion of all rows of a table. -/
def of (t : Table) : Delete :=
  ⟨t, []⟩

/-- Adds a condition on rows. -/
def filter (d : Delete) (c : Criterion) : Delete :=
  { d with filters := d.filters ++ [c] }

end Delete

end TypedSql.Sql
