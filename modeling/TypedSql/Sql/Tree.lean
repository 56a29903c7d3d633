import TypedSql.Sql.Column
import TypedSql.Sql.Operator

/-!
# Statement trees

The trees that are compiled to SQL.  An operand is a value, a list of values or a node; a
node is a handle, a condition, a computed expression or a whole statement, so that
statements can be nested in one another to any depth.
-/

namespace TypedSql.Sql

mutual

/-- What can stand where an expression is expected. -/
inductive Operand where
  /-- A node; a statement is put between parentheses. -/
  | node (n : Node)
  /-- A collection of values. -/
  | list (vs : List Value)
  /-- A single value. -/
  | value (v : Value)

/-- Whatever can be compiled. -/
inductive Node where
  | column (c : Column)
  | table (t : Table)
  | criterion (c : Criterion)
  | computed (e : Computed)
  | query (q : Query)
  | insert (i : Insert)
  | update (u : Update)
  | delete (d : Delete)

/-- A condition. -/
inductive Criterion where
  | compare (left : Operand) (op : Comparison) (right : Operand)
  | nullCheck (operand : Operand) (negated : Bool)
  | member (operand values : Operand) (negated : Bool)
  | between (operand low high : Operand) (negated : Bool)
  | like (operand pattern : Operand) (escape : Option Char) (negated : Bool)
  | existence (query : Query) (negated : Bool)
  /-- A connective of any number of conditions. -/
  | combination (op : Connective) (members : List Criterion)
  | negation (c : Criterion)
  /-- A text with a placeholder for each of the values. -/
  | raw (text : String) (args : List Value)

/-- A computed expression. -/
inductive Computed where
  | call (name : String) (args : List Operand) (distinct : Bool)
  | countAll
  | arithmetic (op : Arithmetic) (left right : Operand)
  | raw (text : String)

/-- An entry of a select list. -/
inductive SelectItem where
  | column (c : Column)
  | computed (expression : Operand) (name : String)
  | all
  | allOf (t : Table)

/-- What rows are selected from. -/
inductive Source where
  | table (t : Table)
  | subquery (query : Query) (name : String)

/-- A joined source, with the condition it is joined on, or else the columns it shares. -/
structure Join where
  kind : JoinKind
  source : Source
  on : Option Criterion
  shared : List String

/-- A term of an ordering. -/
structure Order where
  operand : Operand
  direction : Direction
  nulls : Option NullsPlace

/-- A query.  Its ordering matters only where it is outermost or limited. -/
structure Query where
  fields : List SelectItem
  distinct : Bool
  source : Option Source
  joins : List Join
  filters : List Criterion
  groups : List Operand
  having : List Criterion
  orders : List Order
  limit : Option Operand
  offset : Option Operand
  compounds : List (Compounding × Query)
  validated : Bool

/-- An insertion of rows, of the result of a query, or of default values. -/
structure Insert where
  table : Table
  columns : List String
  rows : List (List Operand)
  select : Option Query
  useDefaults : Bool
  conflict : Conflict

/-- An update of the rows that meet all conditions. -/
structure Update where
  table : Table
  assignments : List (String × Operand)
  filters : List Criterion
  conflict : Conflict

/-- A deletion of the rows that meet all conditions. -/
structure Delete where
  table : Table
  filters : List Criterion

end

/-- Whether an operand is the value null. -/
def Operand.isNull : Operand → Bool
  | .value .null => true
  | _ => false

/-- Whether a node is a whole statement. -/
def Node.isStatement : Node → Bool
  | .query _ | .insert _ | .update _ | .delete _ => true
  | .column _ | .table _ | .criterion _ | .computed _ => false

/-- Whether an operand is a whole statement, which brings its own parentheses. -/
def Operand.isStatement : Operand → Bool
  | .node n => n.isStatement
  | .list _ | .value _ => false

/-- Whether a query has a limit or an offset. -/
def Query.isLimited (q : Query) : Bool :=
  q.limit.isSome || q.offset.isSome

end TypedSql.Sql
