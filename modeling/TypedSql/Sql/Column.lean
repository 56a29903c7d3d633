import TypedSql.Value.Basic

/-!
# Tables and column handles

A table belongs to a model and may be known under an alias.  A `Column` is a typed handle on
a column of a table, or on an expression that no table owns, and may have an alias of its
own.  The kind of a handle says how values are cast; two handles are the same whenever they
name the same expression of the same table under the same alias.
-/

namespace TypedSql.Sql

/-- The identity of a model bound to a table, or to an alias of one. -/
structure TableId where
  model : String
  table : String
deriving DecidableEq

/-- The shown form of a table identity. -/
def TableId.display (t : TableId) : String :=
  t.model ++ "(" ++ t.table ++ ")"

/-- A table behind a model, possibly under an alias. -/
structure Table where
  model : String
  name : String
  alias? : Option String := none
deriving DecidableEq

/-- A typed handle on a column. -/
structure Column where
  kind : Kind
  table : Option TableId
  expression : String
  alias? : Option String := none
deriving DecidableEq

namespace Column

/-- What a handle names: two handles with one identity are the same. -/
def identity (c : Column) : Option TableId × String × Option String :=
  (c.table, c.expression, c.alias?)

/-- Handles are compared by what they name, whatever their kinds. -/
instance : BEq Column where
  beq c d := c.identity == d.identity

instance : EquivBEq Column where
  rfl {c} := beq_self_eq_true c.identity
  symm {c d} h := (BEq.symm h : (d.identity == c.identity) = true)
  trans {c d e} h h' := (BEq.trans (b := d.identity) h h' : (c.identity == e.identity) = true)

theorem beq_iff {c d : Column} :
  (c == d) = true ↔ c.table = d.table ∧ c.expression = d.expression ∧ c.alias? = d.alias?
  := by
  change (c.identity == d.identity) = true ↔ _
  rw [beq_iff_eq, identity, identity, Prod.mk.injEq, Prod.mk.injEq]

/-- The expression, qualified by its table where it has one. -/
def qualifiedExpression (c : Column) : String :=
  match c.table with
  | some t => t.table ++ "." ++ c.expression
  | none => c.expression

/-- The name of the column in a result: the alias, or else the qualified expression. -/
def selectName (c : Column) : String :=
  c.alias?.getD c.qualifiedExpression

/-- Whether a table owns the handle. -/
def belongsTo (c : Column) (owner : TableId) : Bool :=
  c.table == some owner

/-- The key under which a model of the table `owner` stores the value of the column.  A
column of another table is stored under its name in results, which is qualified, so that
it does not meet a column of the model. -/
def storageKey (c : Column) (owner : TableId) : String :=
  if c.belongsTo owner then c.expression else c.selectName

/-- The same column under an alias in results. -/
def withAlias (c : Column) (name : String) : Column :=
  { c with alias? := some name }

/-- The same column, owned by another table. -/
def withTable (c : Column) (t : TableId) : Column :=
  { c with table := some t }

/-- The atoms of which the hash of a handle is made. -/
def fingerprint (c : Column) : List Atom :=
  let option {α : Type} (f : α → List Atom) : Option α → List Atom
    | none => [.number 0]
    | some a => .number 1 :: f a
  option (fun t : TableId => [.text t.model, .text t.table]) c.table ++
    .text c.expression :: option (fun s => [.text s]) c.alias?

end Column

namespace Table

/-- The name that qualifies the columns of the table: the alias, or else the name. -/
def qualifiedName (t : Table) : String :=
  t.alias?.getD t.name

/-- The identity of the model bound to the table under its present alias. -/
def id (t : Table) : TableId :=
  ⟨t.model, t.qualifiedName⟩

/-- The same table under an alias. -/
def withAlias (t : Table) (name : String) : Table :=
  { t with alias? := some name }

/-- The handle on a column of the table. -/
def column (t : Table) (kind : Kind) (expression : String) : Column :=
  { kind := kind, table := some t.id, expression := expression }

/-- The handle on the column of this table that `c` is of another one. -/
def qualify (t : Table) (c : Column) : Column :=
  c.withTable t.id

end Table

end TypedSql.Sql
