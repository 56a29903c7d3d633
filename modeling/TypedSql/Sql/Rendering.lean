import TypedSql.Sql.Step
import TypedSql.Sql.Statement

/-!
# The steps of trees

Every node has a list of steps.  Conditions that are made of others stand between
parentheses of their own, so that they can be put anywhere; a statement inside another
node is put between parentheses too.

A query is rendered in one of two roles.  As a statement it is written whole.  As a member
of a compound it contributes its select core, and when it has compounds or limits of its own
it is wrapped in a query of its result, since members cannot be parenthesized.
-/

namespace TypedSql.Sql

/-- How a query is rendered. -/
inductive Role where
  | statement
  | member
deriving DecidableEq

namespace Table

/-- The steps of a table, with its alias. -/
def steps (ctx : Context) (t : Table) : List Step :=
  ctx.identifier t.name ++
    match t.alias? with
    | none => []
    | some name => ctx.text " AS " ++ ctx.identifier name

end Table

namespace Context

/-- The steps of conditions that all have to hold, after a keyword; there are none when there
is no condition. -/
def clause (ctx : Context) (keyword : String) (conditions : List (List Step)) : List Step :=
  if conditions.isEmpty then []
  else ctx.text keyword ++ ctx.enclosedForValidation (ctx.separated " AND " conditions)

/-- The steps of the conditions of an update or a deletion. -/
def filters (ctx : Context) (conditions : List (List Step)) : List Step :=
  if conditions.isEmpty then []
  else ctx.text " WHERE " ++ ctx.separated " AND " conditions

/-- The steps of the rows of an insertion: as lists of values, or, for engines that insert
only one row at once, as a compound of selects. -/
def insertedRows (ctx : Context) (rows : List (List Step)) : List Step :=
  if 1 < rows.length ∧ ctx.version.atLeast .multiRowInsert = false then
    ctx.text "SELECT " ++ ctx.separated " UNION ALL SELECT " rows
  else
    ctx.text "VALUES " ++ ctx.separated ", " (rows.map ctx.enclosed)

/-- The steps of what is inserted: the result of a query, or else rows, which have to be as
wide as there are columns. -/
def inserted (ctx : Context) (columns : Nat) (widths : List Nat) (rows : List (List Step)) :
    Option (List Step) → List Step
  | some query => query
  | none =>
    if rows.isEmpty then ctx.piece (.refusal (.incomplete .insertRows))
    else
      match widths.find? fun width => width != columns with
      | some width => ctx.piece (.refusal (.countMismatch .insertRow columns width))
      | none => ctx.insertedRows rows

/-- The steps of a term of an ordering.  For engines that cannot place nulls, an additional
term sorts by whether the operand is null. -/
def orderTerm (ctx : Context) (operand : List Step) (direction : Direction)
    (nulls : Option NullsPlace) : List Step :=
  let term := operand ++ ctx.text (" " ++ direction.keyword)
  match nulls, ctx.version.atLeast .nullsOrdering with
  | none, _ => term
  | some .first, true => term ++ ctx.text " NULLS FIRST"
  | some .last, true => term ++ ctx.text " NULLS LAST"
  | some .first, false => ctx.text "(" ++ operand ++ ctx.text " IS NULL) DESC, " ++ term
  | some .last, false => ctx.text "(" ++ operand ++ ctx.text " IS NULL) ASC, " ++ term

/-- The steps of an ordering, of which there are none when there is no term. -/
def ordering (ctx : Context) (terms : List (List Step)) : List Step :=
  if terms.isEmpty then [] else ctx.text " ORDER BY " ++ ctx.separated ", " terms

/-- The steps of a limit and an offset.  An offset alone stands after the limit `-1`. -/
def limits (ctx : Context) : Option (List Step) → Option (List Step) → List Step
  | none, none => []
  | some l, none => ctx.text " LIMIT " ++ l
  | none, some o => ctx.text " LIMIT -1" ++ ctx.text " OFFSET " ++ o
  | some l, some o => ctx.text " LIMIT " ++ l ++ ctx.text " OFFSET " ++ o

/-- The steps of the constraint of a join. -/
def constraint (ctx : Context) (on : Option (List Step)) (shared : List String) : List Step :=
  match on with
  | some c => ctx.text " ON " ++ c
  | none =>
    if shared.isEmpty then []
    else ctx.text " USING " ++ ctx.enclosed (ctx.identifiers shared)

/-- The steps of a select core. -/
def selection (ctx : Context) (distinct : Bool) (fields : List (List Step))
    (source : Option (List Step)) (joins : List Step)
    (filters groups having : List (List Step)) : List Step :=
  ctx.text (if distinct then "SELECT DISTINCT " else "SELECT ") ++
    (if fields.isEmpty then ctx.text "*" else ctx.separated ", " fields) ++
    (match source with
      | none => []
      | some s => ctx.text " FROM " ++ s) ++
    joins ++
    ctx.clause " WHERE " filters ++
    (if groups.isEmpty then [] else ctx.text " GROUP BY " ++ ctx.separated ", " groups) ++
    ctx.clause " HAVING " having

/-- The steps of a query in a role.  A member of a compound that is nothing but its core is
written as that. -/
def inRole (ctx : Context) (role : Role) (bare : Bool) (core whole : List Step) : List Step :=
  match role with
  | .statement => whole
  | .member =>
    if bare then core else ctx.text "SELECT * FROM " ++ ctx.enclosed whole

end Context

mutual

/-- The steps of an operand. -/
def Operand.steps (ctx : Context) : Operand → List Step
  | .node n => if n.isStatement then ctx.enclosed (n.steps ctx) else n.steps ctx
  | .list vs => ctx.piece (.list vs)
  | .value v => ctx.piece (.scalar v)

/-- The steps of an operand, when there is one. -/
def Operand.stepsOption (ctx : Context) : Option Operand → Option (List Step)
  | none => none
  | some x => some (x.steps ctx)

/-- The steps of each of some operands. -/
def Operand.stepsEach (ctx : Context) : List Operand → List (List Step)
  | [] => []
  | x :: xs => x.steps ctx :: Operand.stepsEach ctx xs

/-- The steps of each of some rows of operands. -/
def Operand.stepsRows (ctx : Context) : List (List Operand) → List (List Step)
  | [] => []
  | r :: rs => ctx.separated ", " (Operand.stepsEach ctx r) :: Operand.stepsRows ctx rs

/-- The steps of each of some assignments. -/
def Operand.stepsAssigned (ctx : Context) : List (String × Operand) → List (List Step)
  | [] => []
  | (name, x) :: r =>
    (ctx.identifier name ++ ctx.text " = " ++ x.steps ctx) :: Operand.stepsAssigned ctx r

/-- The steps of a node. -/
def Node.steps (ctx : Context) : Node → List Step
  | .column c => ctx.identifier c.qualifiedExpression
  | .table t => t.steps ctx
  | .criterion c => c.steps ctx
  | .computed e => e.steps ctx
  | .query q => q.steps .statement ctx
  | .insert i => i.steps ctx
  | .update u => u.steps ctx
  | .delete d => d.steps ctx

/-- The steps of a condition. -/
def Criterion.steps (ctx : Context) : Criterion → List Step
  | .compare left op right =>
    left.steps ctx ++ ctx.text (" " ++ op.symbol ++ " ") ++ right.steps ctx
  | .nullCheck operand negated =>
    operand.steps ctx ++ ctx.text (if negated then " IS NOT NULL" else " IS NULL")
  | .member operand values negated =>
    operand.steps ctx ++ ctx.text (negationKeyword negated ++ " IN ") ++
      if values.isStatement then values.steps ctx else ctx.enclosed (values.steps ctx)
  | .between operand low high negated =>
    operand.steps ctx ++ ctx.text (negationKeyword negated ++ " BETWEEN ") ++
      low.steps ctx ++ ctx.text " AND " ++ high.steps ctx
  | .like operand pattern escape negated =>
    operand.steps ctx ++ ctx.text (negationKeyword negated ++ " LIKE ") ++
      pattern.steps ctx ++
      match escape with
      | none => []
      | some c => ctx.text " ESCAPE " ++ ctx.piece (.scalar (.text (String.singleton c)))
  | .existence query negated =>
    ctx.text (if negated then "NOT EXISTS " else "EXISTS ") ++
      ctx.enclosed (query.steps .statement ctx)
  | .combination op members =>
    if members.isEmpty then ctx.text op.neutral
    else
      ctx.enclosedForValidation <| ctx.enclosed <|
        ctx.separated (" " ++ op.symbol ++ " ") (Criterion.stepsEach ctx members)
  | .negation c => ctx.text "NOT " ++ ctx.enclosed (c.steps ctx)
  | .raw s args => ctx.enclosed (ctx.piece (.condition s args))

/-- The steps of a condition, when there is one. -/
def Criterion.stepsOption (ctx : Context) : Option Criterion → Option (List Step)
  | none => none
  | some c => some (c.steps ctx)

/-- The steps of each of some conditions. -/
def Criterion.stepsEach (ctx : Context) : List Criterion → List (List Step)
  | [] => []
  | c :: cs => c.steps ctx :: Criterion.stepsEach ctx cs

/-- The steps of a computed expression. -/
def Computed.steps (ctx : Context) : Computed → List Step
  | .call name args distinct =>
    ctx.identifier name ++ ctx.text (if distinct then "(DISTINCT " else "(") ++
      ctx.separated ", " (Operand.stepsEach ctx args) ++ ctx.text ")"
  | .countAll => ctx.text "COUNT(*)"
  | .arithmetic op left right =>
    ctx.enclosed (left.steps ctx ++ ctx.text (" " ++ op.symbol ++ " ") ++ right.steps ctx)
  | .raw s => ctx.piece (.fragment s)

/-- The steps of an entry of a select list. -/
def SelectItem.steps (ctx : Context) : SelectItem → List Step
  | .column c =>
    ctx.identifier c.qualifiedExpression ++
      match c.alias? with
      | none => []
      | some name => ctx.text " AS " ++ ctx.identifier name
  | .computed expression name =>
    expression.steps ctx ++ ctx.text " AS " ++ ctx.identifier name
  | .all => ctx.text "*"
  | .allOf t => ctx.identifier t.qualifiedName ++ ctx.text ".*"

/-- The steps of each entry of a select list. -/
def SelectItem.stepsEach (ctx : Context) : List SelectItem → List (List Step)
  | [] => []
  | f :: fs => f.steps ctx :: SelectItem.stepsEach ctx fs

/-- The steps of a source. -/
def Source.steps (ctx : Context) : Source → List Step
  | .table t => t.steps ctx
  | .subquery query name =>
    ctx.enclosed (query.steps .statement ctx) ++ ctx.text " AS " ++ ctx.identifier name

/-- The steps of a source, when there is one. -/
def Source.stepsOption (ctx : Context) : Option Source → Option (List Step)
  | none => none
  | some s => some (s.steps ctx)

/-- The steps of a join. -/
def Join.steps (ctx : Context) : Join → List Step
  | ⟨kind, source, on, shared⟩ =>
    ctx.text (" " ++ kind.keyword ++ " ") ++ source.steps ctx ++
      ctx.constraint (Criterion.stepsOption ctx on) shared

/-- The steps of joins. -/
def Join.stepsAll (ctx : Context) : List Join → List Step
  | [] => []
  | j :: js => j.steps ctx ++ Join.stepsAll ctx js

/-- The steps of a term of an ordering. -/
def Order.steps (ctx : Context) : Order → List Step
  | ⟨operand, direction, nulls⟩ => ctx.orderTerm (operand.steps ctx) direction nulls

/-- The steps of each term of an ordering. -/
def Order.stepsEach (ctx : Context) : List Order → List (List Step)
  | [] => []
  | o :: os => o.steps ctx :: Order.stepsEach ctx os

/-- The steps of a query in a role.  The ordering is written where the query is outermost or
limited. -/
def Query.steps (role : Role) (ctx : Context) : Query → List Step
  | ⟨fields, distinct, source, joins, filters, groups, having, orders, limit, offset,
      compounds, validated⟩ =>
    let core (ctx : Context) : List Step :=
      ctx.selection distinct (SelectItem.stepsEach ctx fields) (Source.stepsOption ctx source)
        (Join.stepsAll ctx joins) (Criterion.stepsEach ctx filters)
        (Operand.stepsEach ctx groups) (Criterion.stepsEach ctx having)
    let limited := limit.isSome || offset.isSome
    let inner := ctx.inside validated
    ctx.inRole role (compounds.isEmpty && !limited) (core ctx)
      (core inner ++ Query.stepsCompounds inner compounds ++
        (if ctx.flags.contains .topLevel || limited then
          inner.ordering (Order.stepsEach inner orders) else []) ++
        inner.limits (Operand.stepsOption inner limit) (Operand.stepsOption inner offset))

/-- The steps of a query that is a statement, when there is one. -/
def Query.stepsOption (ctx : Context) : Option Query → Option (List Step)
  | none => none
  | some q => some (q.steps .statement ctx)

/-- The steps of the members of a compound, each after its operator. -/
def Query.stepsCompounds (ctx : Context) : List (Compounding × Query) → List Step
  | [] => []
  | (op, q) :: r =>
    ctx.text (" " ++ op.keyword ++ " ") ++ q.steps .member ctx ++ Query.stepsCompounds ctx r

/-- The steps of an insertion. -/
def Insert.steps (ctx : Context) : Insert → List Step
  | ⟨table, columns, rows, select, useDefaults, conflict⟩ =>
    ctx.text ("INSERT" ++ conflict.clause ++ " INTO ") ++ ctx.identifier table.name ++
      if useDefaults then ctx.text " DEFAULT VALUES"
      else if columns.isEmpty then ctx.piece (.refusal (.incomplete .insertColumns))
      else
        ctx.text " " ++ ctx.enclosed (ctx.identifiers columns) ++ ctx.text " " ++
          ctx.inserted columns.length (rows.map List.length) (Operand.stepsRows ctx rows)
            (Query.stepsOption ctx select)

/-- The steps of an update. -/
def Update.steps (ctx : Context) : Update → List Step
  | ⟨table, assignments, filters, conflict⟩ =>
    if assignments.isEmpty then ctx.piece (.refusal (.incomplete .updateAssignments))
    else
      ctx.text ("UPDATE" ++ conflict.clause ++ " ") ++ ctx.identifier table.name ++
        ctx.text " SET " ++ ctx.separated ", " (Operand.stepsAssigned ctx assignments) ++
        ctx.filters (Criterion.stepsEach ctx filters)

/-- The steps of a deletion. -/
def Delete.steps (ctx : Context) : Delete → List Step
  | ⟨table, filters⟩ =>
    ctx.text "DELETE FROM " ++ ctx.identifier table.name ++
      ctx.filters (Criterion.stepsEach ctx filters)

end

end TypedSql.Sql
