import TypedSql.Sql.Builder

/-!
# Writing in place

A tree can also be written without going through its steps: one builder passes through the
whole tree, every part adds to it what it has to add, and a query switches flags of the
builder on its way in and switches them back on its way out.  What is being written stops at
the first failure, and the builder stays as it is then.

The steps of a part know the flags in force from the context they are given; here they are
read off the builder.
-/

namespace TypedSql.Sql

/-- What is done to a builder, which may fail. -/
abbrev Writing := EStateM CompileError Builder Unit

namespace Writing

/-- The builder after a writing, and the error if there was one. -/
def runOn (w : Writing) (b : Builder) : Builder × Option CompileError :=
  match w b with
  | .ok _ b => (b, none)
  | .error e b => (b, some e)

/-- Fails. -/
def refuse (e : CompileError) : Writing :=
  throw e

/-- Writes a text. -/
def text (s : String) : Writing :=
  modify fun b => { b with text := b.text ++ s }

/-- Binds an argument to the placeholder that has been written. -/
def argument (a : BoundArg) : Writing :=
  modify fun b => { b with args := b.args.map (· ++ [a]) }

/-- Writes a text, or fails where it cannot be made. -/
def textOf : Except CompileError String → Writing
  | .ok s => text s
  | .error e => refuse e

/-- Makes a check, when the flags in force ask for it. -/
def check (c : Except CompileError Unit) : Writing := do
  if (← get).flags.validates then
    match c with
    | .ok () => pure ()
    | .error e => refuse e

/-- Writes a name. -/
def identifier (name : String) : Writing := do
  check (checkIdentifier name)
  text name

/-- Writes raw SQL. -/
def fragment (s : String) : Writing := do
  check (checkFragment s)
  text s

/-- Writes the literal of a value. -/
def inline (v : Value) : Writing := do
  textOf (literal (← get).flags.validates v)

/-- Writes the literals of values, with commas between them. -/
def inlineList : List Value → Writing
  | [] => pure ()
  | [v] => inline v
  | v :: w :: vs => do
    inline v
    text ", "
    inlineList (w :: vs)

/-- Writes a value. -/
def scalar (v : Value) : Writing := do
  if v.isNull then text "NULL"
  else
    match (← get).args with
    | some _ => do
      text "?"
      argument (.value v)
    | none => inline v

/-- Writes a collection of values. -/
def list (vs : List Value) : Writing := do
  match (← get).args with
  | some _ => do
    text "?[]"
    argument (.array vs)
  | none => if vs.isEmpty then text emptyList else inlineList vs

/-- Binds each of some values. -/
def bindEach : List Value → Writing
  | [] => pure ()
  | v :: vs => do
    argument (.value v)
    bindEach vs

/-- Writes a raw condition with the values for its placeholders. -/
def condition (s : String) (args : List Value) : Writing := do
  check (checkFragment s)
  let b ← get
  match b.args with
  | some _ =>
    let n := placeholderCount s
    if n = args.length then do
      text s
      bindEach args
    else refuse (.countMismatch .fragmentArguments n args.length)
  | none => textOf (inlineArguments b.flags.validates s args)

/-- Writes something between parentheses. -/
def enclosed (w : Writing) : Writing := do
  text "("
  w
  text ")"

/-- Writes something between parentheses when the SQL is only to be checked. -/
def enclosedForValidation (forValidation : Bool) (w : Writing) : Writing :=
  if forValidation then enclosed w else w

/-- Writes one thing after the other, with a separator between them. -/
def separated (separator : String) : List Writing → Writing
  | [] => pure ()
  | [w] => w
  | w :: v :: r => do
    w
    text separator
    separated separator (v :: r)

/-- Writes names with a separator between them. -/
def identifiers (names : List String) : Writing :=
  separated ", " (names.map identifier)

/-- Writes what the version of the engine asks for. -/
def atVersion (feature : Version) (w : Bool → Writing) : Writing := do
  w ((← get).version.atLeast feature)

/-- Writes under validation where that is asked for: unless it is in force, it is switched on
before, and off again after what does not fail. -/
def requesting (validated : Bool) (w : Writing) : Writing := do
  if validated && !(← get).flags.validates then do
    modify fun b => b.setFlags .validation
    w
    modify fun b => b.clearFlags .validation
  else w

/-- Writes the inside of a query, which is told whether the query is outermost.  For the parts
of the query it is not, until the inside is written without a failure. -/
def inside (validated : Bool) (w : Bool → Writing) : Writing := do
  let outermost := (← get).flags.contains .topLevel
  modify fun b => b.clearFlags .topLevel
  requesting validated (w outermost)
  if outermost then modify fun b => b.setFlags .topLevel

/-- Writes a table, with its alias. -/
def table (t : Table) : Writing := do
  identifier t.name
  match t.alias? with
  | none => pure ()
  | some name => do
    text " AS "
    identifier name

/-- Writes conditions that all have to hold, after a keyword. -/
def clause (forValidation : Bool) (keyword : String) (conditions : List Writing) : Writing :=
  if conditions.isEmpty then pure ()
  else do
    text keyword
    enclosedForValidation forValidation (separated " AND " conditions)

/-- Writes the conditions of an update or a deletion. -/
def filters (conditions : List Writing) : Writing :=
  if conditions.isEmpty then pure ()
  else do
    text " WHERE "
    separated " AND " conditions

/-- Writes the rows of an insertion. -/
def insertedRows (rows : List Writing) : Writing :=
  atVersion .multiRowInsert fun native =>
    if 1 < rows.length ∧ native = false then do
      text "SELECT "
      separated " UNION ALL SELECT " rows
    else do
      text "VALUES "
      separated ", " (rows.map enclosed)

/-- Writes what is inserted: the result of a query, or else rows. -/
def inserted (columns : Nat) (widths : List Nat) (rows : List Writing) :
    Option Writing → Writing
  | some query => query
  | none =>
    if rows.isEmpty then refuse (.incomplete .insertRows)
    else
      match widths.find? fun width => width != columns with
      | some width => refuse (.countMismatch .insertRow columns width)
      | none => insertedRows rows

/-- Writes a term of an ordering. -/
def orderTerm (operand : Writing) (direction : Direction) (nulls : Option NullsPlace) :
    Writing :=
  let term : Writing := do
    operand
    text (" " ++ direction.keyword)
  atVersion .nullsOrdering fun native =>
    match nulls, native with
    | none, _ => term
    | some .first, true => do
      term
      text " NULLS FIRST"
    | some .last, true => do
      term
      text " NULLS LAST"
    | some .first, false => do
      text "("
      operand
      text " IS NULL) DESC, "
      term
    | some .last, false => do
      text "("
      operand
      text " IS NULL) ASC, "
      term

/-- Writes an ordering, where it matters. -/
def ordering (matters : Bool) (terms : List Writing) : Writing :=
  if matters then
    if terms.isEmpty then pure ()
    else do
      text " ORDER BY "
      separated ", " terms
  else pure ()

/-- Writes a limit and an offset. -/
def limits : Option Writing → Option Writing → Writing
  | none, none => pure ()
  | some l, none => do
    text " LIMIT "
    l
  | none, some o => do
    text " LIMIT -1"
    text " OFFSET "
    o
  | some l, some o => do
    text " LIMIT "
    l
    text " OFFSET "
    o

/-- Writes the constraint of a join. -/
def constraint (on : Option Writing) (shared : List String) : Writing :=
  match on with
  | some c => do
    text " ON "
    c
  | none =>
    if shared.isEmpty then pure ()
    else do
      text " USING "
      enclosed (identifiers shared)

/-- Writes a select list. -/
def fields (fields : List Writing) : Writing :=
  if fields.isEmpty then text "*" else separated ", " fields

/-- Writes the source of a selection. -/
def origin : Option Writing → Writing
  | none => pure ()
  | some source => do
    text " FROM "
    source

/-- Writes a grouping. -/
def grouping (groups : List Writing) : Writing :=
  if groups.isEmpty then pure ()
  else do
    text " GROUP BY "
    separated ", " groups

/-- Writes a select core. -/
def selection (forValidation distinct : Bool) (fields : List Writing)
    (source : Option Writing) (joins : Writing) (filters groups having : List Writing) :
    Writing := do
  text (if distinct then "SELECT DISTINCT " else "SELECT ")
  Writing.fields fields
  origin source
  joins
  clause forValidation " WHERE " filters
  grouping groups
  clause forValidation " HAVING " having

/-- Writes a query in a role. -/
def inRole (role : Role) (bare : Bool) (core whole : Writing) : Writing :=
  match role with
  | .statement => whole
  | .member =>
    if bare then core
    else do
      text "SELECT * FROM "
      enclosed whole

end Writing

open Writing

mutual

/-- Writes an operand. -/
def Operand.write (forValidation : Bool) : Operand → Writing
  | .node n =>
    if n.isStatement then enclosed (n.write forValidation) else n.write forValidation
  | .list vs => list vs
  | .value v => scalar v

/-- Writes an operand, when there is one. -/
def Operand.writeOption (forValidation : Bool) : Option Operand → Option Writing
  | none => none
  | some x => some (x.write forValidation)

/-- Writes each of some operands. -/
def Operand.writeEach (forValidation : Bool) : List Operand → List Writing
  | [] => []
  | x :: xs => x.write forValidation :: Operand.writeEach forValidation xs

/-- Writes each of some rows of operands. -/
def Operand.writeRows (forValidation : Bool) : List (List Operand) → List Writing
  | [] => []
  | r :: rs =>
    separated ", " (Operand.writeEach forValidation r) :: Operand.writeRows forValidation rs

/-- Writes each of some assignments. -/
def Operand.writeAssigned (forValidation : Bool) : List (String × Operand) → List Writing
  | [] => []
  | (name, x) :: r =>
    (do
      identifier name
      text " = "
      x.write forValidation) :: Operand.writeAssigned forValidation r

/-- Writes a node. -/
def Node.write (forValidation : Bool) : Node → Writing
  | .column c => identifier c.qualifiedExpression
  | .table t => table t
  | .criterion c => c.write forValidation
  | .computed e => e.write forValidation
  | .query q => q.write .statement forValidation
  | .insert i => i.write forValidation
  | .update u => u.write forValidation
  | .delete d => d.write forValidation

/-- Writes a condition. -/
def Criterion.write (forValidation : Bool) : Criterion → Writing
  | .compare left op right => do
    left.write forValidation
    text (" " ++ op.symbol ++ " ")
    right.write forValidation
  | .nullCheck operand negated => do
    operand.write forValidation
    text (if negated then " IS NOT NULL" else " IS NULL")
  | .member operand values negated => do
    operand.write forValidation
    text (negationKeyword negated ++ " IN ")
    if values.isStatement then values.write forValidation
    else enclosed (values.write forValidation)
  | .between operand low high negated => do
    operand.write forValidation
    text (negationKeyword negated ++ " BETWEEN ")
    low.write forValidation
    text " AND "
    high.write forValidation
  | .like operand pattern escape negated => do
    operand.write forValidation
    text (negationKeyword negated ++ " LIKE ")
    pattern.write forValidation
    match escape with
    | none => pure ()
    | some c => do
      text " ESCAPE "
      scalar (.text (String.singleton c))
  | .existence query negated => do
    text (if negated then "NOT EXISTS " else "EXISTS ")
    enclosed (query.write .statement forValidation)
  | .combination op members =>
    if members.isEmpty then text op.neutral
    else
      enclosedForValidation forValidation <| enclosed <|
        separated (" " ++ op.symbol ++ " ") (Criterion.writeEach forValidation members)
  | .negation c => do
    text "NOT "
    enclosed (c.write forValidation)
  | .raw s args => enclosed (condition s args)

/-- Writes a condition, when there is one. -/
def Criterion.writeOption (forValidation : Bool) : Option Criterion → Option Writing
  | none => none
  | some c => some (c.write forValidation)

/-- Writes each of some conditions. -/
def Criterion.writeEach (forValidation : Bool) : List Criterion → List Writing
  | [] => []
  | c :: cs => c.write forValidation :: Criterion.writeEach forValidation cs

/-- Writes a computed expression. -/
def Computed.write (forValidation : Bool) : Computed → Writing
  | .call name args distinct => do
    identifier name
    text (if distinct then "(DISTINCT " else "(")
    separated ", " (Operand.writeEach forValidation args)
    text ")"
  | .countAll => text "COUNT(*)"
  | .arithmetic op left right =>
    enclosed do
      left.write forValidation
      text (" " ++ op.symbol ++ " ")
      right.write forValidation
  | .raw s => fragment s

/-- Writes an entry of a select list. -/
def SelectItem.write (forValidation : Bool) : SelectItem → Writing
  | .column c => do
    identifier c.qualifiedExpression
    match c.alias? with
    | none => pure ()
    | some name => do
      text " AS "
      identifier name
  | .computed expression name => do
    expression.write forValidation
    text " AS "
    identifier name
  | .all => text "*"
  | .allOf t => do
    identifier t.qualifiedName
    text ".*"

/-- Writes each entry of a select list. -/
def SelectItem.writeEach (forValidation : Bool) : List SelectItem → List Writing
  | [] => []
  | f :: fs => f.write forValidation :: SelectItem.writeEach forValidation fs

/-- Writes a source. -/
def Source.write (forValidation : Bool) : Source → Writing
  | .table t => table t
  | .subquery query name => do
    enclosed (query.write .statement forValidation)
    text " AS "
    identifier name

/-- Writes a source, when there is one. -/
def Source.writeOption (forValidation : Bool) : Option Source → Option Writing
  | none => none
  | some s => some (s.write forValidation)

/-- Writes a join. -/
def Join.write (forValidation : Bool) : Join → Writing
  | ⟨kind, source, on, shared⟩ => do
    text (" " ++ kind.keyword ++ " ")
    source.write forValidation
    constraint (Criterion.writeOption forValidation on) shared

/-- Writes joins. -/
def Join.writeAll (forValidation : Bool) : List Join → Writing
  | [] => pure ()
  | j :: js => do
    j.write forValidation
    Join.writeAll forValidation js

/-- Writes a term of an ordering. -/
def Order.write (forValidation : Bool) : Order → Writing
  | ⟨operand, direction, nulls⟩ => orderTerm (operand.write forValidation) direction nulls

/-- Writes each term of an ordering. -/
def Order.writeEach (forValidation : Bool) : List Order → List Writing
  | [] => []
  | o :: os => o.write forValidation :: Order.writeEach forValidation os

/-- Writes a query in a role.  The flags are switched around a whole statement only. -/
def Query.write (role : Role) (forValidation : Bool) : Query → Writing
  | ⟨fields, distinct, source, joins, filters, groups, having, orders, limit, offset,
      compounds, validated⟩ =>
    let core : Writing :=
      selection forValidation distinct (SelectItem.writeEach forValidation fields)
        (Source.writeOption forValidation source) (Join.writeAll forValidation joins)
        (Criterion.writeEach forValidation filters) (Operand.writeEach forValidation groups)
        (Criterion.writeEach forValidation having)
    let limited := limit.isSome || offset.isSome
    inRole role (compounds.isEmpty && !limited) core <|
      inside validated fun outermost => do
        core
        Query.writeCompounds forValidation compounds
        ordering (outermost || limited) (Order.writeEach forValidation orders)
        limits (Operand.writeOption forValidation limit)
          (Operand.writeOption forValidation offset)

/-- Writes a query that is a statement, when there is one. -/
def Query.writeOption (forValidation : Bool) : Option Query → Option Writing
  | none => none
  | some q => some (q.write .statement forValidation)

/-- Writes the members of a compound, each after its operator. -/
def Query.writeCompounds (forValidation : Bool) : List (Compounding × Query) → Writing
  | [] => pure ()
  | (op, q) :: r => do
    text (" " ++ op.keyword ++ " ")
    q.write .member forValidation
    Query.writeCompounds forValidation r

/-- Writes an insertion. -/
def Insert.write (forValidation : Bool) : Insert → Writing
  | ⟨table, columns, rows, select, useDefaults, conflict⟩ => do
    text ("INSERT" ++ conflict.clause ++ " INTO ")
    identifier table.name
    if useDefaults then text " DEFAULT VALUES"
    else if columns.isEmpty then refuse (.incomplete .insertColumns)
    else do
      text " "
      enclosed (identifiers columns)
      text " "
      inserted columns.length (rows.map List.length) (Operand.writeRows forValidation rows)
        (Query.writeOption forValidation select)

/-- Writes an update. -/
def Update.write (forValidation : Bool) : Update → Writing
  | ⟨table, assignments, filters, conflict⟩ =>
    if assignments.isEmpty then refuse (.incomplete .updateAssignments)
    else do
      text ("UPDATE" ++ conflict.clause ++ " ")
      identifier table.name
      text " SET "
      separated ", " (Operand.writeAssigned forValidation assignments)
      Writing.filters (Criterion.writeEach forValidation filters)

/-- Writes a deletion. -/
def Delete.write (forValidation : Bool) : Delete → Writing
  | ⟨table, filters⟩ => do
    text "DELETE FROM "
    identifier table.name
    Writing.filters (Criterion.writeEach forValidation filters)

end

end TypedSql.Sql
