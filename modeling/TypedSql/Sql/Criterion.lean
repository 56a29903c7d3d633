import TypedSql.Sql.Tree

/-!
# Building conditions and expressions

Conditions are joined and negated without nesting more than the result needs, and column
handles are compared with operands.  A comparison with null by equality is a null check.
-/

namespace TypedSql.Sql

namespace Criterion

/-- Joins two conditions by a connective.  A condition on the left that is joined by the same
one is extended. -/
def join (op : Connective) (c d : Criterion) : Criterion :=
  match c with
  | combination op' members =>
    if op' = op then combination op (members ++ [d]) else combination op [c, d]
  | c => combination op [c, d]

/-- The condition that both `c` and `d` hold. -/
def and (c d : Criterion) : Criterion :=
  join .and c d

/-- The condition that `c` or `d` holds. -/
def or (c d : Criterion) : Criterion :=
  join .or c d

/-- The condition that all of the given ones hold. -/
def all (cs : List Criterion) : Criterion :=
  combination .and cs

/-- The condition that one of the given ones holds. -/
def any (cs : List Criterion) : Criterion :=
  combination .or cs

/-- The opposite condition, by the negated form of the operator where there is one. -/
def negate : Criterion → Criterion
  | nullCheck operand negated => nullCheck operand !negated
  | member operand values negated => member operand values !negated
  | between operand low high negated => between operand low high !negated
  | like operand pattern escape negated => like operand pattern escape !negated
  | existence query negated => existence query !negated
  | negation c => c
  | c => negation c

end Criterion

namespace Column

/-- The handle as an operand. -/
def operand (c : Column) : Operand :=
  .node (.column c)

/-- The comparison of the column with an operand. -/
def compareWith (c : Column) (op : Comparison) (x : Operand) : Criterion :=
  .compare c.operand op x

/-- The condition that the column is null. -/
def isNull (c : Column) : Criterion :=
  .nullCheck c.operand false

/-- The condition that the column is not null. -/
def isNotNull (c : Column) : Criterion :=
  .nullCheck c.operand true

/-- The condition that the column equals an operand, or is null when that is null. -/
def eq (c : Column) (x : Operand) : Criterion :=
  if x.isNull then c.isNull else c.compareWith .equal x

/-- The condition that the column differs from an operand, or is not null when that is
null. -/
def ne (c : Column) (x : Operand) : Criterion :=
  if x.isNull then c.isNotNull else c.compareWith .notEqual x

/-- The condition that the column is one of the given values. -/
def inValues (c : Column) (vs : List Value) (negated : Bool) : Criterion :=
  .member c.operand (.list vs) negated

/-- The condition that the column is in the result of a query. -/
def inQuery (c : Column) (q : Query) (negated : Bool) : Criterion :=
  .member c.operand (.node (.query q)) negated

/-- The condition that the column lies between two operands. -/
def between (c : Column) (low high : Operand) : Criterion :=
  .between c.operand low high false

/-- The condition that the column matches a pattern. -/
def like (c : Column) (pattern : Operand) (escape : Option Char) (negated : Bool) :
    Criterion :=
  .like c.operand pattern escape negated

/-- The ordering by the column in a direction. -/
def order (c : Column) (direction : Direction) : Order :=
  ⟨c.operand, direction, none⟩

end Column

namespace Computed

/-- A call of the named function. -/
def function (name : String) (args : List Operand) : Computed :=
  call name args false

/-- The call of a function on distinct arguments only; other expressions are unchanged. -/
def onDistinct : Computed → Computed
  | call name args _ => call name args true
  | e => e

/-- The number of values of an operand. -/
def count (x : Operand) : Computed := function "COUNT" [x]

/-- The number of distinct values of an operand. -/
def countDistinct (x : Operand) : Computed := (count x).onDistinct

/-- The greatest value of an operand. -/
def max (x : Operand) : Computed := function "MAX" [x]

/-- The least value of an operand. -/
def min (x : Operand) : Computed := function "MIN" [x]

/-- The sum of the values of an operand. -/
def sum (x : Operand) : Computed := function "SUM" [x]

/-- The average of the values of an operand. -/
def avg (x : Operand) : Computed := function "AVG" [x]

/-- A text in capitals. -/
def upper (x : Operand) : Computed := function "UPPER" [x]

/-- A text in small letters. -/
def lower (x : Operand) : Computed := function "LOWER" [x]

/-- The length of a text. -/
def length (x : Operand) : Computed := function "LENGTH" [x]

/-- The absolute value of a number. -/
def abs (x : Operand) : Computed := function "ABS" [x]

/-- The first of some operands that is not null. -/
def coalesce (xs : List Operand) : Computed := function "COALESCE" xs

/-- An operand, or another when it is null. -/
def ifNull (x y : Operand) : Computed := function "IFNULL" [x, y]

end Computed

end TypedSql.Sql
