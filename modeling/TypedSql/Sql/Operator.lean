/-!
# Operators and keywords

The closed sets of operators and keywords of SQL that the library writes.
-/

namespace TypedSql.Sql

/-- The operators between the two sides of a comparison. -/
inductive Comparison where
  | equal
  | notEqual
  | less
  | lessEqual
  | greater
  | greaterEqual
  | is
  | isNot
  | glob
deriving DecidableEq

/-- The symbol of a comparison. -/
def Comparison.symbol : Comparison → String
  | equal => "="
  | notEqual => "<>"
  | less => "<"
  | lessEqual => "<="
  | greater => ">"
  | greaterEqual => ">="
  | is => "IS"
  | isNot => "IS NOT"
  | glob => "GLOB"

/-- The comparison of a given symbol. -/
def Comparison.ofSymbol? (s : String) : Option Comparison :=
  [equal, notEqual, less, lessEqual, greater, greaterEqual, is, isNot, glob].find?
    fun op => op.symbol == s

/-- The operators of arithmetic, and the concatenation of texts. -/
inductive Arithmetic where
  | add
  | subtract
  | multiply
  | divide
  | modulo
  | concat
deriving DecidableEq

/-- The symbol of an arithmetical operator. -/
def Arithmetic.symbol : Arithmetic → String
  | add => "+"
  | subtract => "-"
  | multiply => "*"
  | divide => "/"
  | modulo => "%"
  | concat => "||"

/-- The arithmetical operator of a given symbol. -/
def Arithmetic.ofSymbol? (s : String) : Option Arithmetic :=
  [add, subtract, multiply, divide, modulo, concat].find? fun op => op.symbol == s

/-- The logical connectives of any number of conditions. -/
inductive Connective where
  | and
  | or
deriving DecidableEq

/-- The keyword of a connective. -/
def Connective.symbol : Connective → String
  | and => "AND"
  | or => "OR"

/-- The literal for a connective of no conditions. -/
def Connective.neutral : Connective → String
  | and => "1"
  | or => "0"

/-- The kinds of join. -/
inductive JoinKind where
  | inner
  | left
  | cross
deriving DecidableEq

/-- The keyword of a join. -/
def JoinKind.keyword : JoinKind → String
  | inner => "INNER JOIN"
  | left => "LEFT JOIN"
  | cross => "CROSS JOIN"

/-- The operators between the members of a compound query. -/
inductive Compounding where
  | union
  | unionAll
  | intersect
  | except
deriving DecidableEq

/-- The keyword of a compounding operator. -/
def Compounding.keyword : Compounding → String
  | union => "UNION"
  | unionAll => "UNION ALL"
  | intersect => "INTERSECT"
  | except => "EXCEPT"

/-- The directions of an ordering. -/
inductive Direction where
  | ascending
  | descending
deriving DecidableEq

/-- The keyword of a direction. -/
def Direction.keyword : Direction → String
  | ascending => "ASC"
  | descending => "DESC"

/-- Where nulls are placed in an ordering. -/
inductive NullsPlace where
  | first
  | last
deriving DecidableEq

/-- What is done when an inserted or updated row conflicts with another. -/
inductive Conflict where
  | unspecified
  | rollback
  | abort
  | fail
  | ignore
  | replace
deriving DecidableEq

/-- The clause after the verb of a statement that resolves conflicts. -/
def Conflict.clause : Conflict → String
  | unspecified => ""
  | rollback => " OR ROLLBACK"
  | abort => " OR ABORT"
  | fail => " OR FAIL"
  | ignore => " OR IGNORE"
  | replace => " OR REPLACE"

/-- The keyword between an operand and the operator that may be negated. -/
def negationKeyword (negated : Bool) : String :=
  if negated then " NOT" else ""

end TypedSql.Sql
