import TypedSql.Sql.Fragment
import TypedSql.Sql.Flags
import TypedSql.Sql.Version

/-!
# Steps

Compiling a tree goes through an intermediate form, the list of its steps.  A step is a piece
of SQL together with the flags in force where it is written.  The steps do not depend on
whether values are bound or written as literals; that is decided when they are written out.
-/

namespace TypedSql.Sql

/-- A piece of SQL. -/
inductive Piece where
  /-- Text of the compiler itself. -/
  | text (s : String)
  /-- A name that comes from the caller. -/
  | identifier (name : String)
  /-- Raw SQL that comes from the caller. -/
  | fragment (s : String)
  /-- A value. -/
  | scalar (v : Value)
  /-- A collection of values. -/
  | list (vs : List Value)
  /-- Raw SQL with a placeholder for each of the values. -/
  | condition (s : String) (args : List Value)
  /-- A place that cannot be written. -/
  | refusal (e : CompileError)
deriving DecidableEq

/-- A piece of SQL and the flags in force where it is written. -/
structure Step where
  flags : Flags
  piece : Piece
deriving DecidableEq

/-- What the steps of a tree depend on beside the tree. -/
structure Context where
  version : Version
  flags : Flags
  /-- Whether the SQL is only to be checked, which adds parentheses around conditions. -/
  forValidation : Bool

namespace Context

/-- The step of a single piece. -/
def piece (ctx : Context) (p : Piece) : List Step :=
  [⟨ctx.flags, p⟩]

/-- The step of a text. -/
def text (ctx : Context) (s : String) : List Step :=
  ctx.piece (.text s)

/-- The step of a name. -/
def identifier (ctx : Context) (name : String) : List Step :=
  ctx.piece (.identifier name)

/-- Steps between parentheses. -/
def enclosed (ctx : Context) (steps : List Step) : List Step :=
  ctx.text "(" ++ steps ++ ctx.text ")"

/-- Steps between parentheses when the SQL is only to be checked. -/
def enclosedForValidation (ctx : Context) (steps : List Step) : List Step :=
  if ctx.forValidation then ctx.enclosed steps else steps

/-- Lists of steps with a separator between them. -/
def separated (ctx : Context) (separator : String) : List (List Step) → List Step
  | [] => []
  | [s] => s
  | s :: t :: r => s ++ ctx.text separator ++ ctx.separated separator (t :: r)

/-- Names with a separator between them. -/
def identifiers (ctx : Context) (names : List String) : List Step :=
  ctx.separated ", " (names.map ctx.identifier)

/-- The flags inside a query: it is not outermost for its own parts, and its request for
validation is added to what is in force. -/
def inside (ctx : Context) (validated : Bool) : Context :=
  let flags := ctx.flags.remove .topLevel
  { ctx with flags := if validated then flags.union .validation else flags }

end Context

end TypedSql.Sql
