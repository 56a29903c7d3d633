import TypedSql.Sql.Emission
import TypedSql.Sql.Rendering

/-!
# Builders

A builder accumulates the SQL and the arguments of a compilation.  Everything that is
appended is given by steps: what they write is added at the end of what is there, and the
flags are afterwards what they were, except that a failure leaves the flags that were in
force where it arose.
-/

namespace TypedSql.Sql

/-- The state of a compilation: the text so far, and the arguments so far unless values are
written as literals. -/
structure Builder where
  version : Version
  text : String
  args : Option (List BoundArg)
  flags : Flags

namespace Builder

/-- A builder that has nothing yet. -/
def new (version : Version) (binding : Binding) : Builder where
  version := version
  text := ""
  args := match binding with
    | .bound => some []
    | .literals => none
  flags := .none

/-- How values are written. -/
def binding (b : Builder) : Binding :=
  if b.args.isSome then .bound else .literals

/-- What the steps that are appended depend on. -/
def context (b : Builder) (forValidation : Bool) : Context :=
  ⟨b.version, b.flags, forValidation⟩

/-- The builder after an emission. -/
def add (b : Builder) (e : Emission) : Builder where
  version := b.version
  text := b.text ++ e.text
  args := b.args.map (· ++ e.args)
  flags := match e.failure with
    | some f => f.flags
    | none => b.flags

/-- Appends steps: the builder afterwards, and the error if there was one. -/
def append (b : Builder) (steps : List Step) : Builder × Option CompileError :=
  let e := Emission.ofSteps b.binding steps
  (b.add e, e.failure.map Failure.error)

/-- Appends a single piece. -/
def appendPiece (b : Builder) (p : Piece) : Builder × Option CompileError :=
  b.append ((b.context false).piece p)

/-- Appends a node. -/
def appendNode (b : Builder) (forValidation : Bool) (n : Node) :
    Builder × Option CompileError :=
  b.append (n.steps (b.context forValidation))

/-- Appends nodes with a separator between them. -/
def appendNodes (b : Builder) (forValidation : Bool) (separator : String) (ns : List Node) :
    Builder × Option CompileError :=
  let ctx := b.context forValidation
  b.append (ctx.separated separator (ns.map fun n => n.steps ctx))

/-- Appends an operand. -/
def appendOperand (b : Builder) (forValidation : Bool) (x : Operand) :
    Builder × Option CompileError :=
  b.append (x.steps (b.context forValidation))

/-- Appends operands with a separator between them. -/
def appendOperands (b : Builder) (forValidation : Bool) (separator : String)
    (xs : List Operand) : Builder × Option CompileError :=
  let ctx := b.context forValidation
  b.append (ctx.separated separator (Operand.stepsEach ctx xs))

/-- Sets flags. -/
def setFlags (b : Builder) (f : Flags) : Builder :=
  { b with flags := b.flags.union f }

/-- Clears flags. -/
def clearFlags (b : Builder) (f : Flags) : Builder :=
  { b with flags := b.flags.remove f }

end Builder

end TypedSql.Sql
