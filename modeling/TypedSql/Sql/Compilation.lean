import TypedSql.Journal.Entry
import TypedSql.Sql.Builder

/-!
# Compilation

A node is compiled to a text with literals or to a statement with bound arguments.  Flattening
a statement spreads its arrays out, so that every placeholder takes a single value.
-/

namespace TypedSql.Sql

/-- Settings of a compilation. -/
structure Options where
  version : Version
  flags : Flags
  withArguments : Bool
deriving DecidableEq

namespace Options

/-- The settings where nothing is said: the latest version, no flags, bound arguments. -/
def standard : Options := ⟨.latest, .none, true⟩

/-- The same settings with literals instead of arguments. -/
def inlined (o : Options) : Options :=
  { o with withArguments := false }

/-- The same settings with validation. -/
def validated (o : Options) : Options :=
  { o with flags := o.flags.union .validation }

/-- How values are written. -/
def binding (o : Options) : Binding :=
  if o.withArguments then .bound else .literals

end Options

/-- A compiled statement: the argument `args[i]` belongs to the placeholder number `i`. -/
structure Statement where
  sql : String
  args : List BoundArg
  needsValidation : Bool
deriving DecidableEq

namespace Statement

/-- The statement that a builder has accumulated. -/
def ofBuilder (b : Builder) : Statement :=
  ⟨b.text, b.args.getD [], b.flags.validates⟩

/-- The number of single placeholders that the arguments take. -/
def width (s : Statement) : Nat :=
  s.args.foldr (fun a n => a.width + n) 0

/-- The placeholders of the elements of an array.  An empty array becomes a query without
rows. -/
def spread (vs : List Value) : List Char :=
  if vs.isEmpty then emptyList.toList
  else [',', ' '].intercalate (vs.map fun _ => scalarMark)

/-- Tokens with their arrays spread out, and the values that belong to them.  Placeholders
beyond the last argument are left as they are. -/
def flattenTokens : List Token → List BoundArg → List Char × List Value
  | [], _ => ([], [])
  | .placeholder array :: ts, args =>
    match args with
    | [] =>
      let r := flattenTokens ts []
      (Token.text (.placeholder array) ++ r.1, r.2)
    | .value v :: args =>
      let r := flattenTokens ts args
      (scalarMark ++ r.1, v :: r.2)
    | .array vs :: args =>
      let r := flattenTokens ts args
      (spread vs ++ r.1, vs ++ r.2)
  | t :: ts, args =>
    let r := flattenTokens ts args
    (t.text ++ r.1, r.2)

/-- The statement with its arrays spread out: the text, and a value for each placeholder. -/
def flatten (s : Statement) : String × List Value :=
  let r := flattenTokens (tokens s.sql.toList) s.args
  (String.ofList r.1, r.2)

end Statement

namespace Query

/-- The flags a query is compiled with where nothing else is said. -/
def defaultFlags (q : Query) : Flags :=
  if q.validated then Flags.topLevel.union .validation else .topLevel

end Query

namespace Node

/-- The flags a node is compiled with where nothing else is said. -/
def defaultFlags : Node → Flags
  | .query q => q.defaultFlags
  | _ => .none

/-- Compiles a node into a new builder. -/
def build (n : Node) (version : Version) (binding : Binding) (forValidation : Bool)
    (flags : Flags) : Except CompileError Builder :=
  match ((Builder.new version binding).setFlags flags).appendNode forValidation n with
  | (b, none) => .ok b
  | (_, some e) => .error e

/-- The text of a node with literals. -/
def rawSql (n : Node) (version : Version) : Except CompileError String :=
  (n.build version .literals false n.defaultFlags).map Builder.text

/-- The statement of a node with bound arguments. -/
def compile (n : Node) (version : Version) : Except CompileError Statement :=
  (n.build version .bound false n.defaultFlags).map Statement.ofBuilder

/-- The statement of a node under given settings. -/
def compileWith (n : Node) (o : Options) : Except CompileError Statement :=
  (n.build o.version o.binding false (n.defaultFlags.union o.flags)).map Statement.ofBuilder

/-- The text by which messages refer to a node. -/
def display (n : Node) : String :=
  match n.rawSql .latest with
  | .ok s => s
  | .error e => "<" ++ e.message ++ ">"

/-- What a compilation of a node tells about itself. -/
def trace (n : Node) (version : Version) (binding : Binding) (flags : Flags) :
    Journal.Entry :=
  let bits := Nat.toDigits 2 flags.bits.toNat
  ⟨.trace, "compiling " ++ (if n.isStatement then "statement" else "expression") ++
    " (version " ++ version.display ++
    ", arguments: " ++ (if binding = .bound then "true" else "false") ++
    ", flags: 0b" ++ String.ofList (List.replicate (2 - bits.length) '0' ++ bits) ++ ")"⟩

end Node

namespace Query

/-- The flags under which the SQL of a query is checked. -/
def validationFlags (q : Query) : Flags :=
  q.defaultFlags.union .validation

/-- The text of a query with literals, to be checked before it is run: conditions have
additional parentheses around them. -/
def sqlForValidation (q : Query) (version : Version) : Except CompileError String :=
  ((Node.query q).build version .literals true q.validationFlags).map Builder.text

end Query

end TypedSql.Sql
