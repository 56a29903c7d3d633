import TypedSql.Sql.Step

/-!
# Emissions

Steps are written out one after the other.  What they write is an emission: a text, the
arguments bound to the placeholders in it, and, when a step cannot be written, the failure
at which the writing stopped.  Emissions are composed by `append`, under which nothing
follows a failure.

Values are either bound, a single one to `?` and a collection to `?[]`, or written as
literals.  Null is always written as `NULL`.
-/

namespace TypedSql.Sql

/-- What is bound to a placeholder. -/
inductive BoundArg where
  /-- Bound to `?`. -/
  | value (v : Value)
  /-- Bound to `?[]`. -/
  | array (vs : List Value)
deriving DecidableEq

/-- The number of single placeholders that an argument takes when arrays are spread out. -/
def BoundArg.width : BoundArg → Nat
  | value _ => 1
  | array vs => vs.length

/-- The query without rows that stands for an empty collection. -/
def emptyList : String := "SELECT NULL WHERE 0"

/-- How values are written. -/
inductive Binding where
  /-- As placeholders with arguments. -/
  | bound
  /-- As literals. -/
  | literals
deriving DecidableEq

/-- An error, and the flags in force where it arose. -/
structure Failure where
  error : CompileError
  flags : Flags
deriving DecidableEq

/-- What steps write. -/
structure Emission where
  text : String
  args : List BoundArg
  failure : Option Failure
deriving DecidableEq

namespace Emission

/-- Nothing written. -/
def empty : Emission := ⟨"", [], none⟩

/-- A text without arguments. -/
def ofText (s : String) : Emission := ⟨s, [], none⟩

/-- A failure before anything was written. -/
def fail (flags : Flags) (e : CompileError) : Emission := ⟨"", [], some ⟨e, flags⟩⟩

/-- One emission after another, unless the first failed. -/
def append (e f : Emission) : Emission :=
  match e.failure with
  | some _ => e
  | none => ⟨e.text ++ f.text, e.args ++ f.args, f.failure⟩

/-- A text, or the failure to make it. -/
def ofExcept (flags : Flags) : Except CompileError String → Emission
  | .ok s => ofText s
  | .error e => fail flags e

/-- A text that is written only when it passes a check that the flags ask for. -/
def checked (flags : Flags) (check : Except CompileError Unit) (s : String) : Emission :=
  if flags.validates then
    match check with
    | .ok () => ofText s
    | .error e => fail flags e
  else ofText s

theorem empty_append (e : Emission) :
  empty.append e = e
  := by
  simp [append, empty]

theorem append_empty (e : Emission) :
  e.append empty = e
  := by
  obtain ⟨text, args, failure⟩ := e
  cases failure <;> simp [append, empty]

theorem append_assoc (e f g : Emission) :
  (e.append f).append g = e.append (f.append g)
  := by
  obtain ⟨text, args, failure⟩ := e
  obtain ⟨text', args', failure'⟩ := f
  cases failure <;> cases failure' <;> simp [append, String.append_assoc]

/-- A value, bound or as a literal. -/
def scalar (binding : Binding) (flags : Flags) (v : Value) : Emission :=
  if v.isNull then ofText "NULL"
  else
    match binding with
    | .bound => ⟨"?", [.value v], none⟩
    | .literals => ofExcept flags (literal flags.validates v)

/-- The literals of values, with commas between them. -/
def literalList (flags : Flags) : List Value → Emission
  | [] => empty
  | [v] => ofExcept flags (literal flags.validates v)
  | v :: w :: vs =>
    (ofExcept flags (literal flags.validates v)).append <|
      (ofText ", ").append (literalList flags (w :: vs))

/-- A collection of values, bound or as literals. -/
def list (binding : Binding) (flags : Flags) (vs : List Value) : Emission :=
  match binding with
  | .bound => ⟨"?[]", [.array vs], none⟩
  | .literals => if vs.isEmpty then ofText emptyList else literalList flags vs

/-- A raw condition with the values for its placeholders, bound or as literals. -/
def condition (binding : Binding) (flags : Flags) (s : String) (args : List Value) :
    Emission :=
  match binding with
  | .bound =>
    let n := placeholderCount s
    if n = args.length then ⟨s, args.map .value, none⟩
    else fail flags (.countMismatch .fragmentArguments n args.length)
  | .literals => ofExcept flags (inlineArguments flags.validates s args)

/-- What a step writes. -/
def ofStep (binding : Binding) : Step → Emission
  | ⟨_, .text s⟩ => ofText s
  | ⟨flags, .identifier name⟩ => checked flags (checkIdentifier name) name
  | ⟨flags, .fragment s⟩ => checked flags (checkFragment s) s
  | ⟨flags, .scalar v⟩ => scalar binding flags v
  | ⟨flags, .list vs⟩ => list binding flags vs
  | ⟨flags, .condition s args⟩ =>
    (checked flags (checkFragment s) "").append (condition binding flags s args)
  | ⟨flags, .refusal e⟩ => fail flags e

/-- What steps write, one after the other. -/
def ofSteps (binding : Binding) : List Step → Emission
  | [] => empty
  | s :: ss => (ofStep binding s).append (ofSteps binding ss)

theorem ofSteps_append (binding : Binding) (ss ts : List Step) :
  ofSteps binding (ss ++ ts) = (ofSteps binding ss).append (ofSteps binding ts)
  := by
  induction ss with
  | nil => exact (empty_append _).symm
  | cons s ss ih => rw [List.cons_append, ofSteps, ofSteps, ih, append_assoc]

end Emission

end TypedSql.Sql
