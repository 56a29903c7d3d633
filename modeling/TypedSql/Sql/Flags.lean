/-!
# Compilation flags

A set of flags, held as the bits of a byte.  The library gives a meaning to two of them and
carries the others along.
-/

namespace TypedSql.Sql

/-- A set of compilation flags. -/
structure Flags where
  bits : UInt8
deriving DecidableEq

namespace Flags

/-- No flag. -/
def none : Flags := ⟨0⟩

/-- Raw fragments, identifiers and literals are checked. -/
def validation : Flags := ⟨1⟩

/-- The next query is the outermost one of the statement. -/
def topLevel : Flags := ⟨2⟩

/-- Whether every flag of `g` is in `f`. -/
def contains (f g : Flags) : Bool :=
  f.bits &&& g.bits == g.bits

/-- The flags of either set. -/
def union (f g : Flags) : Flags :=
  ⟨f.bits ||| g.bits⟩

/-- The flags of `f` that are not in `g`. -/
def remove (f g : Flags) : Flags :=
  ⟨f.bits &&& ~~~g.bits⟩

/-- Whether fragments, identifiers and literals are checked. -/
def validates (f : Flags) : Bool :=
  f.contains validation

end Flags

end TypedSql.Sql
