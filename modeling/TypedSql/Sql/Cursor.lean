import TypedSql.Sql.Compilation

/-!
# Copying with a cursor

A text with placeholders can also be rewritten without its tokens, from the offsets of its
placeholders alone.  A cursor goes through the bytes of the text from one placeholder to the next;
what it passes is copied, and what stands for a placeholder is written in between.

The parts to be copied are given by offsets, and a part that is out of the range of the text, or
begins or ends inside of a character, does not exist.
-/

namespace TypedSql.Sql

/-- The part of a text between two offsets, in bytes, if both are between characters. -/
def part? (s : String) (start stop : Nat) : Option String := do
  let p ← s.pos? ⟨start⟩
  let q ← s.pos? ⟨stop⟩
  let t ← s.slice? p q
  return t.copy

/-- Where a placeholder ends. -/
def Placeholder.stop (p : Placeholder) : Nat :=
  p.offset + if p.isArray then 3 else 1

/-- How far a text has been copied, and what has been written. -/
structure Cursor where
  position : Nat
  written : String

namespace Cursor

/-- Before the text. -/
def start : Cursor := ⟨0, ""⟩

/-- Writes a text. -/
def write (c : Cursor) (t : String) : Cursor :=
  { c with written := c.written ++ t }

/-- Copies what stands before an offset, and goes on behind another one. -/
def pass (c : Cursor) (s : String) (offset stop : Nat) : Option Cursor := do
  let t ← part? s c.position offset
  return ⟨stop, c.written ++ t⟩

/-- Copies what is left. -/
def finish (c : Cursor) (s : String) : Option String := do
  let t ← part? s c.position s.utf8ByteSize
  return c.written ++ t

end Cursor

/-! ### Flattening -/

namespace Statement

/-- Writes what stands for the placeholders, and gathers the values.  A placeholder without an
argument is copied. -/
def flattenFrom (s : String) :
    List Placeholder → List BoundArg → Cursor → List Value → Option (String × List Value)
  | [], _, c, values => do
    let t ← c.finish s
    return (t, values)
  | p :: ps, args, c, values => do
    let c ← c.pass s p.offset p.stop
    match args with
    | .array vs :: args =>
      flattenFrom s ps args (c.write (String.ofList (spread vs))) (values ++ vs)
    | .value v :: args => flattenFrom s ps args (c.write "?") (values ++ [v])
    | [] =>
      let t ← part? s p.offset p.stop
      flattenFrom s ps [] (c.write t) values

/-- Spreads the arrays of a statement out with a cursor. -/
def flattenInPlace (st : Statement) : Option (String × List Value) :=
  flattenFrom st.sql (placeholders st.sql) st.args .start []

end Statement

/-! ### Putting literals in -/

/-- Writes literals in the place of the question marks at given offsets.  The first value without a
literal stops it. -/
def inlineFrom (validated : Bool) (s : String) :
    List (Nat × Value) → Cursor → Option (Except CompileError String)
  | [], c => do
    let t ← c.finish s
    return .ok t
  | (offset, v) :: rest, c => do
    let c ← c.pass s offset (offset + 1)
    match literal validated v with
    | .ok l => inlineFrom validated s rest (c.write l)
    | .error e => return .error e

/-- Puts literals in the place of as many placeholders with a cursor. -/
def inlineInPlace (validated : Bool) (fragment : String) (args : List Value) :
    Option (Except CompileError String) :=
  let offsets := (placeholders fragment).map Placeholder.offset
  if offsets.length = args.length then
    inlineFrom validated fragment (offsets.zip args) .start
  else some (.error (.countMismatch .fragmentArguments offsets.length args.length))

end TypedSql.Sql
