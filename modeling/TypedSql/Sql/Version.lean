import TypedSql.Decimal.Numeral
import TypedSql.Sql.Error
import TypedSql.Text.Blank

/-!
# Dialect versions

A version has four components, compared one after the other as numbers, so that
`3.8.2 < 3.8.10 < 3.30.0`.  Its text leaves the last component out when it is zero.
Engines differ in what they understand from the version they have reached.
-/

namespace TypedSql.Sql

/-- The version of an engine. -/
structure Version where
  major : UInt16
  minor : UInt16
  micro : UInt16
  nano : UInt16
deriving DecidableEq

namespace Version

/-- A version beyond every released one. -/
def latest : Version := ⟨65535, 65535, 65535, 65535⟩

/-- The first version that inserts several rows at once. -/
def multiRowInsert : Version := ⟨3, 7, 11, 0⟩

/-- The first version that places nulls explicitly in an ordering. -/
def nullsOrdering : Version := ⟨3, 30, 0, 0⟩

/-- The comparison of two versions, component by component. -/
def compare (v w : Version) : Ordering :=
  (Ord.compare v.major.toNat w.major.toNat).then <|
  (Ord.compare v.minor.toNat w.minor.toNat).then <|
  (Ord.compare v.micro.toNat w.micro.toNat).then <|
  Ord.compare v.nano.toNat w.nano.toNat

/-- Whether the version `v` has reached `w`. -/
def atLeast (v w : Version) : Bool :=
  (v.compare w).isGE

/-- The text of a version. -/
def display (v : Version) : String :=
  let component (n : UInt16) := toString n.toNat
  component v.major ++ "." ++ component v.minor ++ "." ++ component v.micro ++
    (if v.nano = 0 then "" else "." ++ component v.nano)

/-- The parts of a text between its points. -/
def parts : List Char → List (List Char)
  | [] => [[]]
  | c :: cs =>
    if c = '.' then [] :: parts cs
    else
      match parts cs with
      | p :: ps => (c :: p) :: ps
      | [] => [[c]]

/-- Reads a component: a number of at most sixteen bits after at most one plus sign. -/
def component? (cs : List Char) : Option UInt16 :=
  (Decimal.natural? cs).bind fun n => if n < 65536 then some (.ofNat n) else none

/-- Reads two to four components between points. -/
def ofChars? (cs : List Char) : Option Version :=
  match (parts cs).mapM component? with
  | some [a, b] => some ⟨a, b, 0, 0⟩
  | some [a, b, c] => some ⟨a, b, c, 0⟩
  | some [a, b, c, d] => some ⟨a, b, c, d⟩
  | _ => none

/-- Reads a version, ignoring blanks at either end of the text. -/
def parse (s : String) : Except ConfigError Version :=
  match ofChars? (Text.trim s.toList) with
  | some v => .ok v
  | none => .error (.invalidVersion s)

end Version

end TypedSql.Sql
