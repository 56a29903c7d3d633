import TypedSql.Diagnostic.Code
import TypedSql.Json.Reader

/-!
# Diagnostic codes as JSON

A code is the number it carries.
-/

namespace TypedSql.Diagnostic.Code

/-- A code as JSON. -/
def toJson (c : Code) : String :=
  toString c.number.toNat

/-- Reads a code from a text. -/
def ofJsonText? (s : String) : Option Code :=
  (Json.read? s).bind fun j =>
    (j.asNumeral.bind (JsonNumeral.integerWithin? .unsigned16)).map fun n => ⟨.ofNat n.toNat⟩

end TypedSql.Diagnostic.Code
