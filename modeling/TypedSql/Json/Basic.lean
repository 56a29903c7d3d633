import TypedSql.Decimal.Numeral

/-!
# JSON documents

A document is kept as it was written: numerals with their digits, members of objects in
order and with repetitions.  A string whose escapes do not make up characters has no text;
such strings may stand in the parts of a document that nobody looks at.
-/

namespace TypedSql

/-- A JSON numeral, as it was written. -/
structure JsonNumeral where
  negative : Bool
  whole : List Char
  /-- The digits after the point, if there is one. -/
  fraction : Option (List Char)
  /-- Whether the exponent is negative, and its digits, if there is one. -/
  exponent : Option (Bool × List Char)
deriving DecidableEq

/-- A JSON document. -/
inductive Json where
  | null
  | boolean (b : Bool)
  | numeral (n : JsonNumeral)
  | string (text : Option String)
  | array (elements : List Json)
  | object (members : List (Option String × Json))

namespace Json

/-! ### Parts -/

/-- The text of a string. -/
def asText : Json → Option String
  | string text => text
  | _ => none

/-- The truth value a document is. -/
def asBoolean : Json → Option Bool
  | boolean b => some b
  | _ => none

/-- The numeral a document is. -/
def asNumeral : Json → Option JsonNumeral
  | numeral n => some n
  | _ => none

/-- Whether a document is null. -/
def isNull : Json → Bool
  | null => true
  | _ => false

/-- The members of an object all of whose keys have a text. -/
def asObject : Json → Option (List (String × Json))
  | object members => members.mapM fun m => m.1.map fun k => (k, m.2)
  | _ => none

/-- The documents under a key, of which there are several when it is repeated. -/
def allOf (key : String) (members : List (String × Json)) : List Json :=
  (members.filter fun m => m.1 == key).map Prod.snd

/-- The text naming one of several alternatives without content: a string, or an object whose
only member has that name as its key and is null. -/
def asAlternative (j : Json) : Option String :=
  match j with
  | string text => text
  | object [(name, null)] => name
  | _ => none

end Json

/-- The integer that a numeral writes, if it is in a range.  Only digits after an optional
minus sign write an integer, and minus zero is none. -/
def JsonNumeral.integerWithin? (b : Decimal.Bounds) (n : JsonNumeral) : Option Int :=
  match n.fraction, n.exponent with
  | none, none =>
    let m := Decimal.value n.whole
    let i : Int := if n.negative then -m else m
    if n.negative ∧ m = 0 then none else if b.contains i then some i else none
  | _, _ => none

end TypedSql
