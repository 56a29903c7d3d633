import TypedSql.Sql.Error
import TypedSql.Value.Basic

/-!
# Literals

The literal of a value.  A text stands between apostrophes and each apostrophe in it is
written twice; bytes are written in hexadecimal.  An infinity is written as a numeral that
overflows to it, and a double that is not a number as `NULL`.
-/

namespace TypedSql.Sql

/-- The content of a quoted text: each apostrophe is written twice. -/
def escapeQuotes : List Char → List Char
  | [] => []
  | c :: cs => if c = '\x27' then '\x27' :: '\x27' :: escapeQuotes cs else c :: escapeQuotes cs

/-- A text as a literal. -/
def quote (s : String) : String :=
  String.ofList ('\x27' :: (escapeQuotes s.toList ++ ['\x27']))

/-- A double as a literal. -/
def doubleLiteral (x : Binary64) : String :=
  if x.isNaN then "NULL"
  else if x.isInfinite then (if x.negative then "-9e999" else "9e999")
  else Decimal.plain.finite x

/-- A value as a literal.  When literals are checked, a text that contains the character
NUL has none. -/
def literal (validated : Bool) : Value → Except CompileError String
  | .null => .ok "NULL"
  | .integer n => .ok (toString n.toInt)
  | .long n => .ok (toString n.toInt)
  | .double x => .ok (doubleLiteral x)
  | .text s =>
    if validated && s.toList.contains '\x00' then .error .nulInText else .ok (quote s)
  | .boolean b => .ok (if b then "1" else "0")
  | .blob bytes => .ok ("X'" ++ hexadecimal bytes ++ "'")

end TypedSql.Sql
