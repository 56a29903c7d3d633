import TypedSql.Json.Basic

/-!
# Writing JSON

Strings are written with escapes for the quotation mark, the backslash and the control
characters, and every other character as it is.
-/

namespace TypedSql.Json

/-- A hexadecimal digit. -/
def hexDigit (n : Nat) : Char :=
  Nat.digitChar (n % 16)

/-- A character inside a string. -/
def escape (c : Char) : List Char :=
  if c = '\x22' then ['\\', '\x22']
  else if c = '\\' then ['\\', '\\']
  else if c = '\x08' then ['\\', 'b']
  else if c = '\x0c' then ['\\', 'f']
  else if c = '\n' then ['\\', 'n']
  else if c = '\r' then ['\\', 'r']
  else if c = '\t' then ['\\', 't']
  else if c < ' ' then ['\\', 'u', '0', '0', hexDigit (c.toNat / 16), hexDigit c.toNat]
  else [c]

/-- A text as a JSON string. -/
def quote (s : String) : String :=
  String.ofList ('\x22' :: (s.toList.flatMap escape ++ ['\x22']))

/-- Texts of documents as a JSON array. -/
def writeArray (es : List String) : String :=
  "[" ++ ",".intercalate es ++ "]"

/-- Keys with texts of documents as a JSON object. -/
def writeObject (ms : List (String × String)) : String :=
  "\x7b" ++ ",".intercalate (ms.map fun m => quote m.1 ++ ":" ++ m.2) ++ "\x7d"

end TypedSql.Json
