/-!
# Kinds

The six kinds of scalar a column can declare.
-/

namespace TypedSql

/-- The kind of a column. -/
inductive Kind where
  /-- Integers of thirty-two bits. -/
  | integer
  /-- Integers of sixty-four bits. -/
  | long
  /-- Binary floating point of double precision. -/
  | double
  /-- Texts. -/
  | text
  /-- Truth values, stored as zero and one. -/
  | boolean
  /-- Sequences of bytes. -/
  | blob
deriving DecidableEq

namespace Kind

/-- All kinds. -/
def all : List Kind :=
  [integer, long, double, text, boolean, blob]

/-- The name of a kind. -/
def name : Kind → String
  | integer => "Integer"
  | long => "Long"
  | double => "Double"
  | text => "Text"
  | boolean => "Boolean"
  | blob => "Blob"

/-- The kind of a given name. -/
def ofName? (s : String) : Option Kind :=
  all.find? fun k => k.name == s

/-- The storage class of columns of a kind. -/
def sqlType : Kind → String
  | integer | long | boolean => "INTEGER"
  | double => "REAL"
  | text => "TEXT"
  | blob => "BLOB"

/-- Whether a kind holds numbers. -/
def isNumeric : Kind → Bool
  | integer | long | double => true
  | text | boolean | blob => false

theorem ofName?_name (k : Kind) :
  ofName? k.name = some k
  := by
  cases k <;> rfl

end Kind

end TypedSql
