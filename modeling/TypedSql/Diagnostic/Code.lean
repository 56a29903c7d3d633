/-!
# Diagnostic codes

Every failure carries a stable number, shown as `QRY0201`.  The hundreds of the number
tell the subsystem, and the registry tells what a registered number means and, for some,
what to do about it.
-/

namespace TypedSql.Diagnostic

/-- The stable number of a failure. -/
structure Code where
  number : UInt16
deriving DecidableEq

/-- The subsystem a failure belongs to. -/
inductive Category where
  | coercion
  | model
  | compilation
  | configuration
  | unknown
deriving DecidableEq

/-- The name of a category. -/
def Category.name : Category → String
  | .coercion => "Coercion"
  | .model => "Model"
  | .compilation => "Compilation"
  | .configuration => "Configuration"
  | .unknown => "Unknown"

/-- What is registered for a code. -/
structure Entry where
  description : String
  help : Option String

namespace Code

/-- A value has no conversion to the kind of its column. -/
def castRefused : Code := ⟨1⟩

/-- A text does not read as a number. -/
def textNotNumeric : Code := ⟨2⟩

/-- No store of a model holds the value asked for. -/
def valueNotFound : Code := ⟨100⟩

/-- A compilation failed for a reason without a code of its own. -/
def compilationFailed : Code := ⟨200⟩

/-- A raw fragment could alter the structure of a statement. -/
def unsafeFragment : Code := ⟨201⟩

/-- A literal cannot be written safely. -/
def invalidLiteral : Code := ⟨202⟩

/-- A statement lacks a required clause. -/
def incompleteStatement : Code := ⟨203⟩

/-- The number of values differs from the number of their places. -/
def countMismatch : Code := ⟨204⟩

/-- A name is not a plain identifier. -/
def invalidIdentifier : Code := ⟨205⟩

/-- A text is no version. -/
def invalidVersion : Code := ⟨300⟩

/-- A text holds no compile options. -/
def invalidOptions : Code := ⟨301⟩

/-- The subsystem of a code, by the hundreds of its number.  Zero belongs to none. -/
def category (c : Code) : Category :=
  match c.number.toNat / 100 with
  | 0 => if c.number = 0 then .unknown else .coercion
  | 1 => .model
  | 2 => .compilation
  | 3 => .configuration
  | _ => .unknown

/-- The shown form of a code: its number filled up to four digits. -/
def display (c : Code) : String :=
  let ds := Nat.toDigits 10 c.number.toNat
  "QRY" ++ String.ofList (List.replicate (4 - ds.length) '0' ++ ds)

/-- The registered meaning of a code.  All other codes share one entry. -/
def entry (c : Code) : Entry :=
  if c = castRefused then ⟨"Value cannot be cast to the column kind", none⟩
  else if c = textNotNumeric then
    ⟨"Text is not a valid number",
      some "Numeric columns accept text only when it parses as the column's numeric kind"⟩
  else if c = valueNotFound then
    ⟨"Value not found in model",
      some ("Set the value explicitly, read it from a row source, or give the column " ++
        "a default")⟩
  else if c = compilationFailed then ⟨"Compilation failed", none⟩
  else if c = unsafeFragment then
    ⟨"Unsafe SQL fragment",
      some ("Raw fragments compiled for validation may not contain statement separators, " ++
        "comments or unbalanced delimiters")⟩
  else if c = invalidLiteral then ⟨"Invalid literal", none⟩
  else if c = incompleteStatement then ⟨"Incomplete statement", none⟩
  else if c = countMismatch then ⟨"Column and value count mismatch", none⟩
  else if c = invalidIdentifier then ⟨"Invalid identifier", none⟩
  else if c = invalidVersion then ⟨"Invalid version code", none⟩
  else if c = invalidOptions then ⟨"Invalid compile options", none⟩
  else ⟨"Unregistered error code", none⟩

end Code

end TypedSql.Diagnostic
