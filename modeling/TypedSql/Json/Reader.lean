import TypedSql.Json.Basic

/-!
# Reading JSON

A reader for the grammar of JSON.  Documents are read by recursive descent.  Every call is
given a bound on the number of calls below it; twice the length of the text is enough, since
each character is the beginning of at most two calls.
-/

namespace TypedSql.Json

/-- The characters that may stand between tokens. -/
def isSpace (c : Char) : Bool :=
  c == ' ' || c == '\n' || c == '\t' || c == '\r'

/-- The rest of a text from the first character that is no space. -/
def skipSpace (cs : List Char) : List Char :=
  cs.dropWhile isSpace

/-! ### Strings -/

/-- A part of a string: a character, or a code unit of sixteen bits given by an escape. -/
inductive StringUnit where
  | char (c : Char)
  | unit (n : Nat)
deriving DecidableEq

/-- The characters that units make up.  A unit that is half of a pair needs the other. -/
def characters? : List StringUnit → Option (List Char)
  | [] => some []
  | .char c :: r => (characters? r).map (c :: ·)
  | .unit h :: r =>
    if h < 0xd800 ∨ 0xdfff < h then (characters? r).map (Char.ofNat h :: ·)
    else
      match r with
      | .unit l :: r =>
        if h < 0xdc00 ∧ 0xdc00 ≤ l ∧ l ≤ 0xdfff then
          (characters? r).map
            (Char.ofNat (0x10000 + (h - 0xd800) * 0x400 + (l - 0xdc00)) :: ·)
        else none
      | _ => none

/-- The value of a hexadecimal digit. -/
def hexValue? (c : Char) : Option Nat :=
  if '0' ≤ c ∧ c ≤ '9' then some (c.toNat - 48)
  else if 'a' ≤ c ∧ c ≤ 'f' then some (c.toNat - 87)
  else if 'A' ≤ c ∧ c ≤ 'F' then some (c.toNat - 55)
  else none

/-- The code unit of four hexadecimal digits. -/
def hexUnit? (a b c d : Char) : Option Nat := do
  let a ← hexValue? a
  let b ← hexValue? b
  let c ← hexValue? c
  let d ← hexValue? d
  return ((a * 16 + b) * 16 + c) * 16 + d

/-- The character that a letter after a backslash stands for. -/
def escaped? (c : Char) : Option Char :=
  if c = '\x22' ∨ c = '\\' ∨ c = '/' then some c
  else if c = 'b' then some '\x08'
  else if c = 'f' then some '\x0c'
  else if c = 'n' then some '\n'
  else if c = 'r' then some '\r'
  else if c = 't' then some '\t'
  else none

/-- Reads a string from behind its opening mark: its units, and the rest of the text. -/
def stringUnits : List Char → Option (List StringUnit × List Char)
  | [] => none
  | '\\' :: 'u' :: a :: b :: c :: d :: r => do
    let n ← hexUnit? a b c d
    let (us, r) ← stringUnits r
    return (.unit n :: us, r)
  | '\\' :: e :: r => do
    let c ← escaped? e
    let (us, r) ← stringUnits r
    return (.char c :: us, r)
  | c :: r =>
    if c = '\x22' then some ([], r)
    else if c = '\\' ∨ c < ' ' then none
    else do
      let (us, r) ← stringUnits r
      return (.char c :: us, r)

/-- Reads a string from behind its opening mark: its text, and the rest. -/
def stringText (cs : List Char) : Option (Option String × List Char) :=
  (stringUnits cs).map fun (us, r) => ((characters? us).map String.ofList, r)

/-! ### Numerals -/

/-- Reads the digits after a point, if there is one. -/
def fractionPart : List Char → Option (Option (List Char) × List Char)
  | '.' :: cs =>
    let s := Decimal.spanDigits cs
    if s.1.isEmpty then none else some (some s.1, s.2)
  | cs => some (none, cs)

/-- Reads an exponent, if there is one. -/
def exponentPart : List Char → Option (Option (Bool × List Char) × List Char)
  | c :: cs =>
    if c = 'e' ∨ c = 'E' then
      let (negative, ds) :=
        match cs with
        | '-' :: r => (true, r)
        | '+' :: r => (false, r)
        | r => (false, r)
      let s := Decimal.spanDigits ds
      if s.1.isEmpty then none else some (some (negative, s.1), s.2)
    else some (none, c :: cs)
  | [] => some (none, [])

/-- Reads a numeral.  A zero in front of another digit is refused. -/
def numeralAt (cs : List Char) : Option (JsonNumeral × List Char) :=
  let (negative, cs) :=
    match cs with
    | '-' :: r => (true, r)
    | r => (false, r)
  let s := Decimal.spanDigits cs
  match s.1 with
  | [] => none
  | '0' :: _ :: _ => none
  | whole => do
    let (fraction, r) ← fractionPart s.2
    let (exponent, r) ← exponentPart r
    return (⟨negative, whole, fraction, exponent⟩, r)

/-! ### Documents -/

mutual

/-- Reads a document, and gives the rest of the text. -/
def valueAt : Nat → List Char → Option (Json × List Char)
  | 0, _ => none
  | n + 1, cs =>
    match skipSpace cs with
    | 'n' :: 'u' :: 'l' :: 'l' :: r => some (.null, r)
    | 't' :: 'r' :: 'u' :: 'e' :: r => some (.boolean true, r)
    | 'f' :: 'a' :: 'l' :: 's' :: 'e' :: r => some (.boolean false, r)
    | '\x22' :: r => (stringText r).map fun (s, r) => (.string s, r)
    | '[' :: r =>
      match skipSpace r with
      | ']' :: r => some (.array [], r)
      | r => (elementsAt n r).map fun (es, r) => (.array es, r)
    | '\x7b' :: r =>
      match skipSpace r with
      | '\x7d' :: r => some (.object [], r)
      | r => (membersAt n r).map fun (ms, r) => (.object ms, r)
    | r => (numeralAt r).map fun (m, r) => (.numeral m, r)

/-- Reads the elements of an array and its closing bracket. -/
def elementsAt : Nat → List Char → Option (List Json × List Char)
  | 0, _ => none
  | n + 1, cs => do
    let (e, r) ← valueAt n cs
    match skipSpace r with
    | ']' :: r => some ([e], r)
    | ',' :: r => do
      let (es, r) ← elementsAt n r
      return (e :: es, r)
    | _ => none

/-- Reads the members of an object and its closing brace. -/
def membersAt : Nat → List Char → Option (List (Option String × Json) × List Char)
  | 0, _ => none
  | n + 1, cs =>
    match skipSpace cs with
    | '\x22' :: r => do
      let (k, r) ← stringText r
      match skipSpace r with
      | ':' :: r => do
        let (v, r) ← valueAt n r
        match skipSpace r with
        | '\x7d' :: r => some ([(k, v)], r)
        | ',' :: r => do
          let (ms, r) ← membersAt n r
          return ((k, v) :: ms, r)
        | _ => none
      | _ => none
    | _ => none

end

/-- Reads a text that is one document with spaces around it. -/
def read? (s : String) : Option Json :=
  let cs := s.toList
  match valueAt (2 * cs.length + 2) cs with
  | some (j, r) => if (skipSpace r).isEmpty then some j else none
  | none => none

end TypedSql.Json
