import TypedSql.Decimal.Layout
import TypedSql.Json.Number
import TypedSql.Json.Reader
import TypedSql.Json.Writer
import TypedSql.Value.Store

/-!
# Snapshots of values

Values and stores as JSON.  A value is an object with its kind as `type` and its content as
`value`; null has no content.  A store is an object with its keys in order.  A double that
is not finite has no JSON form and is written as null.

A value is also read from its two members in either order, with other members between them,
and from an array of its kind and its content.  As a member, the kind may be any spelling of an
alternative; in an array it is a string.
-/

namespace TypedSql

namespace Value

/-- A finite double as a JSON numeral, and any other as null. -/
def writeDouble (x : Binary64) : String :=
  if x.isFinite then Decimal.json.finite x else "null"

/-- The content of a value as JSON. -/
def writeContent : Value → Option String
  | null => none
  | integer n => some (toString n.toInt)
  | long n => some (toString n.toInt)
  | double x => some (writeDouble x)
  | text s => some (Json.quote s)
  | boolean b => some (if b then "true" else "false")
  | blob bytes => some (Json.writeArray (bytes.map fun b => toString b.toNat))

/-- The name of the kind of a value, which null has too. -/
def typeName (v : Value) : String :=
  match v.kind? with
  | none => "Null"
  | some k => k.name

/-- A value as JSON. -/
def toJson (v : Value) : String :=
  let tag := ("type", Json.quote v.typeName)
  Json.writeObject <|
    match v.writeContent with
    | none => [tag]
    | some content => [tag, ("value", content)]

/-- The value of a kind with a given content. -/
def ofContent? (k : Kind) (j : Json) : Option Value :=
  match k with
  | .integer =>
    (j.asNumeral.bind (JsonNumeral.integerWithin? .signed32)).map fun n =>
      integer (.ofInt n)
  | .long =>
    (j.asNumeral.bind (JsonNumeral.integerWithin? .signed64)).map fun n =>
      long (.ofInt n)
  | .double => (j.asNumeral.bind JsonNumeral.toDouble?).map double
  | .text => j.asText.map text
  | .boolean => j.asBoolean.map boolean
  | .blob =>
    match j with
    | .array es =>
      (es.mapM fun (e : Json) =>
        e.asNumeral.bind (JsonNumeral.integerWithin? .unsigned8)).map fun ns =>
        blob (ns.map fun n => .ofNat n.toNat)
    | _ => none

/-- The value of a named type and a content; only null can do without content. -/
def ofParts? (type : String) (content : Option Json) : Option Value :=
  match Kind.ofName? type, content with
  | some k, some c => ofContent? k c
  | some _, none => none
  | none, content =>
    if type = "Null" ∧ (content.map Json.isNull).getD true then some null else none

/-- Reads a value from a document. -/
def ofJson? (j : Json) : Option Value :=
  match j with
  | .array [type, content] => type.asText.bind fun name => ofParts? name (some content)
  | _ =>
    match j.asObject with
    | none => none
    | some members =>
      match Json.allOf "type" members, Json.allOf "value" members with
      | [type], [] => type.asAlternative.bind fun name => ofParts? name none
      | [type], [content] => type.asAlternative.bind fun name => ofParts? name (some content)
      | _, _ => none

/-- Reads a value from a text. -/
def ofJsonText? (s : String) : Option Value :=
  (Json.read? s).bind ofJson?

end Value

namespace Kind

/-- A kind as JSON. -/
def toJson (k : Kind) : String :=
  Json.quote k.name

/-- Reads a kind from a text. -/
def ofJsonText? (s : String) : Option Kind :=
  (Json.read? s).bind fun j => j.asAlternative.bind ofName?

end Kind

namespace Store

/-- A store as JSON. -/
def toJson (s : Store) : String :=
  Json.writeObject (s.entries.map fun e => (e.1, e.2.toJson))

/-- Reads a store from a document.  Of a repeated key the last value counts. -/
def ofJson? (j : Json) : Option Store :=
  j.asObject.bind fun members =>
    (members.mapM fun m => (Value.ofJson? m.2).map fun v => (m.1, v)).map ofList

/-- Reads a store from a text. -/
def ofJsonText? (s : String) : Option Store :=
  (Json.read? s).bind ofJson?

end Store

end TypedSql
