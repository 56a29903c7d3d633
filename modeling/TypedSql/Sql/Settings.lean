import TypedSql.Json.Reader
import TypedSql.Json.Writer
import TypedSql.Sql.Column
import TypedSql.Sql.Compilation

/-!
# Settings as JSON

Versions, flags, table identities and compile options as JSON.  A structure can be read from
an object, whose other members are ignored, or from an array of its fields in order.
-/

namespace TypedSql.Sql

namespace Version

/-- A version as JSON: its text as a string. -/
def toJson (v : Version) : String :=
  Json.quote v.display

/-- Reads a version from a document. -/
def ofJson? (j : Json) : Option Version :=
  j.asText.bind fun s => (parse s).toOption

/-- Reads a version from a text. -/
def ofJsonText? (s : String) : Option Version :=
  (Json.read? s).bind ofJson?

end Version

namespace Flags

/-- Flags as JSON: their bits as a number. -/
def toJson (f : Flags) : String :=
  toString f.bits.toNat

/-- Reads flags from a document. -/
def ofJson? (j : Json) : Option Flags :=
  (j.asNumeral.bind (JsonNumeral.integerWithin? .unsigned8)).map fun n => ⟨.ofNat n.toNat⟩

/-- Reads flags from a text. -/
def ofJsonText? (s : String) : Option Flags :=
  (Json.read? s).bind ofJson?

end Flags

namespace TableId

/-- A table identity as JSON. -/
def toJson (t : TableId) : String :=
  Json.writeObject [("model", Json.quote t.model), ("table", Json.quote t.table)]

/-- Reads a table identity from a document. -/
def ofJson? (j : Json) : Option TableId :=
  match j with
  | .array [model, table] => do
    let model ← model.asText
    let table ← table.asText
    return ⟨model, table⟩
  | _ =>
    match j.asObject with
    | none => none
    | some members =>
      match Json.allOf "model" members, Json.allOf "table" members with
      | [model], [table] => do
        let model ← model.asText
        let table ← table.asText
        return ⟨model, table⟩
      | _, _ => none

/-- Reads a table identity from a text. -/
def ofJsonText? (s : String) : Option TableId :=
  (Json.read? s).bind ofJson?

end TableId

namespace Options

/-- Settings as JSON. -/
def toJson (o : Options) : String :=
  Json.writeObject [("version", o.version.toJson), ("flags", o.flags.toJson),
    ("withArguments", if o.withArguments then "true" else "false")]

/-- The settings of which some are given; the others are the standard ones. -/
def ofParts? (version flags withArguments : Option Json) : Option Options := do
  let version ← (version.map Version.ofJson?).getD (some standard.version)
  let flags ← (flags.map Flags.ofJson?).getD (some standard.flags)
  let withArguments ←
    (withArguments.map Json.asBoolean).getD (some standard.withArguments)
  return ⟨version, flags, withArguments⟩

/-- Reads settings from a document. -/
def ofJson? (j : Json) : Option Options :=
  match j with
  | .array es =>
    if 3 < es.length then none else ofParts? es[0]? es[1]? es[2]?
  | _ =>
    match j.asObject with
    | none => none
    | some members =>
      let versions := Json.allOf "version" members
      let flags := Json.allOf "flags" members
      let arguments := Json.allOf "withArguments" members
      if 1 < versions.length ∨ 1 < flags.length ∨ 1 < arguments.length then none
      else ofParts? versions.head? flags.head? arguments.head?

/-- Reads settings from a text. -/
def parse (s : String) : Except ConfigError Options :=
  match (Json.read? s).bind ofJson? with
  | some o => .ok o
  | none => .error .invalidOptions

end Options

end TypedSql.Sql
