import TypedSql.Diagnostic.Report

/-!
# Compilation errors

Why a tree cannot be compiled, or a setting cannot be read, and the messages that say so.
-/

namespace TypedSql.Sql

/-- What makes a raw fragment unsafe. -/
inductive Hazard where
  | separator
  | lineComment
  | blockComment
  | unterminatedQuote
  | unbalancedParentheses
deriving DecidableEq

/-- The words for a hazard. -/
def Hazard.reason : Hazard → String
  | .separator => "statement separator"
  | .lineComment => "line comment"
  | .blockComment => "block comment"
  | .unterminatedQuote => "unterminated quote"
  | .unbalancedParentheses => "unbalanced parentheses"

/-- The part that a statement lacks. -/
inductive Gap where
  | insertColumns
  | insertRows
  | updateAssignments
deriving DecidableEq

/-- The name of the statement that has a gap. -/
def Gap.statement : Gap → String
  | .insertColumns | .insertRows => "INSERT"
  | .updateAssignments => "UPDATE"

/-- The words for a gap. -/
def Gap.reason : Gap → String
  | .insertColumns => "no columns"
  | .insertRows => "no values or select"
  | .updateAssignments => "no assignments"

/-- Where the number of values has to be a given one. -/
inductive Place where
  | fragmentArguments
  | insertRow
deriving DecidableEq

/-- The words for a place. -/
def Place.name : Place → String
  | .fragmentArguments => "raw fragment arguments"
  | .insertRow => "INSERT row"

/-- Why a tree cannot be compiled. -/
inductive CompileError where
  /-- A raw fragment could alter the structure of the statement around it. -/
  | unsafeFragment (fragment : String) (hazard : Hazard)
  /-- A text that contains the character NUL has no safe literal. -/
  | nulInText
  /-- A statement lacks a part. -/
  | incomplete (gap : Gap)
  /-- The number of values is not the one that their place asks for. -/
  | countMismatch (place : Place) (expected found : Nat)
  /-- A name is not a plain identifier. -/
  | invalidIdentifier (name : String)
deriving DecidableEq

namespace CompileError

/-- The code of a compilation error. -/
def code : CompileError → Diagnostic.Code
  | unsafeFragment _ _ => .unsafeFragment
  | nulInText => .invalidLiteral
  | incomplete _ => .incompleteStatement
  | countMismatch _ _ _ => .countMismatch
  | invalidIdentifier _ => .invalidIdentifier

/-- The message of a compilation error. -/
def message : CompileError → String
  | unsafeFragment fragment hazard =>
    "Unsafe SQL fragment (" ++ hazard.reason ++ "): " ++ fragment
  | nulInText => "Invalid literal: text literal contains a NUL character"
  | incomplete gap => "Incomplete " ++ gap.statement ++ " statement: " ++ gap.reason
  | countMismatch place expected found =>
    place.name ++ ": expected " ++ toString expected ++ " values, found " ++ toString found
  | invalidIdentifier name => "Invalid identifier: " ++ name

/-- The text that a compilation error objects to, where there is one. -/
def context? : CompileError → Option String
  | unsafeFragment fragment _ => some fragment
  | invalidIdentifier name => some name
  | _ => none

/-- The report on a compilation error. -/
def report (e : CompileError) : Diagnostic.Report :=
  .compilation e.code e.message e.context?

end CompileError

/-- Why a setting cannot be read. -/
inductive ConfigError where
  /-- The text is no version. -/
  | invalidVersion (text : String)
  /-- The text holds no compile options. -/
  | invalidOptions
deriving DecidableEq

namespace ConfigError

/-- The code of a configuration error. -/
def code : ConfigError → Diagnostic.Code
  | invalidVersion _ => .invalidVersion
  | invalidOptions => .invalidOptions

/-- The message of a configuration error. -/
def message : ConfigError → String
  | invalidVersion text => "Invalid version code '" ++ text ++ "'"
  | invalidOptions => "Invalid compile options"

/-- The report on a configuration error. -/
def report (e : ConfigError) : Diagnostic.Report :=
  .configuration e.code e.message

end ConfigError

end TypedSql.Sql
