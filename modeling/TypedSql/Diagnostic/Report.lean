import TypedSql.Diagnostic.Code

/-!
# Reports

The common form into which the failures of every part of the library are brought: a code,
a message, and what the subsystem knows beside them.
-/

namespace TypedSql.Diagnostic

/-- A failure as it is shown to a caller that mixes subsystems. -/
inductive Report where
  /-- A value and the kind that it could not be cast to, both as texts. -/
  | coercion (code : Code) (message value target : String)
  /-- A model, with the storage key concerned when it is known. -/
  | model (code : Code) (message : String) (key : Option String)
  /-- A compilation, with the offending text when it is known. -/
  | compilation (code : Code) (message : String) (context : Option String)
  /-- A setting that could not be loaded. -/
  | configuration (code : Code) (message : String)
deriving DecidableEq

namespace Report

/-- The code of a report. -/
def code : Report → Code
  | .coercion code _ _ _ => code
  | .model code _ _ => code
  | .compilation code _ _ => code
  | .configuration code _ => code

/-- The message of a report. -/
def message : Report → String
  | .coercion _ message _ _ => message
  | .model _ message _ => message
  | .compilation _ message _ => message
  | .configuration _ message => message

/-- The shown form of a report: its code and its message. -/
def display (r : Report) : String :=
  r.code.display ++ ": " ++ r.message

/-- The help registered for the code of a report. -/
def help (r : Report) : Option String :=
  r.code.entry.help

/-- Attaches a storage key to a report on a model; other reports have no place for it. -/
def withKey (key : String) : Report → Report
  | .model code message _ => .model code message (some key)
  | r => r

/-- Attaches an offending text to a report on a compilation; other reports have no place
for it. -/
def withContext (context : String) : Report → Report
  | .compilation code message _ => .compilation code message (some context)
  | r => r

end Report

end TypedSql.Diagnostic
