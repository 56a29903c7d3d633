/-!
# Journal entries

What an operation tells about itself while it runs.  Operations are pure, so their entries
are given by functions of their own beside them.
-/

namespace TypedSql.Journal

/-- How much an entry matters. -/
inductive Level where
  | trace
  | debug
  | warn
deriving DecidableEq

/-- The name of a level. -/
def Level.name : Level → String
  | trace => "TRACE"
  | debug => "DEBUG"
  | warn => "WARN"

/-- An entry of the journal. -/
structure Entry where
  level : Level
  text : String
deriving DecidableEq

/-- The shown form of an entry. -/
def Entry.display (e : Entry) : String :=
  e.level.name ++ " " ++ e.text

end TypedSql.Journal
