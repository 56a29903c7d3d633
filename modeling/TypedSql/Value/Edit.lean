import TypedSql.Value.Store

/-!
# Edits of stores

The changes that can be made to a store, as data, so that what a store has been through can be
spoken about.
-/

namespace TypedSql.Store

/-- A change of a store. -/
inductive Edit where
  | put (k : String) (v : Value)
  /-- Every entry of another store is put in, in the order of that store. -/
  | overlay (t : Store)
  | remove (k : String)
  | clear

/-- A store after an edit. -/
def after (s : Store) : Edit → Store
  | .put k v => s.put k v
  | .overlay t => s.overlay t
  | .remove k => s.remove k
  | .clear => .empty

/-- A store after edits, one after the other. -/
def run (s : Store) (edits : List Edit) : Store :=
  edits.foldl after s

end TypedSql.Store
