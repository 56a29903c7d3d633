import TypedSql.Record.Model

/-!
# What operations on models tell

The journal entries of the operations that write into a model.
-/

namespace TypedSql.Record.Model

open Sql (Column)

/-- The entry for a value that is not recorded, because the database has it already. -/
def commitJournal (spec : Spec) (m : Model) (c : Column) (v : Value) : List Journal.Entry :=
  let key := c.storageKey spec.owner
  if c.belongsTo spec.owner && !m.records key v then
    [⟨.debug, spec.name ++ ": '" ++ key ++ "' already holds " ++ v.display ++
      ", not marking it dirty"⟩]
  else []

/-- The entries of recording values one after the other. -/
def commitAllJournal (spec : Spec) : Model → List (Column × Value) → List Journal.Entry
  | _, [] => []
  | m, (c, v) :: r => m.commitJournal spec c v ++ commitAllJournal spec (m.commit spec c v) r

/-- The entries of setting a column. -/
def setJournal (spec : Spec) (m : Model) (c : Column) (v : Value) : List Journal.Entry :=
  match c.cast v with
  | .ok w => m.commitJournal spec c w
  | .error _ => []

/-- The entries of setting the listed columns for which a lookup finds a value. -/
def setEachJournal (spec : Spec) (m : Model) (find : Column → Option Value)
    (cs : List Column) : List Journal.Entry :=
  match castEach find cs with
  | .ok vs => m.commitAllJournal spec vs
  | .error _ => []

/-- The entries about columns that a source has without having values for them, up to the
first value that does not cast. -/
def missingJournal (spec : Spec) (source : RowSource) :
    List Column → Staged → List Journal.Entry
  | [], _ => []
  | c :: cs, s =>
    if source.has c then
      match source.get? c with
      | some v =>
        match stage spec s c v with
        | .ok t => missingJournal spec source cs t
        | .error _ => []
      | none =>
        ⟨.warn, spec.name ++ ": row reports column '" ++ c.selectName ++
          "' but has no value for it"⟩ :: missingJournal spec source cs s
    else missingJournal spec source cs s

/-- The entries of reading the listed columns from a source. -/
def readSourceJournal (spec : Spec) (source : RowSource) (cs : List Column) :
    List Journal.Entry :=
  ⟨.trace, spec.name ++ ": reading " ++ toString cs.length ++ " columns from row"⟩ ::
    missingJournal spec source cs {}

/-- The entries of reading the listed columns from a store. -/
def readStoreJournal (spec : Spec) (cs : List Column) : List Journal.Entry :=
  [⟨.trace, spec.name ++ ": reading " ++ toString cs.length ++ " columns from values"⟩]

end TypedSql.Record.Model
