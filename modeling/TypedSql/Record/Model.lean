import TypedSql.Record.Row
import TypedSql.Record.Spec

/-!
# Models

A model is a row of a row type, made of layers.  The values set by the caller lie over the
values read from the database, which lie over the defaults of the row type.  Columns of other
tables have a layer of their own and no defaults.  Values are cast to the kind of their
column when they are written and when they are read.

A layer may be absent, which differs from being there without entries only in how it is shown.
Every operation takes the row type with the defaults in force.
-/

namespace TypedSql.Record

open Sql (Column TableId)

/-- The layers of a row. -/
structure Model where
  /-- What the caller has set since the row was last saved. -/
  pending : Option Store := none
  /-- What was read from the database, or has been saved to it. -/
  database : Option Store := none
  /-- What was read or set for columns of other tables. -/
  foreign : Option Store := none
  /-- Data that is not part of the row and that reading a row discards. -/
  transitory : Option (List (String × Value)) := none

/-- Why a value cannot be given or taken. -/
inductive ModelError where
  | coercion (e : CoercionError)
  /-- No layer has a value for the column. -/
  | valueNotFound (model key : String)
deriving DecidableEq

namespace ModelError

/-- The code of an error. -/
def code : ModelError → Diagnostic.Code
  | coercion e => e.code
  | valueNotFound _ _ => .valueNotFound

/-- The message of an error. -/
def message : ModelError → String
  | coercion e => e.message
  | valueNotFound model key => "Model " ++ model ++ " has no value for '" ++ key ++ "'"

/-- The report on an error. -/
def report : ModelError → Diagnostic.Report
  | coercion e => e.report
  | valueNotFound model key =>
    (Diagnostic.Report.model .valueNotFound (valueNotFound model key).message none).withKey key

end ModelError

/-- The layer with an entry put in; an absent layer comes into being. -/
def putLayer (layer : Option Store) (key : String) (v : Value) : Option Store :=
  some ((layer.getD .empty).put key v)

/-- The value under a key of a layer. -/
def getLayer? (layer : Option Store) (key : String) : Option Value :=
  layer.bind fun s => s.get? key

namespace Model

/-- The row without any layer. -/
def empty : Model := {}

/-! ### Asking for values -/

/-- The value of a column before it is cast, from the topmost layer that has one. -/
def lookup (spec : Spec) (m : Model) (c : Column) : Option Value :=
  let key := c.storageKey spec.owner
  if c.belongsTo spec.owner then
    ((getLayer? m.pending key).or (getLayer? m.database key)).or (spec.default? key)
  else getLayer? m.foreign key

/-- The value of a column, cast to the kind of the column, if any layer has one. -/
def tryGet (spec : Spec) (m : Model) (c : Column) : Except CoercionError (Option Value) :=
  match m.lookup spec c with
  | some v => (c.cast v).map some
  | none => .ok none

/-- The value of a column, cast to the kind of the column. -/
def get (spec : Spec) (m : Model) (c : Column) : Except ModelError Value :=
  match m.tryGet spec c with
  | .ok (some v) => .ok v
  | .ok none => .error (.valueNotFound spec.name (c.storageKey spec.owner))
  | .error e => .error (.coercion e)

/-- The value of a column as a member of a type. -/
def getAs (α : Type) [ColumnType α] (spec : Spec) (m : Model) (c : Column) :
    Except ModelError α :=
  (m.get spec c).bind fun v => (v.extract α).mapError .coercion

/-- The value of a column as a member of a type, or nothing for null. -/
def getAsOption (α : Type) [ColumnType α] (spec : Spec) (m : Model) (c : Column) :
    Except ModelError (Option α) :=
  (m.get spec c).bind fun v => (v.extractOption α).mapError .coercion

/-- The values that the layers of the row itself have for a column, the topmost first. -/
def instanceValues (spec : Spec) (m : Model) (c : Column) : List Value :=
  let key := c.storageKey spec.owner
  if c.belongsTo spec.owner then
    (getLayer? m.pending key).toList ++ (getLayer? m.database key).toList
  else (getLayer? m.foreign key).toList

/-- Whether a value was set or read for a column. -/
def containsValue (spec : Spec) (m : Model) (c : Column) : Bool :=
  !(m.instanceValues spec c).isEmpty

/-- Whether the value set or the value read for a column is not null. -/
def containsNonNullValue (spec : Spec) (m : Model) (c : Column) : Bool :=
  (m.instanceValues spec c).any fun v => !v.isNull

/-- Whether a column of the row's own table has been set since the row was last saved. -/
def isDirty (spec : Spec) (m : Model) (c : Column) : Bool :=
  c.belongsTo spec.owner && (getLayer? m.pending c.expression).isSome

/-- Whether anything has been set since the row was last saved. -/
def isModified (m : Model) : Bool :=
  match m.pending with
  | some s => !s.isEmpty
  | none => false

/-- The defaults under the values read under the values set. -/
def merged (spec : Spec) (m : Model) : Store :=
  (spec.defaults.overlay (m.database.getD .empty)).overlay (m.pending.getD .empty)

/-- Whether two rows are of one table and have the same merged values. -/
def agrees (spec : Spec) (m : Model) (spec' : Spec) (m' : Model) : Bool :=
  spec.owner == spec'.owner && (m.merged spec).agrees (m'.merged spec')

/-- The atoms of which the hash of a row is made. -/
def fingerprint (spec : Spec) (m : Model) : List Atom :=
  .text spec.owner.model :: .text spec.owner.table :: (m.merged spec).fingerprint

/-- The text by which messages refer to a row. -/
def display (spec : Spec) (m : Model) : String :=
  let layer (s : Option Store) := (s.getD .empty).display
  spec.name ++ " \x7bset: " ++ layer m.pending ++ ", values: " ++ layer m.database ++ "\x7d"

/-- The row as a source of other rows. -/
def source (spec : Spec) (m : Model) : RowSource where
  has c := (m.lookup spec c).isSome
  get? := m.lookup spec
  columns := spec.columns

/-! ### Setting values -/

/-- Whether setting a column of the row's own table to a value has to be recorded: not when the
database has that value already and nothing else is pending. -/
def records (m : Model) (key : String) (v : Value) : Bool :=
  (getLayer? m.pending key).isSome ||
    match getLayer? m.database key with
    | some w => !w.agrees v
    | none => true

/-- Records a value that is cast already. -/
def commit (spec : Spec) (m : Model) (c : Column) (v : Value) : Model :=
  let key := c.storageKey spec.owner
  if c.belongsTo spec.owner then
    if m.records key v then { m with pending := putLayer m.pending key v } else m
  else { m with foreign := putLayer m.foreign key v }

/-- Sets a column to a value. -/
def set (spec : Spec) (m : Model) (c : Column) (v : Value) : Except CoercionError Model :=
  (c.cast v).map fun w => m.commit spec c w

/-- The listed columns for which a lookup finds a value, with these values cast.  The first
value that does not cast is an error. -/
def castEach (find : Column → Option Value) :
    List Column → Except CoercionError (List (Column × Value))
  | [] => .ok []
  | c :: cs =>
    match find c with
    | none => castEach find cs
    | some v => do
      let w ← c.cast v
      let r ← castEach find cs
      return (c, w) :: r

/-- Records values that are cast already, from the first on. -/
def commitAll (spec : Spec) (m : Model) (vs : List (Column × Value)) : Model :=
  vs.foldl (fun m e => m.commit spec e.1 e.2) m

/-- Sets the listed columns for which a lookup finds a value.  All values are cast before any
is recorded. -/
def setEach (spec : Spec) (m : Model) (find : Column → Option Value) (cs : List Column) :
    Except CoercionError Model :=
  (castEach find cs).map (m.commitAll spec)

/-- The lookup of columns by their storage keys in a store. -/
def findIn (spec : Spec) (s : Store) (c : Column) : Option Value :=
  s.get? (c.storageKey spec.owner)

/-- Sets the listed columns that a store has values for. -/
def setFromStore (spec : Spec) (m : Model) (s : Store) (cs : List Column) :
    Except CoercionError Model :=
  m.setEach spec (findIn spec s) cs

/-- Sets the listed columns that a map has values for. -/
def setFromMap (spec : Spec) (m : Model) (values : String → Option Value) (cs : List Column) :
    Except CoercionError Model :=
  m.setEach spec (fun c => values (c.storageKey spec.owner)) cs

/-- Sets the listed columns that another row has values for. -/
def setFromModel (spec : Spec) (m : Model) (spec' : Spec) (m' : Model) (cs : List Column) :
    Except CoercionError Model :=
  m.setEach spec (m'.lookup spec') cs

/-- Removes the values set and read for a column. -/
def clearValue (spec : Spec) (m : Model) (c : Column) : Model :=
  let key := c.storageKey spec.owner
  if c.belongsTo spec.owner then
    { m with
      pending := m.pending.map fun s => s.remove key
      database := m.database.map fun s => s.remove key }
  else { m with foreign := m.foreign.map fun s => s.remove key }

/-! ### Reading rows -/

/-- Values that have been read and are waiting to be recorded. -/
structure Staged where
  native : Store := .empty
  foreign : Store := .empty

/-- Stages the value of a column. -/
def stage (spec : Spec) (s : Staged) (c : Column) (v : Value) : Except CoercionError Staged :=
  if c.belongsTo spec.owner then
    (save .native c v s.native).map fun t => { s with native := t }
  else (save .foreign c v s.foreign).map fun t => { s with foreign := t }

/-- Stages the values that a lookup finds for the listed columns. -/
def stageEach (spec : Spec) (find : Column → Option Value) :
    List Column → Staged → Except CoercionError Staged
  | [], s => .ok s
  | c :: cs, s =>
    match find c with
    | none => stageEach spec find cs s
    | some v => do
      let t ← stage spec s c v
      stageEach spec find cs t

/-- Replaces what was read by what is staged. -/
def replaceBy (s : Staged) : Model where
  database := some s.native
  foreign := some s.foreign

/-- Adds what is staged to what was read.  Pending values and transitory data are discarded. -/
def mergeIn (m : Model) (s : Staged) : Model where
  database := some ((m.database.getD .empty).overlay s.native)
  foreign := some ((m.foreign.getD .empty).overlay s.foreign)

/-- The lookup of columns in a source, restricted to the columns that it has. -/
def findFrom (source : RowSource) (c : Column) : Option Value :=
  if source.has c then source.get? c else none

/-- Reads the listed columns from a source. -/
def readFromSource (spec : Spec) (m : Model) (source : RowSource) (cs : List Column) :
    Except CoercionError Model :=
  (stageEach spec (findFrom source) cs {}).map m.mergeIn

/-- Reads every column of a source in place of what was read before. -/
def readAllFromSource (spec : Spec) (source : RowSource) : Except CoercionError Model :=
  (stageEach spec (findFrom source) source.columns {}).map replaceBy

/-- Reads the listed columns that a store has values for. -/
def readFromStore (spec : Spec) (m : Model) (s : Store) (cs : List Column) :
    Except CoercionError Model :=
  (stageEach spec (findIn spec s) cs {}).map m.mergeIn

/-- Reads the listed columns that a map has values for. -/
def readFromMap (spec : Spec) (m : Model) (values : String → Option Value) (cs : List Column) :
    Except CoercionError Model :=
  (stageEach spec (fun c => values (c.storageKey spec.owner)) cs {}).map m.mergeIn

/-! ### Saving and clearing -/

/-- The row after it was saved: what was pending is in the database. -/
def markSaved (m : Model) : Model :=
  match m.pending with
  | none => m
  | some s =>
    { m with
      pending := none
      database := some (match m.database with
        | some d => d.overlay s
        | none => s) }

/-! ### Transitory data -/

/-- The value of a transitory key. -/
def transitory? (m : Model) (key : String) : Option Value :=
  m.transitory.bind fun t => Assoc.get? key t

/-- The value of a transitory key, if it is of the given kind, or null where none is given. -/
def transitoryOfKind? (m : Model) (key : String) (kind : Option Kind) : Option Value :=
  (m.transitory? key).filter fun v => v.kind? == kind

/-- Attaches a transitory value. -/
def putTransitory (m : Model) (key : String) (v : Value) : Model :=
  { m with transitory := some (Assoc.put key v (m.transitory.getD [])) }

/-- Removes a transitory value. -/
def clearTransitory (m : Model) (key : String) : Model :=
  { m with transitory := m.transitory.map (Assoc.remove key) }

/-- Whether a transitory value is attached. -/
def hasTransitory (m : Model) (key : String) : Bool :=
  (m.transitory? key).isSome

/-- The transitory keys in alphabetical order. -/
def transitoryKeys (m : Model) : List String :=
  ((m.transitory.getD []).map Prod.fst).mergeSort fun a b => decide (a ≤ b)

end Model

end TypedSql.Record
