import TypedSql.Record.Operation

/-!
# Operations in place

The operations that write into a model can also be carried out bit by bit on the model itself.
Values are cast one at a time, the values that have been cast are gathered beside the model, and
its layers are changed one after the other.  What is being done stops at the first value that does
not cast, and everything stays as it is then.

Values are saved in a store, and defaults are overridden, in the same manner.
-/

namespace TypedSql.Record

open Sql (Column)

/-- What is done to a state, which may fail. -/
abbrev Change (σ : Type) := EStateM CoercionError σ

namespace Change

variable {σ τ α : Type}

/-- What comes of a change: the state after it, or its error. -/
def outcome (x : Change σ Unit) (s : σ) : Except CoercionError σ :=
  match x s with
  | .ok _ s => .ok s
  | .error e _ => .error e

/-- Goes on with a result, or fails with its error. -/
def ofExcept : Except CoercionError α → Change σ α
  | .ok a => pure a
  | .error e => throw e

/-- Changes a part of a state. -/
def onPart (part : σ → τ) (replace : σ → τ → σ) (x : Change τ Unit) :
    Change σ Unit := fun s =>
  match x (part s) with
  | .ok _ t => .ok () (replace s t)
  | .error e t => .error e (replace s t)

/-! ### Saving -/

/-- Saves a value, cast to the kind of its column, in a store. -/
def save (mode : KeyMode) (c : Column) (v : Value) : Change Store Unit := do
  if v.isNull then
    modify fun s => s.put (mode.key c) .null
  else
    let w ← ofExcept (c.cast v)
    modify fun s => s.put (mode.key c) w

/-- Overrides the default of a column. -/
def overrideDefault (c : Column) (v : Value) : Change Spec Unit :=
  onPart Spec.defaults (fun spec s => { spec with defaults := s }) (save .native c v)

/-! ### Setting values -/

/-- Records a value that is cast already. -/
def commit (spec : Spec) (c : Column) (v : Value) : Change Model Unit := do
  let key := c.storageKey spec.owner
  if c.belongsTo spec.owner then
    if (← get).records key v then
      modify fun m => { m with pending := putLayer m.pending key v }
  else
    modify fun m => { m with foreign := putLayer m.foreign key v }

/-- Sets a column to a value. -/
def set (spec : Spec) (c : Column) (v : Value) : Change Model Unit := do
  let w ← ofExcept (c.cast v)
  commit spec c w

/-- Gathers the values that a lookup finds for the listed columns, cast to their kinds. -/
def castEach (find : Column → Option Value) (cs : List Column) :
    Change (List (Column × Value)) Unit :=
  cs.forM fun c =>
    match find c with
    | some v => do
      let w ← ofExcept (c.cast v)
      modify fun vs => vs ++ [(c, w)]
    | none => pure ()

/-- Sets the listed columns for which a lookup finds a value. -/
def setEach (spec : Spec) (find : Column → Option Value) (cs : List Column) :
    Change Model Unit := do
  let vs ← ofExcept ((castEach find cs).outcome [])
  vs.forM fun e => commit spec e.1 e.2

/-! ### Reading rows -/

/-- Stages the value of a column. -/
def stage (spec : Spec) (c : Column) (v : Value) : Change Model.Staged Unit :=
  if c.belongsTo spec.owner then
    onPart Model.Staged.native (fun s t => { s with native := t }) (save .native c v)
  else onPart Model.Staged.foreign (fun s t => { s with foreign := t }) (save .foreign c v)

/-- Stages the values that a lookup finds for the listed columns. -/
def stageEach (spec : Spec) (find : Column → Option Value) (cs : List Column) :
    Change Model.Staged Unit :=
  cs.forM fun c =>
    match find c with
    | some v => stage spec c v
    | none => pure ()

/-- Records what is staged, in place of what was read before or over it. -/
def commitRead (s : Model.Staged) (replace : Bool) : Change Model Unit := do
  modify fun m => { m with pending := none }
  modify fun m => { m with transitory := none }
  if replace then
    modify fun m => { m with database := some s.native }
    modify fun m => { m with foreign := some s.foreign }
  else
    modify fun m => { m with database := some ((m.database.getD .empty).overlay s.native) }
    modify fun m => { m with foreign := some ((m.foreign.getD .empty).overlay s.foreign) }

/-- Reads the listed columns for which a lookup finds a value. -/
def readEach (spec : Spec) (find : Column → Option Value) (cs : List Column) (replace : Bool) :
    Change Model Unit := do
  let s ← ofExcept ((stageEach spec find cs).outcome {})
  commitRead s replace

end Change

/-- Sets columns of a model in place. -/
def Setting.write (spec : Spec) : Setting → Change Model Unit
  | value c v => Change.set spec c v
  | store s cs => Change.setEach spec (Model.findIn spec s) cs
  | map values cs => Change.setEach spec (fun c => values (c.storageKey spec.owner)) cs
  | model spec' m' cs => Change.setEach spec (m'.lookup spec') cs

/-- Reads columns of a model in place. -/
def Reading.write (spec : Spec) : Reading → Change Model Unit
  | source s cs => Change.readEach spec (Model.findFrom s) cs false
  | whole s => Change.readEach spec (Model.findFrom s) s.columns true
  | store s cs => Change.readEach spec (Model.findIn spec s) cs false
  | map values cs => Change.readEach spec (fun c => values (c.storageKey spec.owner)) cs false

end TypedSql.Record
