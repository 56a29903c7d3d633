import TypedSql.Record.Operation

/-!
# Families of models

The models of one row type share its defaults.  A family is a row type with its models as they
are at a time; what happens in a family makes a new model, writes into one of them, or changes
the defaults that all of them see.  What fails changes nothing.

A model that another one is set from or read from comes with the operation, as it is then, so
that it can be of the same family or of any other.
-/

namespace TypedSql.Record

open Sql (Column TableId)

/-- A row type, and the models of it. -/
structure Family where
  spec : Spec
  models : List Model

namespace Family

/-- What can happen in a family. -/
inductive Event where
  | instantiate
  /-- An operation on the model number `i`. -/
  | operate (i : Nat) (op : Operation)
  | overrideDefault (c : Column) (v : Value)
  | clearDefault (c : Column)

/-- The columns that an event is about. -/
def Event.columns : Event → List Column
  | instantiate => []
  | operate _ op => op.columns
  | overrideDefault c _ | clearDefault c => [c]

/-- Whether an event changes the defaults of columns of the row type alone. -/
def Event.isNative (owner : TableId) : Event → Bool
  | instantiate | operate _ _ => true
  | overrideDefault c _ | clearDefault c => c.belongsTo owner

/-- A family after an operation on one of its models. -/
def operate (f : Family) (i : Nat) (op : Operation) : Family :=
  match f.models[i]? with
  | none => f
  | some m =>
    match op.apply f.spec m with
    | .ok m' => { f with models := f.models.set i m' }
    | .error _ => f

/-- A family after an event. -/
def after (f : Family) : Event → Family
  | .instantiate => { f with models := f.models ++ [.empty] }
  | .operate i op => f.operate i op
  | .overrideDefault c v =>
    match f.spec.overrideDefault c v with
    | .ok spec => { f with spec := spec }
    | .error _ => f
  | .clearDefault c => { f with spec := f.spec.clearDefault c }

/-- A family after events. -/
def run (f : Family) (events : List Event) : Family :=
  events.foldl after f

end Family

end TypedSql.Record
