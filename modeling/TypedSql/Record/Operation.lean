import TypedSql.Record.Model

/-!
# Operations on models

The operations that write into a model, as data.  Columns are set or read together from a
store, a map or another row; each operation takes the columns that are listed, as far as there
is a value for them, and fails as a whole when one of the values does not cast.
-/

namespace TypedSql.Record

open Sql (Column)

/-- A way of setting columns of a model. -/
inductive Setting where
  /-- One column to a value. -/
  | value (c : Column) (v : Value)
  /-- The listed columns that a store has values for. -/
  | store (s : Store) (cs : List Column)
  /-- The listed columns that a map has values for. -/
  | map (values : String → Option Value) (cs : List Column)
  /-- The listed columns that another model, as it is then, has values for. -/
  | model (spec : Spec) (m : Model) (cs : List Column)

/-- A way of reading columns of a model. -/
inductive Reading where
  /-- The listed columns that a source has. -/
  | source (source : RowSource) (cs : List Column)
  /-- Every column of a source, in place of what was read before. -/
  | whole (source : RowSource)
  /-- The listed columns that a store has values for. -/
  | store (s : Store) (cs : List Column)
  /-- The listed columns that a map has values for. -/
  | map (values : String → Option Value) (cs : List Column)

/-- An operation that writes into a model. -/
inductive Operation where
  | set (s : Setting)
  | read (r : Reading)
  | markSaved
  | clear
  | clearValue (c : Column)

namespace Setting

/-- The columns that are listed. -/
def columns : Setting → List Column
  | value c _ => [c]
  | store _ cs | map _ cs | model _ _ cs => cs

/-- The model after its columns are set. -/
def apply (spec : Spec) (m : Model) : Setting → Except CoercionError Model
  | value c v => m.set spec c v
  | store s cs => m.setFromStore spec s cs
  | map values cs => m.setFromMap spec values cs
  | model spec' m' cs => m.setFromModel spec spec' m' cs

/-- The columns that are set and the values they are set to, cast to their kinds. -/
def casts (spec : Spec) : Setting → Except CoercionError (List (Column × Value))
  | value c v => (c.cast v).map fun w => [(c, w)]
  | store s cs => Model.castEach (Model.findIn spec s) cs
  | map values cs => Model.castEach (fun c => values (c.storageKey spec.owner)) cs
  | model spec' m' cs => Model.castEach (m'.lookup spec') cs

/-- Where the values of columns are looked up. -/
def find (spec : Spec) : Setting → Column → Option Value
  | value _ v => fun _ => some v
  | store s _ => Model.findIn spec s
  | map values _ => fun c => values (c.storageKey spec.owner)
  | model spec' m' _ => m'.lookup spec'

/-- All values are cast before any is recorded. -/
theorem apply_eq (spec : Spec) (m : Model) (s : Setting) :
  s.apply spec m = (s.casts spec).map (m.commitAll spec)
  := by
  cases s with
  | value c v =>
      rw [apply, casts, Model.set]
      cases c.cast v <;> rfl
  | store s cs => rfl
  | map values cs => rfl
  | model spec' m' cs => rfl

theorem casts_eq (spec : Spec) (s : Setting) :
  s.casts spec = Model.castEach (s.find spec) s.columns
  := by
  cases s with
  | value c v =>
      rw [casts, columns, Model.castEach]
      dsimp only [find]
      cases c.cast v <;> rfl
  | store s cs => rfl
  | map values cs => rfl
  | model spec' m' cs => rfl

end Setting

namespace Reading

/-- The columns that are listed. -/
def columns : Reading → List Column
  | whole s => s.columns
  | source _ cs | store _ cs | map _ cs => cs

/-- The model after its columns are read. -/
def apply (spec : Spec) (m : Model) : Reading → Except CoercionError Model
  | source s cs => m.readFromSource spec s cs
  | whole s => Model.readAllFromSource spec s
  | store s cs => m.readFromStore spec s cs
  | map values cs => m.readFromMap spec values cs

/-- Where the values of columns are looked up. -/
def find (spec : Spec) : Reading → Column → Option Value
  | source s _ | whole s => Model.findFrom s
  | store s _ => Model.findIn spec s
  | map values _ => fun c => values (c.storageKey spec.owner)

/-- What is read is staged before anything of the model changes. -/
theorem apply_eq (spec : Spec) (m : Model) (r : Reading) :
  r.apply spec m = (Model.stageEach spec (r.find spec) r.columns {}).map fun s =>
    match r with
    | whole _ => Model.replaceBy s
    | source _ _ | store _ _ | map _ _ => m.mergeIn s
  := by
  cases r <;> rfl

end Reading

namespace Operation

/-- The columns that an operation is about. -/
def columns : Operation → List Column
  | set s => s.columns
  | read r => r.columns
  | markSaved | clear => []
  | clearValue c => [c]

/-- The model after an operation. -/
def apply (spec : Spec) (m : Model) : Operation → Except CoercionError Model
  | set s => s.apply spec m
  | read r => r.apply spec m
  | markSaved => .ok m.markSaved
  | clear => .ok .empty
  | clearValue c => .ok (m.clearValue spec c)

end Operation

end TypedSql.Record
