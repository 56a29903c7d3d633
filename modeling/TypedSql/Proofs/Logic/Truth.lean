import TypedSql.Sql.Tree

/-!
# Truth

Conditions are evaluated in a logic of three values, in which nothing may be known of a
condition.  The values are ordered, the unknown between failing and holding; a conjunction has
the smaller value of its two sides, a disjunction the larger one, and a negation turns the order
around.

A condition that is made of others has the value that they give it, whatever the values of the
conditions that are not (`Criterion.value`).
-/

namespace TypedSql.Sql

/-- The value of a condition. -/
inductive Truth where
  | fails
  | unknown
  | holds
deriving DecidableEq

namespace Truth

/-- The value of a literal. -/
def ofBool : Bool → Truth
  | false => fails
  | true => holds

/-- The negation of a value. -/
def not : Truth → Truth
  | fails => holds
  | unknown => unknown
  | holds => fails

/-- The conjunction of two values. -/
def and : Truth → Truth → Truth
  | fails, _ | _, fails => fails
  | holds, y => y
  | x, holds => x
  | unknown, unknown => unknown

/-- The disjunction of two values. -/
def or : Truth → Truth → Truth
  | holds, _ | _, holds => holds
  | fails, y => y
  | x, fails => x
  | unknown, unknown => unknown

@[simp]
theorem not_not (x : Truth) :
  x.not.not = x
  := by
  cases x <;> rfl

@[simp]
theorem holds_and (x : Truth) :
  holds.and x = x
  := by
  cases x <;> rfl

@[simp]
theorem and_holds (x : Truth) :
  x.and holds = x
  := by
  cases x <;> rfl

@[simp]
theorem fails_or (x : Truth) :
  fails.or x = x
  := by
  cases x <;> rfl

@[simp]
theorem or_fails (x : Truth) :
  x.or fails = x
  := by
  cases x <;> rfl

theorem and_assoc (x y z : Truth) :
  (x.and y).and z = x.and (y.and z)
  := by
  cases x <;> cases y <;> cases z <;> rfl

theorem or_assoc (x y z : Truth) :
  (x.or y).or z = x.or (y.or z)
  := by
  cases x <;> cases y <;> cases z <;> rfl

end Truth

/-! ### Connectives -/

namespace Connective

/-- The value of two conditions joined by a connective. -/
def apply : Connective → Truth → Truth → Truth
  | and => Truth.and
  | or => Truth.or

/-- The value of no conditions joined by a connective. -/
def unit : Connective → Truth
  | and => .holds
  | or => .fails

/-- The value of any number of conditions joined by a connective. -/
def fold (op : Connective) (xs : List Truth) : Truth :=
  xs.foldr op.apply op.unit

theorem fold_singleton (op : Connective) (x : Truth) :
  op.fold [x] = x
  := by
  cases op with
  | and => apply x.and_holds
  | or => apply x.or_fails

end Connective

/-! ### Conditions -/

mutual

/-- The value of a condition, when those that are not made of others have the values `v`. -/
def Criterion.value (v : Criterion → Truth) : Criterion → Truth
  | .combination op members => op.fold (Criterion.valueEach v members)
  | .negation c => (c.value v).not
  | c => v c

/-- The value of each of some conditions. -/
def Criterion.valueEach (v : Criterion → Truth) : List Criterion → List Truth
  | [] => []
  | c :: cs => c.value v :: Criterion.valueEach v cs

end

theorem Criterion.valueEach_eq_map (v : Criterion → Truth) (cs : List Criterion) :
  Criterion.valueEach v cs = cs.map (Criterion.value v)
  := by
  induction cs with
  | nil => rfl
  | cons c cs ih => rw [valueEach, ih, List.map_cons]

end TypedSql.Sql
