import TypedSql.Proofs.Logic.Truth
import TypedSql.Proofs.Tree.Part
import TypedSql.Proofs.Tree.Written
import TypedSql.Sql.Criterion

/-!
# Joined and negated conditions

Conditions are built up by connectives and by negation.  What is built is not always a node on top
of the conditions it is built of: a condition that is already joined by the same connective is
extended, and a negation becomes the negated form of an operator where there is one, or takes
another negation away.  The conditions that are built have the values they should have
(`Criterion.builders_sound`), and nothing in them changes its place.
-/

namespace TypedSql.Sql

namespace Connective

variable (op : Connective)

theorem apply_unit (x : Truth) :
  op.apply x op.unit = x
  := op.fold_singleton x

theorem unit_apply (x : Truth) :
  op.apply op.unit x = x
  := by
  cases op with
  | and => apply x.holds_and
  | or => apply x.fails_or

theorem apply_assoc (x y z : Truth) :
  op.apply (op.apply x y) z = op.apply x (op.apply y z)
  := by
  cases op with
  | and => apply x.and_assoc
  | or => apply x.or_assoc

/-- Another condition at the end of those that are joined is joined to their value. -/
theorem fold_append_singleton (xs : List Truth) (y : Truth) :
  op.fold (xs ++ [y]) = op.apply (op.fold xs) y
  := by
  induction xs with
  | nil =>
      apply (op.fold_singleton y).trans
      apply (op.unit_apply y).symm
  | cons x xs ih =>
      apply (congrArg (op.apply x) ih).trans
      apply (op.apply_assoc x _ y).symm

end Connective

namespace Criterion

/-! ### Values -/

/-- Whether an operator stands in its negated form. -/
def isNegated : Criterion → Bool
  | nullCheck _ negated => negated
  | member _ _ negated => negated
  | between _ _ _ negated => negated
  | like _ _ _ negated => negated
  | existence _ negated => negated
  | _ => false

/-- The condition with its operator in the plain form. -/
def plain : Criterion → Criterion
  | nullCheck operand _ => nullCheck operand false
  | member operand values _ => member operand values false
  | between operand low high _ => between operand low high false
  | like operand pattern escape _ => like operand pattern escape false
  | existence query _ => existence query false
  | c => c

/-- The values of conditions when those with an operator in its plain form have the values `v`: the
negated form means the negation of the plain one. -/
def signed (v : Criterion → Truth) (c : Criterion) : Truth :=
  if c.isNegated then (v c.plain).not else v c.plain

/-- Conditions that are joined have the value that the connective gives theirs. -/
theorem value_join (v : Criterion → Truth) (op : Connective) (c d : Criterion) :
  (c.join op d).value v = op.apply (c.value v) (d.value v)
  := by
  have hpair : (combination op [c, d]).value v = op.apply (c.value v) (d.value v) := by
    rw [value, valueEach_eq_map]
    apply congrArg (op.apply (c.value v)) (op.apply_unit _)
  unfold join
  split
  · rename_i op' members
    split
    · rename_i hop
      rw [value, value, valueEach_eq_map, valueEach_eq_map, hop, List.map_append,
        List.map_singleton, op.fold_append_singleton]
    · exact hpair
  · exact hpair

/-- The opposite condition has the opposite value. -/
theorem value_negate (v : Criterion → Truth) (c : Criterion) :
  c.negate.value (signed v) = (c.value (signed v)).not
  := by
  have hsigned (isNegated : Bool) (x : Truth) :
      (if !isNegated then x.not else x) = (if isNegated then x.not else x).not := by
    cases isNegated with
    | true => exact x.not_not.symm
    | false => rfl
  cases c with
  | nullCheck _ negated | member _ _ negated | between _ _ _ negated | like _ _ _ negated
  | existence _ negated => apply hsigned negated
  | negation c => exact (Truth.not_not _).symm
  | compare _ _ _ | combination _ _ | raw _ _ => rfl

/-- Negating twice changes nothing, unless a negation is taken away. -/
theorem negate_negate {c : Criterion} (h : ∀ d, c ≠ negation d) :
  c.negate.negate = c
  := by
  cases c with
  | nullCheck _ negated | member _ _ negated | between _ _ _ negated | like _ _ _ negated
  | existence _ negated => cases negated <;> rfl
  | negation d => cases h d rfl
  | compare _ _ _ | combination _ _ | raw _ _ => rfl

end Criterion

/-! ### Conditions that are not made of others -/

mutual

/-- The conditions in a condition that are not made of others, from the left to the right. -/
def Criterion.atoms : Criterion → List Criterion
  | .combination _ members => Criterion.atomsEach members
  | .negation c => c.atoms
  | c => [c]

/-- The same of each of some conditions. -/
def Criterion.atomsEach : List Criterion → List Criterion
  | [] => []
  | c :: cs => c.atoms ++ Criterion.atomsEach cs

end

namespace Criterion

theorem atomsEach_eq_flatMap (cs : List Criterion) :
  atomsEach cs = cs.flatMap atoms
  := by
  induction cs with
  | nil => rfl
  | cons c cs ih => rw [atomsEach, ih, List.flatMap_cons]

theorem atoms_join (op : Connective) (c d : Criterion) :
  (c.join op d).atoms = c.atoms ++ d.atoms
  := by
  have hpair : (combination op [c, d]).atoms = c.atoms ++ d.atoms := by
    rw [atoms, atomsEach_eq_flatMap]
    simp
  unfold join
  split
  · split
    · rw [atoms, atoms, atomsEach_eq_flatMap, atomsEach_eq_flatMap, List.flatMap_append,
        List.flatMap_singleton]
    · exact hpair
  · exact hpair

/-- A condition that others are joined to, one after the other. -/
def chain (c : Criterion) (ds : List (Connective × Criterion)) : Criterion :=
  ds.foldl (fun c e => c.join e.1 e.2) c

theorem atoms_chain (c : Criterion) (ds : List (Connective × Criterion)) :
  (c.chain ds).atoms = (c :: ds.map Prod.snd).flatMap atoms
  := by
  induction ds generalizing c with
  | nil => simp [chain]
  | cons d ds ih =>
      apply (ih _).trans
      simp only [List.map_cons, List.flatMap_cons, atoms_join, List.append_assoc]

end Criterion

/-! ### Arguments -/

namespace Emission

/-- Arguments, and others after them. -/
def both (x y : Except CompileError (List BoundArg)) : Except CompileError (List BoundArg) := do
  let as ← x
  let bs ← y
  return as ++ bs

theorem ok_nil_both (x : Except CompileError (List BoundArg)) :
  both (.ok []) x = x
  := by
  cases x <;> rfl

theorem both_ok_nil (x : Except CompileError (List BoundArg)) :
  both x (.ok []) = x
  := by
  cases x with
  | error e => rfl
  | ok as => exact congrArg Except.ok (List.append_nil as)

theorem both_assoc (x y z : Except CompileError (List BoundArg)) :
  both (both x y) z = both x (both y z)
  := by
  cases x with
  | error e => rfl
  | ok as =>
      cases y with
      | error e => rfl
      | ok bs =>
          cases z with
          | error e => rfl
          | ok cs => exact congrArg Except.ok (List.append_assoc as bs cs)

/-- The arguments that there are of each of some things, one after the other. -/
def gather {α : Type} (f : α → Except CompileError (List BoundArg)) (xs : List α) :
    Except CompileError (List BoundArg) :=
  (xs.mapM f).map List.flatten

theorem gather_cons {α : Type} (f : α → Except CompileError (List BoundArg)) (x : α)
    (xs : List α) :
  gather f (x :: xs) = both (f x) (gather f xs)
  := by
  rw [gather, gather, List.mapM_cons]
  cases f x with
  | error e => rfl
  | ok as => cases xs.mapM f <;> rfl

theorem gather_append {α : Type} (f : α → Except CompileError (List BoundArg)) (xs ys : List α) :
  gather f (xs ++ ys) = both (gather f xs) (gather f ys)
  := by
  induction xs with
  | nil => exact (ok_nil_both _).symm
  | cons x xs ih => rw [List.cons_append, gather_cons, ih, gather_cons, both_assoc]

theorem gather_singleton {α : Type} (f : α → Except CompileError (List BoundArg)) (x : α) :
  gather f [x] = f x
  := (gather_cons f x []).trans (both_ok_nil (f x))

theorem gather_map {α β : Type} (f : β → Except CompileError (List BoundArg)) (g : α → β)
    (xs : List α) :
  gather f (xs.map g) = gather (fun x => f (g x)) xs
  := by
  unfold gather
  rw [List.mapM_map]
  rfl

/-- What comes of an emission: its arguments, if they are kept, or an error. -/
def outcome (kept : Bool) (e : Emission) : Except CompileError (List BoundArg) :=
  match e.failure with
  | some f => .error f.error
  | none => .ok (if kept then e.args else [])

variable {kept : Bool} {binding : Binding}

theorem outcome_append (e f : Emission) :
  (e.append f).outcome kept = both (e.outcome kept) (f.outcome kept)
  := by
  obtain ⟨_, _, failure⟩ := e
  obtain ⟨_, _, failure'⟩ := f
  cases failure with
  | some _ => rfl
  | none =>
      cases failure' with
      | some _ => rfl
      | none => cases kept <;> rfl

theorem outcome_ofSteps_append (ss ts : List Step) :
  (ofSteps binding (ss ++ ts)).outcome kept
    = both ((ofSteps binding ss).outcome kept) ((ofSteps binding ts).outcome kept)
  := by
  rw [ofSteps_append, outcome_append]

theorem outcome_text (ctx : Context) (s : String) :
  (ofSteps binding (ctx.text s)).outcome kept = .ok []
  := by
  cases kept <;> rfl

theorem outcome_enclosed (ctx : Context) (ss : List Step) :
  (ofSteps binding (ctx.enclosed ss)).outcome kept = (ofSteps binding ss).outcome kept
  := by
  rw [Context.enclosed, outcome_ofSteps_append, outcome_ofSteps_append, outcome_text,
    outcome_text, ok_nil_both, both_ok_nil]

theorem outcome_enclosedForValidation (ctx : Context) (ss : List Step) :
  (ofSteps binding (ctx.enclosedForValidation ss)).outcome kept
    = (ofSteps binding ss).outcome kept
  := by
  unfold Context.enclosedForValidation
  split
  · apply outcome_enclosed
  · rfl

theorem outcome_separated (ctx : Context) (separator : String) (sss : List (List Step)) :
  (ofSteps binding (ctx.separated separator sss)).outcome kept
    = gather (fun ss => (ofSteps binding ss).outcome kept) sss
  := by
  induction sss with
  | nil => cases kept <;> rfl
  | cons ss sss ih =>
      cases sss with
      | nil => exact (gather_singleton (fun ss => (ofSteps binding ss).outcome kept) ss).symm
      | cons ts sss =>
          rw [gather_cons, ← ih, Context.separated, outcome_ofSteps_append,
            outcome_ofSteps_append, outcome_text, both_ok_nil]

end Emission

section

variable (kept : Bool) (binding : Binding) (ctx : Context)

/-- What comes of writing the steps of a condition. -/
def Criterion.outcome (c : Criterion) : Except CompileError (List BoundArg) :=
  (Emission.ofSteps binding (c.steps ctx)).outcome kept

theorem Criterion.outcome_combination (op : Connective) (members : List Criterion) :
  (combination op members).outcome kept binding ctx
    = Emission.gather (outcome kept binding ctx) members
  := by
  rw [outcome, steps]
  split
  · rename_i hempty
    rw [List.isEmpty_iff.mp hempty, Emission.outcome_text]
    rfl
  · rw [Emission.outcome_enclosedForValidation, Emission.outcome_enclosed,
      Emission.outcome_separated, stepsEach_eq_map, Emission.gather_map]
    rfl

theorem Criterion.outcome_join (op : Connective) (c d : Criterion) :
  (c.join op d).outcome kept binding ctx
    = Emission.both (c.outcome kept binding ctx) (d.outcome kept binding ctx)
  := by
  have hpair : (combination op [c, d]).outcome kept binding ctx
      = Emission.both (c.outcome kept binding ctx) (d.outcome kept binding ctx) := by
    rw [outcome_combination, Emission.gather_cons, Emission.gather_singleton]
  unfold join
  split
  · split
    · rw [outcome_combination, outcome_combination, Emission.gather_append,
        Emission.gather_singleton]
    · exact hpair
  · exact hpair

theorem Criterion.outcome_chain (c : Criterion) (ds : List (Connective × Criterion)) :
  (c.chain ds).outcome kept binding ctx
    = Emission.gather (outcome kept binding ctx) (c :: ds.map Prod.snd)
  := by
  induction ds generalizing c with
  | nil => exact (Emission.gather_singleton _ c).symm
  | cons d ds ih =>
      apply (ih _).trans
      rw [Emission.gather_cons, outcome_join, Emission.both_assoc, List.map_cons,
        Emission.gather_cons, Emission.gather_cons]

end

/-- The arguments of a compiled condition. -/
theorem Criterion.args_compileWith (c : Criterion) (o : Options) :
  ((Node.criterion c).compileWith o).map Statement.args
    = c.outcome o.withArguments o.binding ⟨o.version, Flags.none.union o.flags, false⟩
  := by
  rw [Node.compileWith_eq]
  change _ = Emission.outcome _ (Emission.ofSteps o.binding ((Node.criterion c).stepsWith o))
  rw [Emission.outcome]
  cases (Emission.ofSteps o.binding ((Node.criterion c).stepsWith o)).failure <;> rfl

/-! ### Builders -/

/-- The builders of conditions keep the meaning of what they build of.  A condition `c` and another
one have the conjunction or the disjunction of their values, and the opposite of `c` has the
opposite value; conditions that are joined to `c` one after the other keep their order, in the tree
and among the arguments; and what is negated twice is the condition itself, so that it is written as
this is. -/
theorem Criterion.builders_sound (v : Criterion → Truth) (c : Criterion) :
  (∀ d, (c.and d).value (signed v) = (c.value (signed v)).and (d.value (signed v)))
    ∧ (∀ d, (c.or d).value (signed v) = (c.value (signed v)).or (d.value (signed v)))
    ∧ c.negate.value (signed v) = (c.value (signed v)).not
    ∧ (∀ ds, (c.chain ds).atoms = (c :: ds.map Prod.snd).flatMap atoms
      ∧ ∀ o, ((Node.criterion (c.chain ds)).compileWith o).map Statement.args
        = ((c :: ds.map Prod.snd).mapM fun d =>
            ((Node.criterion d).compileWith o).map Statement.args).map List.flatten)
    ∧ ((∀ d, c ≠ negation d) → c.negate.negate = c)
  := by
  refine ⟨value_join _ .and c, value_join _ .or c, value_negate v c, ?_, negate_negate⟩
  intro ds
  use c.atoms_chain ds
  intro o
  simp only [args_compileWith]
  apply outcome_chain

/-- An age within bounds, which are bound in the order in which the conditions were joined, and an
age that is not without a lower bound has it. -/
theorem Criterion.builders_sound_age :
  ((Node.criterion (.combination .and
        [.raw "age >= ?" [.integer 18], .raw "age < ?" [.integer 65]])).compileWith .standard).map
      Statement.args
      = .ok [.value (.integer 18), .value (.integer 65)]
    ∧ negate (negate (.raw "age >= ?" [.integer 18])) = .raw "age >= ?" [.integer 18]
  := by
  have hsound := builders_sound (fun _ => .unknown) (.raw "age >= ?" [.integer 18])
  constructor
  · apply ((hsound.2.2.2.1 [(.and, .raw "age < ?" [.integer 65])]).2 .standard).trans
    rfl
  · apply hsound.2.2.2.2
    rintro d ⟨⟩

end TypedSql.Sql
