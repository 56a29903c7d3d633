import Mathlib.Tactic.Common
import TypedSql.Sql.Rendering

/-!
# Redaction

Two trees differ only in the contents of their texts when they are the same after redaction,
which empties every text among the values of operands and lists.  Names, raw SQL with its
values, and the escape character of a pattern stay as they are.

Redaction does not change the shape of what a tree is rendered to: the steps of the redacted
tree are those of the tree, up to the contents of texts (`Node.map_redact_steps`).
-/

namespace TypedSql

/-- The value without the content of a text. -/
def Value.redact : Value → Value
  | text _ => text ""
  | v => v

theorem Value.redact_redact (v : Value) :
  v.redact.redact = v.redact
  := by
  cases v <;> rfl

namespace Sql

mutual

/-- The operand without the contents of its texts. -/
def Operand.redact : Operand → Operand
  | .node n => .node n.redact
  | .list vs => .list (vs.map Value.redact)
  | .value v => .value v.redact

/-- An operand without the contents of its texts, when there is one. -/
def Operand.redactOption : Option Operand → Option Operand
  | none => none
  | some x => some x.redact

/-- Operands without the contents of their texts. -/
def Operand.redactEach : List Operand → List Operand
  | [] => []
  | x :: xs => x.redact :: Operand.redactEach xs

/-- Rows of operands without the contents of their texts. -/
def Operand.redactRows : List (List Operand) → List (List Operand)
  | [] => []
  | r :: rs => Operand.redactEach r :: Operand.redactRows rs

/-- Assignments without the contents of their texts. -/
def Operand.redactAssigned : List (String × Operand) → List (String × Operand)
  | [] => []
  | (name, x) :: r => (name, x.redact) :: Operand.redactAssigned r

/-- The node without the contents of its texts. -/
def Node.redact : Node → Node
  | .column c => .column c
  | .table t => .table t
  | .criterion c => .criterion c.redact
  | .computed e => .computed e.redact
  | .query q => .query q.redact
  | .insert i => .insert i.redact
  | .update u => .update u.redact
  | .delete d => .delete d.redact

/-- The condition without the contents of its texts. -/
def Criterion.redact : Criterion → Criterion
  | .compare left op right => .compare left.redact op right.redact
  | .nullCheck operand negated => .nullCheck operand.redact negated
  | .member operand values negated => .member operand.redact values.redact negated
  | .between operand low high negated =>
    .between operand.redact low.redact high.redact negated
  | .like operand pattern escape negated =>
    .like operand.redact pattern.redact escape negated
  | .existence query negated => .existence query.redact negated
  | .combination op members => .combination op (Criterion.redactEach members)
  | .negation c => .negation c.redact
  | .raw s args => .raw s args

/-- A condition without the contents of its texts, when there is one. -/
def Criterion.redactOption : Option Criterion → Option Criterion
  | none => none
  | some c => some c.redact

/-- Conditions without the contents of their texts. -/
def Criterion.redactEach : List Criterion → List Criterion
  | [] => []
  | c :: cs => c.redact :: Criterion.redactEach cs

/-- The computed expression without the contents of its texts. -/
def Computed.redact : Computed → Computed
  | .call name args distinct => .call name (Operand.redactEach args) distinct
  | .countAll => .countAll
  | .arithmetic op left right => .arithmetic op left.redact right.redact
  | .raw s => .raw s

/-- The entry of a select list without the contents of its texts. -/
def SelectItem.redact : SelectItem → SelectItem
  | .column c => .column c
  | .computed expression name => .computed expression.redact name
  | .all => .all
  | .allOf t => .allOf t

/-- A select list without the contents of its texts. -/
def SelectItem.redactEach : List SelectItem → List SelectItem
  | [] => []
  | f :: fs => f.redact :: SelectItem.redactEach fs

/-- The source without the contents of its texts. -/
def Source.redact : Source → Source
  | .table t => .table t
  | .subquery query name => .subquery query.redact name

/-- A source without the contents of its texts, when there is one. -/
def Source.redactOption : Option Source → Option Source
  | none => none
  | some s => some s.redact

/-- The join without the contents of its texts. -/
def Join.redact : Join → Join
  | ⟨kind, source, on, shared⟩ => ⟨kind, source.redact, Criterion.redactOption on, shared⟩

/-- Joins without the contents of their texts. -/
def Join.redactEach : List Join → List Join
  | [] => []
  | j :: js => j.redact :: Join.redactEach js

/-- The term of an ordering without the contents of its texts. -/
def Order.redact : Order → Order
  | ⟨operand, direction, nulls⟩ => ⟨operand.redact, direction, nulls⟩

/-- An ordering without the contents of its texts. -/
def Order.redactEach : List Order → List Order
  | [] => []
  | o :: os => o.redact :: Order.redactEach os

/-- The query without the contents of its texts. -/
def Query.redact : Query → Query
  | ⟨fields, distinct, source, joins, filters, groups, having, orders, limit, offset,
      compounds, validated⟩ =>
    ⟨SelectItem.redactEach fields, distinct, Source.redactOption source,
      Join.redactEach joins, Criterion.redactEach filters, Operand.redactEach groups,
      Criterion.redactEach having, Order.redactEach orders, Operand.redactOption limit,
      Operand.redactOption offset, Query.redactCompounds compounds, validated⟩

/-- A query without the contents of its texts, when there is one. -/
def Query.redactOption : Option Query → Option Query
  | none => none
  | some q => some q.redact

/-- The members of a compound without the contents of their texts. -/
def Query.redactCompounds : List (Compounding × Query) → List (Compounding × Query)
  | [] => []
  | (op, q) :: r => (op, q.redact) :: Query.redactCompounds r

/-- The insertion without the contents of its texts. -/
def Insert.redact : Insert → Insert
  | ⟨table, columns, rows, select, useDefaults, conflict⟩ =>
    ⟨table, columns, Operand.redactRows rows, Query.redactOption select, useDefaults, conflict⟩

/-- The update without the contents of its texts. -/
def Update.redact : Update → Update
  | ⟨table, assignments, filters, conflict⟩ =>
    ⟨table, Operand.redactAssigned assignments, Criterion.redactEach filters, conflict⟩

/-- The deletion without the contents of its texts. -/
def Delete.redact : Delete → Delete
  | ⟨table, filters⟩ => ⟨table, Criterion.redactEach filters⟩

end

/-! ### Shapes -/

theorem Node.isStatement_redact (n : Node) :
  n.redact.isStatement = n.isStatement
  := by
  cases n <;> rfl

theorem Operand.isStatement_redact (x : Operand) :
  x.redact.isStatement = x.isStatement
  := by
  cases x with
  | node n => exact n.isStatement_redact
  | _ => rfl

theorem Operand.isSome_redactOption (x : Option Operand) :
  (redactOption x).isSome = x.isSome
  := by
  cases x <;> rfl

theorem Operand.isEmpty_redactAssigned (xs : List (String × Operand)) :
  (redactAssigned xs).isEmpty = xs.isEmpty
  := by
  cases xs <;> rfl

theorem Criterion.isEmpty_redactEach (cs : List Criterion) :
  (redactEach cs).isEmpty = cs.isEmpty
  := by
  cases cs <;> rfl

theorem Query.isEmpty_redactCompounds (qs : List (Compounding × Query)) :
  (redactCompounds qs).isEmpty = qs.isEmpty
  := by
  cases qs <;> rfl

theorem Operand.length_redactEach (xs : List Operand) :
  (redactEach xs).length = xs.length
  := by
  induction xs with
  | nil => rfl
  | cons x xs ih => rw [redactEach, List.length_cons, List.length_cons, ih]

theorem Operand.widths_redactRows (rs : List (List Operand)) :
  (redactRows rs).map List.length = rs.map List.length
  := by
  induction rs with
  | nil => rfl
  | cons r rs ih => rw [redactRows, List.map_cons, List.map_cons, length_redactEach, ih]

/-! ### Steps -/

/-- The step without the content of its text. -/
def Step.redact : Step → Step
  | ⟨flags, .scalar v⟩ => ⟨flags, .scalar v.redact⟩
  | ⟨flags, .list vs⟩ => ⟨flags, .list (vs.map Value.redact)⟩
  | s => s

namespace Context

variable {ctx : Context}

theorem map_redact_text (s : String) :
  (ctx.text s).map Step.redact = ctx.text s
  := rfl

theorem map_redact_enclosed (ss : List Step) :
  (ctx.enclosed ss).map Step.redact = ctx.enclosed (ss.map Step.redact)
  := by
  simp only [enclosed, List.map_append, map_redact_text]

theorem map_redact_enclosedForValidation (ss : List Step) :
  (ctx.enclosedForValidation ss).map Step.redact
    = ctx.enclosedForValidation (ss.map Step.redact)
  := by
  unfold enclosedForValidation
  split
  · apply map_redact_enclosed ss
  · rfl

theorem map_redact_separated (separator : String) (xs : List (List Step)) :
  (ctx.separated separator xs).map Step.redact
    = ctx.separated separator (xs.map (List.map Step.redact))
  := by
  induction xs with
  | nil => rfl
  | cons ss xs ih =>
      cases xs with
      | nil => rfl
      | cons ts xs =>
          rw [separated, List.map_append, List.map_append, ih, map_redact_text]
          rfl

theorem map_redact_identifiers (names : List String) :
  (ctx.identifiers names).map Step.redact = ctx.identifiers names
  := by
  rw [identifiers, map_redact_separated, List.map_map]
  rfl

theorem map_redact_clause (keyword : String) (conditions : List (List Step)) :
  (ctx.clause keyword conditions).map Step.redact
    = ctx.clause keyword (conditions.map (List.map Step.redact))
  := by
  cases conditions with
  | nil => rfl
  | cons c cs =>
      simp only [clause, List.map_cons, List.isEmpty_cons, Bool.false_eq_true, if_false,
        List.map_append, map_redact_text, map_redact_enclosedForValidation,
        map_redact_separated]

theorem map_redact_filters (conditions : List (List Step)) :
  (ctx.filters conditions).map Step.redact
    = ctx.filters (conditions.map (List.map Step.redact))
  := by
  cases conditions with
  | nil => rfl
  | cons c cs =>
      simp only [filters, List.map_cons, List.isEmpty_cons, Bool.false_eq_true, if_false,
        List.map_append, map_redact_text, map_redact_separated]

theorem map_redact_insertedRows (rows : List (List Step)) :
  (ctx.insertedRows rows).map Step.redact
    = ctx.insertedRows (rows.map (List.map Step.redact))
  := by
  simp only [insertedRows, List.length_map]
  split
  · simp only [List.map_append, map_redact_text, map_redact_separated]
  · simp only [List.map_append, map_redact_text, map_redact_separated, List.map_map,
      Function.comp_def, map_redact_enclosed]

theorem map_redact_inserted (columns : Nat) (widths : List Nat) (rows : List (List Step))
    (query : Option (List Step)) :
  (ctx.inserted columns widths rows query).map Step.redact
    = ctx.inserted columns widths (rows.map (List.map Step.redact))
        (query.map (List.map Step.redact))
  := by
  cases query with
  | some q => rfl
  | none =>
      simp only [inserted, Option.map_none, List.isEmpty_map]
      split
      · rfl
      · split
        · rfl
        · apply map_redact_insertedRows rows

theorem map_redact_orderTerm (operand : List Step) (direction : Direction)
    (nulls : Option NullsPlace) :
  (ctx.orderTerm operand direction nulls).map Step.redact
    = ctx.orderTerm (operand.map Step.redact) direction nulls
  := by
  unfold orderTerm
  dsimp only
  split <;> simp only [List.map_append, map_redact_text]

theorem map_redact_ordering (terms : List (List Step)) :
  (ctx.ordering terms).map Step.redact = ctx.ordering (terms.map (List.map Step.redact))
  := by
  cases terms with
  | nil => rfl
  | cons t ts =>
      simp only [ordering, List.map_cons, List.isEmpty_cons, Bool.false_eq_true, if_false,
        List.map_append, map_redact_text, map_redact_separated]

theorem map_redact_limits (limit offset : Option (List Step)) :
  (ctx.limits limit offset).map Step.redact
    = ctx.limits (limit.map (List.map Step.redact)) (offset.map (List.map Step.redact))
  := by
  cases limit <;> cases offset <;>
    simp only [limits, Option.map_none, Option.map_some, List.map_append, map_redact_text,
      List.map_nil]

theorem map_redact_constraint (on : Option (List Step)) (shared : List String) :
  (ctx.constraint on shared).map Step.redact
    = ctx.constraint (on.map (List.map Step.redact)) shared
  := by
  cases on with
  | some c => simp only [constraint, Option.map_some, List.map_append, map_redact_text]
  | none =>
      simp only [constraint, Option.map_none]
      split
      · rfl
      · simp only [List.map_append, map_redact_text, map_redact_enclosed,
          map_redact_identifiers]

theorem map_redact_selection (distinct : Bool) (fields : List (List Step))
    (source : Option (List Step)) (joins : List Step)
    (filters groups having : List (List Step)) :
  (ctx.selection distinct fields source joins filters groups having).map Step.redact
    = ctx.selection distinct (fields.map (List.map Step.redact))
        (source.map (List.map Step.redact)) (joins.map Step.redact)
        (filters.map (List.map Step.redact)) (groups.map (List.map Step.redact))
        (having.map (List.map Step.redact))
  := by
  have hfields : (if fields.isEmpty then ctx.text "*"
        else ctx.separated ", " fields).map Step.redact
      = if fields.isEmpty then ctx.text "*"
        else ctx.separated ", " (fields.map (List.map Step.redact)) := by
    split
    · rfl
    · apply map_redact_separated ", " fields
  have hgroups : (if groups.isEmpty then []
        else ctx.text " GROUP BY " ++ ctx.separated ", " groups).map Step.redact
      = if groups.isEmpty then []
        else ctx.text " GROUP BY " ++ ctx.separated ", " (groups.map (List.map Step.redact)) := by
    split
    · rfl
    · simp only [List.map_append, map_redact_text, map_redact_separated]
  simp only [selection, List.map_append, map_redact_text, map_redact_clause, List.isEmpty_map,
    hfields, hgroups]
  cases source <;> simp only [Option.map_none, Option.map_some, List.map_append,
    map_redact_text, List.map_nil]

theorem map_redact_inRole (role : Role) (bare : Bool) (core whole : List Step) :
  (ctx.inRole role bare core whole).map Step.redact
    = ctx.inRole role bare (core.map Step.redact) (whole.map Step.redact)
  := by
  cases role with
  | statement => rfl
  | member =>
      simp only [inRole]
      split
      · rfl
      · simp only [List.map_append, map_redact_text, map_redact_enclosed]

end Context

/-! ### The steps of redacted trees -/

mutual

theorem Operand.map_redact_steps (ctx : Context) :
    ∀ x : Operand, (x.redact.steps ctx).map Step.redact = (x.steps ctx).map Step.redact
  | .node n => by
      have hn := Node.map_redact_steps ctx n
      rw [Operand.redact, Operand.steps, Operand.steps, Node.isStatement_redact]
      split
      · rw [Context.map_redact_enclosed, Context.map_redact_enclosed, hn]
      · exact hn
  | .list vs => by
      simp [Operand.redact, Operand.steps, Context.piece, Step.redact, Function.comp_def,
        Value.redact_redact]
  | .value v => by
      simp [Operand.redact, Operand.steps, Context.piece, Step.redact, Value.redact_redact]

theorem Operand.map_redact_stepsOption (ctx : Context) :
    ∀ x : Option Operand,
      (Operand.stepsOption ctx (Operand.redactOption x)).map (List.map Step.redact)
        = (Operand.stepsOption ctx x).map (List.map Step.redact)
  | none => rfl
  | some x => congrArg some (Operand.map_redact_steps ctx x)

theorem Operand.map_redact_stepsEach (ctx : Context) :
    ∀ xs : List Operand,
      (Operand.stepsEach ctx (Operand.redactEach xs)).map (List.map Step.redact)
        = (Operand.stepsEach ctx xs).map (List.map Step.redact)
  | [] => rfl
  | x :: xs => by
      simp only [Operand.redactEach, Operand.stepsEach, List.map_cons,
        Operand.map_redact_steps ctx x, Operand.map_redact_stepsEach ctx xs]

theorem Operand.map_redact_stepsRows (ctx : Context) :
    ∀ rs : List (List Operand),
      (Operand.stepsRows ctx (Operand.redactRows rs)).map (List.map Step.redact)
        = (Operand.stepsRows ctx rs).map (List.map Step.redact)
  | [] => rfl
  | r :: rs => by
      simp only [Operand.redactRows, Operand.stepsRows, List.map_cons,
        Context.map_redact_separated, Operand.map_redact_stepsEach ctx r,
        Operand.map_redact_stepsRows ctx rs]

theorem Operand.map_redact_stepsAssigned (ctx : Context) :
    ∀ xs : List (String × Operand),
      (Operand.stepsAssigned ctx (Operand.redactAssigned xs)).map (List.map Step.redact)
        = (Operand.stepsAssigned ctx xs).map (List.map Step.redact)
  | [] => rfl
  | (name, x) :: xs => by
      simp only [Operand.redactAssigned, Operand.stepsAssigned, List.map_cons,
        List.map_append, Operand.map_redact_steps ctx x,
        Operand.map_redact_stepsAssigned ctx xs]

/-- The steps of a node and of the same node without the contents of its texts differ only
in the contents of texts. -/
theorem Node.map_redact_steps (ctx : Context) :
    ∀ n : Node, (n.redact.steps ctx).map Step.redact = (n.steps ctx).map Step.redact
  | .column _ => rfl
  | .table _ => rfl
  | .criterion c => Criterion.map_redact_steps ctx c
  | .computed e => Computed.map_redact_steps ctx e
  | .query q => Query.map_redact_steps .statement ctx q
  | .insert i => Insert.map_redact_steps ctx i
  | .update u => Update.map_redact_steps ctx u
  | .delete d => Delete.map_redact_steps ctx d

theorem Criterion.map_redact_steps (ctx : Context) :
    ∀ c : Criterion, (c.redact.steps ctx).map Step.redact = (c.steps ctx).map Step.redact
  | .compare left op right => by
      simp only [Criterion.redact, Criterion.steps, List.map_append,
        Operand.map_redact_steps ctx left, Operand.map_redact_steps ctx right]
  | .nullCheck operand negated => by
      simp only [Criterion.redact, Criterion.steps, List.map_append,
        Operand.map_redact_steps ctx operand]
  | .member operand values negated => by
      have hvalues := Operand.map_redact_steps ctx values
      simp only [Criterion.redact, Criterion.steps, List.map_append,
        Operand.map_redact_steps ctx operand, Operand.isStatement_redact]
      congr 1
      split
      · exact hvalues
      · rw [Context.map_redact_enclosed, Context.map_redact_enclosed, hvalues]
  | .between operand low high negated => by
      simp only [Criterion.redact, Criterion.steps, List.map_append,
        Operand.map_redact_steps ctx operand, Operand.map_redact_steps ctx low,
        Operand.map_redact_steps ctx high]
  | .like operand pattern escape negated => by
      simp only [Criterion.redact, Criterion.steps, List.map_append,
        Operand.map_redact_steps ctx operand, Operand.map_redact_steps ctx pattern]
  | .existence query negated => by
      simp only [Criterion.redact, Criterion.steps, List.map_append,
        Context.map_redact_enclosed, Query.map_redact_steps .statement ctx query]
  | .combination op members => by
      simp only [Criterion.redact, Criterion.steps, Criterion.isEmpty_redactEach]
      split
      · rfl
      · simp only [Context.map_redact_enclosedForValidation, Context.map_redact_enclosed,
          Context.map_redact_separated, Criterion.map_redact_stepsEach ctx members]
  | .negation c => by
      simp only [Criterion.redact, Criterion.steps, List.map_append,
        Context.map_redact_enclosed, Criterion.map_redact_steps ctx c]
  | .raw _ _ => rfl

theorem Criterion.map_redact_stepsOption (ctx : Context) :
    ∀ c : Option Criterion,
      (Criterion.stepsOption ctx (Criterion.redactOption c)).map (List.map Step.redact)
        = (Criterion.stepsOption ctx c).map (List.map Step.redact)
  | none => rfl
  | some c => congrArg some (Criterion.map_redact_steps ctx c)

theorem Criterion.map_redact_stepsEach (ctx : Context) :
    ∀ cs : List Criterion,
      (Criterion.stepsEach ctx (Criterion.redactEach cs)).map (List.map Step.redact)
        = (Criterion.stepsEach ctx cs).map (List.map Step.redact)
  | [] => rfl
  | c :: cs => by
      simp only [Criterion.redactEach, Criterion.stepsEach, List.map_cons,
        Criterion.map_redact_steps ctx c, Criterion.map_redact_stepsEach ctx cs]

theorem Computed.map_redact_steps (ctx : Context) :
    ∀ e : Computed, (e.redact.steps ctx).map Step.redact = (e.steps ctx).map Step.redact
  | .call name args distinct => by
      simp only [Computed.redact, Computed.steps, List.map_append,
        Context.map_redact_separated, Operand.map_redact_stepsEach ctx args]
  | .countAll => rfl
  | .arithmetic op left right => by
      simp only [Computed.redact, Computed.steps, Context.map_redact_enclosed,
        List.map_append, Operand.map_redact_steps ctx left,
        Operand.map_redact_steps ctx right]
  | .raw _ => rfl

theorem SelectItem.map_redact_steps (ctx : Context) :
    ∀ f : SelectItem, (f.redact.steps ctx).map Step.redact = (f.steps ctx).map Step.redact
  | .column _ => rfl
  | .computed expression name => by
      simp only [SelectItem.redact, SelectItem.steps, List.map_append,
        Operand.map_redact_steps ctx expression]
  | .all => rfl
  | .allOf _ => rfl

theorem SelectItem.map_redact_stepsEach (ctx : Context) :
    ∀ fs : List SelectItem,
      (SelectItem.stepsEach ctx (SelectItem.redactEach fs)).map (List.map Step.redact)
        = (SelectItem.stepsEach ctx fs).map (List.map Step.redact)
  | [] => rfl
  | f :: fs => by
      simp only [SelectItem.redactEach, SelectItem.stepsEach, List.map_cons,
        SelectItem.map_redact_steps ctx f, SelectItem.map_redact_stepsEach ctx fs]

theorem Source.map_redact_steps (ctx : Context) :
    ∀ s : Source, (s.redact.steps ctx).map Step.redact = (s.steps ctx).map Step.redact
  | .table _ => rfl
  | .subquery query name => by
      simp only [Source.redact, Source.steps, List.map_append, Context.map_redact_enclosed,
        Query.map_redact_steps .statement ctx query]

theorem Source.map_redact_stepsOption (ctx : Context) :
    ∀ s : Option Source,
      (Source.stepsOption ctx (Source.redactOption s)).map (List.map Step.redact)
        = (Source.stepsOption ctx s).map (List.map Step.redact)
  | none => rfl
  | some s => congrArg some (Source.map_redact_steps ctx s)

theorem Join.map_redact_steps (ctx : Context) :
    ∀ j : Join, (j.redact.steps ctx).map Step.redact = (j.steps ctx).map Step.redact
  | ⟨kind, source, on, shared⟩ => by
      simp only [Join.redact, Join.steps, List.map_append, Context.map_redact_constraint,
        Source.map_redact_steps ctx source, Criterion.map_redact_stepsOption ctx on]

theorem Join.map_redact_stepsAll (ctx : Context) :
    ∀ js : List Join, (Join.stepsAll ctx (Join.redactEach js)).map Step.redact
      = (Join.stepsAll ctx js).map Step.redact
  | [] => rfl
  | j :: js => by
      simp only [Join.redactEach, Join.stepsAll, List.map_append,
        Join.map_redact_steps ctx j, Join.map_redact_stepsAll ctx js]

theorem Order.map_redact_steps (ctx : Context) :
    ∀ o : Order, (o.redact.steps ctx).map Step.redact = (o.steps ctx).map Step.redact
  | ⟨operand, direction, nulls⟩ => by
      simp only [Order.redact, Order.steps, Context.map_redact_orderTerm,
        Operand.map_redact_steps ctx operand]

theorem Order.map_redact_stepsEach (ctx : Context) :
    ∀ os : List Order,
      (Order.stepsEach ctx (Order.redactEach os)).map (List.map Step.redact)
        = (Order.stepsEach ctx os).map (List.map Step.redact)
  | [] => rfl
  | o :: os => by
      simp only [Order.redactEach, Order.stepsEach, List.map_cons,
        Order.map_redact_steps ctx o, Order.map_redact_stepsEach ctx os]

theorem Query.map_redact_steps (role : Role) (ctx : Context) :
    ∀ q : Query,
      (q.redact.steps role ctx).map Step.redact = (q.steps role ctx).map Step.redact
  | ⟨fields, distinct, source, joins, filters, groups, having, orders, limit, offset,
      compounds, validated⟩ => by
      have horders (ctx : Context) := Order.map_redact_stepsEach ctx orders
      simp only [Query.redact, Query.steps, Context.map_redact_inRole, List.map_append,
        Context.map_redact_selection, Context.map_redact_limits,
        Query.isEmpty_redactCompounds, Operand.isSome_redactOption,
        SelectItem.map_redact_stepsEach _ fields, Source.map_redact_stepsOption _ source,
        Join.map_redact_stepsAll _ joins, Criterion.map_redact_stepsEach _ filters,
        Operand.map_redact_stepsEach _ groups, Criterion.map_redact_stepsEach _ having,
        Operand.map_redact_stepsOption _ limit, Operand.map_redact_stepsOption _ offset,
        Query.map_redact_stepsCompounds _ compounds]
      congr 3
      split
      · rw [Context.map_redact_ordering, Context.map_redact_ordering, horders]
      · rfl

theorem Query.map_redact_stepsOption (ctx : Context) :
    ∀ q : Option Query,
      (Query.stepsOption ctx (Query.redactOption q)).map (List.map Step.redact)
        = (Query.stepsOption ctx q).map (List.map Step.redact)
  | none => rfl
  | some q => congrArg some (Query.map_redact_steps .statement ctx q)

theorem Query.map_redact_stepsCompounds (ctx : Context) :
    ∀ qs : List (Compounding × Query),
      (Query.stepsCompounds ctx (Query.redactCompounds qs)).map Step.redact
        = (Query.stepsCompounds ctx qs).map Step.redact
  | [] => rfl
  | (op, q) :: qs => by
      simp only [Query.redactCompounds, Query.stepsCompounds, List.map_append,
        Query.map_redact_steps .member ctx q, Query.map_redact_stepsCompounds ctx qs]

theorem Insert.map_redact_steps (ctx : Context) :
    ∀ i : Sql.Insert, (i.redact.steps ctx).map Step.redact = (i.steps ctx).map Step.redact
  | ⟨table, columns, rows, select, useDefaults, conflict⟩ => by
      have hrows := Operand.map_redact_stepsRows ctx rows
      have hselect := Query.map_redact_stepsOption ctx select
      simp only [Insert.redact, Insert.steps, List.map_append]
      congr 1
      split
      · rfl
      · split
        · rfl
        · simp only [List.map_append, Context.map_redact_inserted, Operand.widths_redactRows,
            hrows, hselect]

theorem Update.map_redact_steps (ctx : Context) :
    ∀ u : Update, (u.redact.steps ctx).map Step.redact = (u.steps ctx).map Step.redact
  | ⟨table, assignments, filters, conflict⟩ => by
      have hassigned := Operand.map_redact_stepsAssigned ctx assignments
      have hfilters := Criterion.map_redact_stepsEach ctx filters
      simp only [Update.redact, Update.steps, Operand.isEmpty_redactAssigned]
      split
      · rfl
      · simp only [List.map_append, Context.map_redact_separated, Context.map_redact_filters,
          hassigned, hfilters]

theorem Delete.map_redact_steps (ctx : Context) :
    ∀ d : Delete, (d.redact.steps ctx).map Step.redact = (d.steps ctx).map Step.redact
  | ⟨table, filters⟩ => by
      simp only [Delete.redact, Delete.steps, List.map_append, Context.map_redact_filters,
        Criterion.map_redact_stepsEach ctx filters]

end

end Sql

end TypedSql
