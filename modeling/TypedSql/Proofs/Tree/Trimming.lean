import TypedSql.Proofs.Tree.Flags
import TypedSql.Sql.Compilation

/-!
# Trimming

The ordering of a query without limits matters only where the query is outermost.  A tree is
trimmed by dropping the ordering of every nested query without limits, so that two trees that
differ in nothing but such orderings are the same when they are trimmed.

In a nested context, where no query is outermost, trimming changes no step
(`Node.steps_trim`).  Nor does it in any context when the ordering of the node itself is kept, in
case that is a query (`Node.steps_trimNested`).
-/

namespace TypedSql.Sql

mutual

/-- The operand without the orderings of queries without limits. -/
def Operand.trim : Operand → Operand
  | .node n => .node n.trim
  | .list vs => .list vs
  | .value v => .value v

/-- A trimmed operand, when there is one. -/
def Operand.trimOption : Option Operand → Option Operand
  | none => none
  | some x => some x.trim

/-- Trimmed operands. -/
def Operand.trimEach : List Operand → List Operand
  | [] => []
  | x :: xs => x.trim :: Operand.trimEach xs

/-- Rows of trimmed operands. -/
def Operand.trimRows : List (List Operand) → List (List Operand)
  | [] => []
  | r :: rs => Operand.trimEach r :: Operand.trimRows rs

/-- Assignments of trimmed operands. -/
def Operand.trimAssigned : List (String × Operand) → List (String × Operand)
  | [] => []
  | (name, x) :: r => (name, x.trim) :: Operand.trimAssigned r

/-- The node without the orderings of queries without limits. -/
def Node.trim : Node → Node
  | .column c => .column c
  | .table t => .table t
  | .criterion c => .criterion c.trim
  | .computed e => .computed e.trim
  | .query q => .query (q.trim false)
  | .insert i => .insert i.trim
  | .update u => .update u.trim
  | .delete d => .delete d.trim

/-- The condition without the orderings of queries without limits. -/
def Criterion.trim : Criterion → Criterion
  | .compare left op right => .compare left.trim op right.trim
  | .nullCheck operand negated => .nullCheck operand.trim negated
  | .member operand values negated => .member operand.trim values.trim negated
  | .between operand low high negated => .between operand.trim low.trim high.trim negated
  | .like operand pattern escape negated => .like operand.trim pattern.trim escape negated
  | .existence query negated => .existence (query.trim false) negated
  | .combination op members => .combination op (Criterion.trimEach members)
  | .negation c => .negation c.trim
  | .raw s args => .raw s args

/-- A trimmed condition, when there is one. -/
def Criterion.trimOption : Option Criterion → Option Criterion
  | none => none
  | some c => some c.trim

/-- Trimmed conditions. -/
def Criterion.trimEach : List Criterion → List Criterion
  | [] => []
  | c :: cs => c.trim :: Criterion.trimEach cs

/-- The computed expression without the orderings of queries without limits. -/
def Computed.trim : Computed → Computed
  | .call name args distinct => .call name (Operand.trimEach args) distinct
  | .countAll => .countAll
  | .arithmetic op left right => .arithmetic op left.trim right.trim
  | .raw s => .raw s

/-- The entry of a select list without the orderings of queries without limits. -/
def SelectItem.trim : SelectItem → SelectItem
  | .column c => .column c
  | .computed expression name => .computed expression.trim name
  | .all => .all
  | .allOf t => .allOf t

/-- A trimmed select list. -/
def SelectItem.trimEach : List SelectItem → List SelectItem
  | [] => []
  | f :: fs => f.trim :: SelectItem.trimEach fs

/-- The source without the orderings of queries without limits. -/
def Source.trim : Source → Source
  | .table t => .table t
  | .subquery query name => .subquery (query.trim false) name

/-- A trimmed source, when there is one. -/
def Source.trimOption : Option Source → Option Source
  | none => none
  | some s => some s.trim

/-- The join without the orderings of queries without limits. -/
def Join.trim : Join → Join
  | ⟨kind, source, on, shared⟩ => ⟨kind, source.trim, Criterion.trimOption on, shared⟩

/-- Trimmed joins. -/
def Join.trimEach : List Join → List Join
  | [] => []
  | j :: js => j.trim :: Join.trimEach js

/-- The term of an ordering without the orderings of queries without limits in it. -/
def Order.trim : Order → Order
  | ⟨operand, direction, nulls⟩ => ⟨operand.trim, direction, nulls⟩

/-- A trimmed ordering, every term of which is kept. -/
def Order.trimEach : List Order → List Order
  | [] => []
  | o :: os => o.trim :: Order.trimEach os

/-- The query without the orderings of queries without limits that are nested in it, and without
its own if it has no limits, unless that is to be kept. -/
def Query.trim (isKept : Bool) : Query → Query
  | ⟨fields, distinct, source, joins, filters, groups, having, orders, limit, offset,
      compounds, validated⟩ =>
    ⟨SelectItem.trimEach fields, distinct, Source.trimOption source, Join.trimEach joins,
      Criterion.trimEach filters, Operand.trimEach groups, Criterion.trimEach having,
      if isKept || limit.isSome || offset.isSome then Order.trimEach orders else [],
      Operand.trimOption limit, Operand.trimOption offset, Query.trimCompounds compounds,
      validated⟩

/-- A trimmed query, when there is one. -/
def Query.trimOption : Option Query → Option Query
  | none => none
  | some q => some (q.trim false)

/-- The trimmed members of a compound. -/
def Query.trimCompounds : List (Compounding × Query) → List (Compounding × Query)
  | [] => []
  | (op, q) :: r => (op, q.trim false) :: Query.trimCompounds r

/-- The insertion without the orderings of queries without limits. -/
def Insert.trim : Insert → Insert
  | ⟨table, columns, rows, select, useDefaults, conflict⟩ =>
    ⟨table, columns, Operand.trimRows rows, Query.trimOption select, useDefaults, conflict⟩

/-- The update without the orderings of queries without limits. -/
def Update.trim : Update → Update
  | ⟨table, assignments, filters, conflict⟩ =>
    ⟨table, Operand.trimAssigned assignments, Criterion.trimEach filters, conflict⟩

/-- The deletion without the orderings of queries without limits. -/
def Delete.trim : Delete → Delete
  | ⟨table, filters⟩ => ⟨table, Criterion.trimEach filters⟩

end

/-- The node without the orderings of queries without limits that are nested in it; as the root
of a tree, a query keeps its own. -/
def Node.trimNested : Node → Node
  | .query q => .query (q.trim true)
  | n => n.trim

/-- Nothing is left of an ordering of a query without limits that is not to be kept, so that
another in its place makes no difference. -/
theorem Query.trim_orders {q : Query} (h : q.isLimited = false) (os : List Order) :
  { q with orders := os }.trim false = q.trim false
  := by
  obtain ⟨hl, ho⟩ := Bool.or_eq_false_iff.mp h
  cases q
  simp only [trim, hl, ho, Bool.or_self, Bool.false_eq_true, if_false]

theorem Query.trimCompounds_eq_map (qs : List (Compounding × Query)) :
  trimCompounds qs = qs.map fun e => (e.1, e.2.trim false)
  := by
  induction qs with
  | nil => rfl
  | cons e qs ih =>
      obtain ⟨op, q⟩ := e
      rw [trimCompounds, ih, List.map_cons]

/-! ### Shapes -/

theorem Node.isStatement_trim (n : Node) :
  n.trim.isStatement = n.isStatement
  := by
  cases n <;> rfl

theorem Operand.isStatement_trim (x : Operand) :
  x.trim.isStatement = x.isStatement
  := by
  cases x with
  | node n => apply n.isStatement_trim
  | _ => rfl

theorem Operand.isSome_trimOption (x : Option Operand) :
  (trimOption x).isSome = x.isSome
  := by
  cases x <;> rfl

theorem Operand.isEmpty_trimAssigned (xs : List (String × Operand)) :
  (trimAssigned xs).isEmpty = xs.isEmpty
  := by
  cases xs <;> rfl

theorem Criterion.isEmpty_trimEach (cs : List Criterion) :
  (trimEach cs).isEmpty = cs.isEmpty
  := by
  cases cs <;> rfl

theorem Query.isEmpty_trimCompounds (qs : List (Compounding × Query)) :
  (trimCompounds qs).isEmpty = qs.isEmpty
  := by
  rw [trimCompounds_eq_map, List.isEmpty_map]

theorem Operand.length_trimEach (xs : List Operand) :
  (trimEach xs).length = xs.length
  := by
  induction xs with
  | nil => rfl
  | cons x xs ih => rw [trimEach, List.length_cons, List.length_cons, ih]

theorem Operand.widths_trimRows (rs : List (List Operand)) :
  (trimRows rs).map List.length = rs.map List.length
  := by
  induction rs with
  | nil => rfl
  | cons r rs ih => rw [trimRows, List.map_cons, List.map_cons, length_trimEach, ih]

theorem Node.defaultFlags_trimNested (n : Node) :
  n.trimNested.defaultFlags = n.defaultFlags
  := by
  cases n with
  | query q => cases q; rfl
  | _ => rfl

/-! ### The steps of trimmed trees -/

/-- Whether no query is outermost in a context. -/
def Context.IsNested (ctx : Context) : Prop :=
  ctx.flags.contains .topLevel = false

theorem Context.isNested_inside (ctx : Context) (validated : Bool) :
  (ctx.inside validated).IsNested
  := by
  have hremove := Flags.contains_topLevel_remove ctx.flags
  cases validated with
  | false => apply hremove
  | true => apply (Flags.contains_topLevel_union_validation _).trans hremove

mutual

theorem Operand.steps_trim {ctx : Context} (h : ctx.IsNested) :
    ∀ x : Operand, x.trim.steps ctx = x.steps ctx
  | .node n => by
      rw [Operand.trim, Operand.steps, Operand.steps, n.isStatement_trim, Node.steps_trim h n]
  | .list _ => rfl
  | .value _ => rfl

theorem Operand.stepsOption_trimOption {ctx : Context} (h : ctx.IsNested) :
    ∀ x : Option Operand, Operand.stepsOption ctx (Operand.trimOption x) = Operand.stepsOption ctx x
  | none => rfl
  | some x => congrArg some (Operand.steps_trim h x)

theorem Operand.stepsEach_trimEach {ctx : Context} (h : ctx.IsNested) :
    ∀ xs : List Operand, Operand.stepsEach ctx (Operand.trimEach xs) = Operand.stepsEach ctx xs
  | [] => rfl
  | x :: xs => by
      rw [Operand.trimEach, Operand.stepsEach, Operand.stepsEach, Operand.steps_trim h x,
        Operand.stepsEach_trimEach h xs]

theorem Operand.stepsRows_trimRows {ctx : Context} (h : ctx.IsNested) :
    ∀ rs : List (List Operand),
      Operand.stepsRows ctx (Operand.trimRows rs) = Operand.stepsRows ctx rs
  | [] => rfl
  | r :: rs => by
      rw [Operand.trimRows, Operand.stepsRows, Operand.stepsRows, Operand.stepsEach_trimEach h r,
        Operand.stepsRows_trimRows h rs]

theorem Operand.stepsAssigned_trimAssigned {ctx : Context} (h : ctx.IsNested) :
    ∀ xs : List (String × Operand),
      Operand.stepsAssigned ctx (Operand.trimAssigned xs) = Operand.stepsAssigned ctx xs
  | [] => rfl
  | (name, x) :: xs => by
      rw [Operand.trimAssigned, Operand.stepsAssigned, Operand.stepsAssigned,
        Operand.steps_trim h x, Operand.stepsAssigned_trimAssigned h xs]

/-- In a nested context a node and the trimmed node have the same steps. -/
theorem Node.steps_trim {ctx : Context} (h : ctx.IsNested) :
    ∀ n : Node, n.trim.steps ctx = n.steps ctx
  | .column _ => rfl
  | .table _ => rfl
  | .criterion c => Criterion.steps_trim h c
  | .computed e => Computed.steps_trim h e
  | .query q => Query.steps_trim (.inl h) q
  | .insert i => Insert.steps_trim h i
  | .update u => Update.steps_trim h u
  | .delete d => Delete.steps_trim h d

theorem Criterion.steps_trim {ctx : Context} (h : ctx.IsNested) :
    ∀ c : Criterion, c.trim.steps ctx = c.steps ctx
  | .compare left op right => by
      rw [Criterion.trim, Criterion.steps, Criterion.steps, Operand.steps_trim h left,
        Operand.steps_trim h right]
  | .nullCheck operand negated => by
      rw [Criterion.trim, Criterion.steps, Criterion.steps, Operand.steps_trim h operand]
  | .member operand values negated => by
      rw [Criterion.trim, Criterion.steps, Criterion.steps, Operand.steps_trim h operand,
        Operand.steps_trim h values, values.isStatement_trim]
  | .between operand low high negated => by
      rw [Criterion.trim, Criterion.steps, Criterion.steps, Operand.steps_trim h operand,
        Operand.steps_trim h low, Operand.steps_trim h high]
  | .like operand pattern escape negated => by
      simp only [Criterion.trim, Criterion.steps, Operand.steps_trim h operand,
        Operand.steps_trim h pattern]
  | .existence query negated => by
      rw [Criterion.trim, Criterion.steps, Criterion.steps, Query.steps_trim (.inl h) query]
  | .combination op members => by
      rw [Criterion.trim, Criterion.steps, Criterion.steps, Criterion.isEmpty_trimEach,
        Criterion.stepsEach_trimEach h members]
  | .negation c => by
      rw [Criterion.trim, Criterion.steps, Criterion.steps, Criterion.steps_trim h c]
  | .raw _ _ => rfl

theorem Criterion.stepsOption_trimOption {ctx : Context} (h : ctx.IsNested) :
    ∀ c : Option Criterion,
      Criterion.stepsOption ctx (Criterion.trimOption c) = Criterion.stepsOption ctx c
  | none => rfl
  | some c => congrArg some (Criterion.steps_trim h c)

theorem Criterion.stepsEach_trimEach {ctx : Context} (h : ctx.IsNested) :
    ∀ cs : List Criterion,
      Criterion.stepsEach ctx (Criterion.trimEach cs) = Criterion.stepsEach ctx cs
  | [] => rfl
  | c :: cs => by
      rw [Criterion.trimEach, Criterion.stepsEach, Criterion.stepsEach, Criterion.steps_trim h c,
        Criterion.stepsEach_trimEach h cs]

theorem Computed.steps_trim {ctx : Context} (h : ctx.IsNested) :
    ∀ e : Computed, e.trim.steps ctx = e.steps ctx
  | .call name args distinct => by
      rw [Computed.trim, Computed.steps, Computed.steps, Operand.stepsEach_trimEach h args]
  | .countAll => rfl
  | .arithmetic op left right => by
      rw [Computed.trim, Computed.steps, Computed.steps, Operand.steps_trim h left,
        Operand.steps_trim h right]
  | .raw _ => rfl

theorem SelectItem.steps_trim {ctx : Context} (h : ctx.IsNested) :
    ∀ f : SelectItem, f.trim.steps ctx = f.steps ctx
  | .column _ => rfl
  | .computed expression name => by
      rw [SelectItem.trim, SelectItem.steps, SelectItem.steps, Operand.steps_trim h expression]
  | .all => rfl
  | .allOf _ => rfl

theorem SelectItem.stepsEach_trimEach {ctx : Context} (h : ctx.IsNested) :
    ∀ fs : List SelectItem,
      SelectItem.stepsEach ctx (SelectItem.trimEach fs) = SelectItem.stepsEach ctx fs
  | [] => rfl
  | f :: fs => by
      rw [SelectItem.trimEach, SelectItem.stepsEach, SelectItem.stepsEach,
        SelectItem.steps_trim h f, SelectItem.stepsEach_trimEach h fs]

theorem Source.steps_trim {ctx : Context} (h : ctx.IsNested) :
    ∀ s : Source, s.trim.steps ctx = s.steps ctx
  | .table _ => rfl
  | .subquery query name => by
      rw [Source.trim, Source.steps, Source.steps, Query.steps_trim (.inl h) query]

theorem Source.stepsOption_trimOption {ctx : Context} (h : ctx.IsNested) :
    ∀ s : Option Source, Source.stepsOption ctx (Source.trimOption s) = Source.stepsOption ctx s
  | none => rfl
  | some s => congrArg some (Source.steps_trim h s)

theorem Join.steps_trim {ctx : Context} (h : ctx.IsNested) :
    ∀ j : Join, j.trim.steps ctx = j.steps ctx
  | ⟨kind, source, on, shared⟩ => by
      rw [Join.trim, Join.steps, Join.steps, Source.steps_trim h source,
        Criterion.stepsOption_trimOption h on]

theorem Join.stepsAll_trimEach {ctx : Context} (h : ctx.IsNested) :
    ∀ js : List Join, Join.stepsAll ctx (Join.trimEach js) = Join.stepsAll ctx js
  | [] => rfl
  | j :: js => by
      rw [Join.trimEach, Join.stepsAll, Join.stepsAll, Join.steps_trim h j,
        Join.stepsAll_trimEach h js]

theorem Order.steps_trim {ctx : Context} (h : ctx.IsNested) :
    ∀ o : Order, o.trim.steps ctx = o.steps ctx
  | ⟨operand, direction, nulls⟩ => by
      rw [Order.trim, Order.steps, Order.steps, Operand.steps_trim h operand]

theorem Order.stepsEach_trimEach {ctx : Context} (h : ctx.IsNested) :
    ∀ os : List Order, Order.stepsEach ctx (Order.trimEach os) = Order.stepsEach ctx os
  | [] => rfl
  | o :: os => by
      rw [Order.trimEach, Order.stepsEach, Order.stepsEach, Order.steps_trim h o,
        Order.stepsEach_trimEach h os]

/-- A query and the trimmed query have the same steps in a nested context, and in any context
as statements when the ordering is kept. -/
theorem Query.steps_trim {role : Role} {ctx : Context} { isKept : Bool}
    (h : ctx.IsNested ∨ role = .statement ∧ isKept = true) :
    ∀ q : Query, (q.trim isKept).steps role ctx = q.steps role ctx
  | ⟨fields, distinct, source, joins, filters, groups, having, orders, limit, offset,
      compounds, validated⟩ => by
      have hcore {c : Context} (hc : c.IsNested) :
          c.selection distinct (SelectItem.stepsEach c (SelectItem.trimEach fields))
              (Source.stepsOption c (Source.trimOption source))
              (Join.stepsAll c (Join.trimEach joins))
              (Criterion.stepsEach c (Criterion.trimEach filters))
              (Operand.stepsEach c (Operand.trimEach groups))
              (Criterion.stepsEach c (Criterion.trimEach having))
            = c.selection distinct (SelectItem.stepsEach c fields) (Source.stepsOption c source)
              (Join.stepsAll c joins) (Criterion.stepsEach c filters)
              (Operand.stepsEach c groups) (Criterion.stepsEach c having) := by
        rw [SelectItem.stepsEach_trimEach hc, Source.stepsOption_trimOption hc,
          Join.stepsAll_trimEach hc, Criterion.stepsEach_trimEach hc filters,
          Operand.stepsEach_trimEach hc, Criterion.stepsEach_trimEach hc having]
      have hin := ctx.isNested_inside validated
      have hcompounds := Query.stepsCompounds_trimCompounds hin compounds
      have hlimit := Operand.stepsOption_trimOption hin limit
      have hoffset := Operand.stepsOption_trimOption hin offset
      -- an ordering is dropped only where it would not be written
      have horders :
          (if ctx.flags.contains .topLevel || (limit.isSome || offset.isSome) then
            (ctx.inside validated).ordering (Order.stepsEach (ctx.inside validated)
              (if isKept || limit.isSome || offset.isSome then Order.trimEach orders else []))
            else [])
          = if ctx.flags.contains .topLevel || (limit.isSome || offset.isSome) then
            (ctx.inside validated).ordering (Order.stepsEach (ctx.inside validated) orders)
            else [] := by
        split
        · rename_i hwritten
          have hkept : (isKept || limit.isSome || offset.isSome) = true := by
            obtain htop | ⟨-, rfl⟩ := h
            · rw [htop, Bool.false_or] at hwritten
              rw [Bool.or_assoc, hwritten, Bool.or_true]
            · rw [Bool.true_or, Bool.true_or]
          rw [if_pos hkept, Order.stepsEach_trimEach hin orders]
        · rfl
      simp only [Query.trim, Query.steps, Query.isEmpty_trimCompounds, Operand.isSome_trimOption,
        hcompounds, hlimit, hoffset, hcore hin, horders]
      obtain hnested | ⟨rfl, -⟩ := h
      · rw [hcore hnested]
      · rfl

theorem Query.stepsOption_trimOption {ctx : Context} (h : ctx.IsNested) :
    ∀ q : Option Query, Query.stepsOption ctx (Query.trimOption q) = Query.stepsOption ctx q
  | none => rfl
  | some q => congrArg some (Query.steps_trim (.inl h) q)

theorem Query.stepsCompounds_trimCompounds {ctx : Context} (h : ctx.IsNested) :
    ∀ qs : List (Compounding × Query),
      Query.stepsCompounds ctx (Query.trimCompounds qs) = Query.stepsCompounds ctx qs
  | [] => rfl
  | (op, q) :: qs => by
      rw [Query.trimCompounds, Query.stepsCompounds, Query.stepsCompounds,
        Query.steps_trim (.inl h) q, Query.stepsCompounds_trimCompounds h qs]

theorem Insert.steps_trim {ctx : Context} (h : ctx.IsNested) :
    ∀ i : Sql.Insert, i.trim.steps ctx = i.steps ctx
  | ⟨table, columns, rows, select, useDefaults, conflict⟩ => by
      rw [Insert.trim, Insert.steps, Insert.steps, Operand.widths_trimRows,
        Operand.stepsRows_trimRows h rows, Query.stepsOption_trimOption h select]

theorem Update.steps_trim {ctx : Context} (h : ctx.IsNested) :
    ∀ u : Update, u.trim.steps ctx = u.steps ctx
  | ⟨table, assignments, filters, conflict⟩ => by
      rw [Update.trim, Update.steps, Update.steps, Operand.isEmpty_trimAssigned,
        Operand.stepsAssigned_trimAssigned h assignments, Criterion.stepsEach_trimEach h filters]

theorem Delete.steps_trim {ctx : Context} (h : ctx.IsNested) :
    ∀ d : Delete, d.trim.steps ctx = d.steps ctx
  | ⟨table, filters⟩ => by
      rw [Delete.trim, Delete.steps, Delete.steps, Criterion.stepsEach_trimEach h filters]

end

/-- As a root, too, a node and the trimmed node have the same steps in every context in which
only queries are outermost. -/
theorem Node.steps_trimNested (n : Node) {ctx : Context}
    (h : ctx.IsNested ∨ ∃ q, n = .query q) :
  n.trimNested.steps ctx = n.steps ctx
  := by
  cases n with
  | query q => apply Query.steps_trim (.inr ⟨rfl, rfl⟩)
  | _ =>
      obtain hn | ⟨q, hq⟩ := h
      · apply steps_trim hn
      · cases hq

end TypedSql.Sql
