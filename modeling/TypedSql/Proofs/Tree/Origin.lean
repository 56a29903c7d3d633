import Mathlib.Logic.Basic
import TypedSql.Proofs.Tree.Induction

/-!
# Where raw conditions come from

A step that writes a raw condition is a step of a part only if it is a step of what is rendered
in the part, or the part is that raw condition itself.  So the raw conditions that the steps of a
tree write are those that are rendered in it: `Part.condition_mem_steps_iff`.
-/

namespace TypedSql.Sql

variable {flags : Flags} {t : String} {args : List Value}

/-! ### Combinations of steps

The texts of the compiler, and names, are no conditions. -/

namespace Context

variable {ctx : Context} {ss : List Step} {sss : List (List Step)}

@[simp]
theorem condition_mem_text (s : String) :
  ¬ ⟨flags, .condition t args⟩ ∈ ctx.text s
  := by
  simp [text, piece]

@[simp]
theorem condition_mem_identifier (name : String) :
  ¬ ⟨flags, .condition t args⟩ ∈ ctx.identifier name
  := by
  simp [identifier, piece]

@[simp]
theorem condition_mem_enclosed :
  ⟨flags, .condition t args⟩ ∈ ctx.enclosed ss ↔ ⟨flags, .condition t args⟩ ∈ ss
  := by
  simp [enclosed]

@[simp]
theorem condition_mem_enclosedForValidation :
  ⟨flags, .condition t args⟩ ∈ ctx.enclosedForValidation ss ↔ ⟨flags, .condition t args⟩ ∈ ss
  := by
  unfold enclosedForValidation
  split <;> simp

@[simp]
theorem condition_mem_separated (separator : String) :
  ⟨flags, .condition t args⟩ ∈ ctx.separated separator sss
    ↔ ∃ ss ∈ sss, ⟨flags, .condition t args⟩ ∈ ss
  := by
  induction sss with
  | nil => simp [separated]
  | cons ss r ih => cases r <;> simp_all [separated]

@[simp]
theorem condition_mem_identifiers (names : List String) :
  ¬ ⟨flags, .condition t args⟩ ∈ ctx.identifiers names
  := by
  simp [identifiers]

@[simp]
theorem condition_mem_clause (keyword : String) :
  ⟨flags, .condition t args⟩ ∈ ctx.clause keyword sss
    ↔ ∃ ss ∈ sss, ⟨flags, .condition t args⟩ ∈ ss
  := by
  cases sss <;> simp [clause]

@[simp]
theorem condition_mem_filters :
  ⟨flags, .condition t args⟩ ∈ ctx.filters sss ↔ ∃ ss ∈ sss, ⟨flags, .condition t args⟩ ∈ ss
  := by
  cases sss <;> simp [filters]

@[simp]
theorem condition_mem_ordering :
  ⟨flags, .condition t args⟩ ∈ ctx.ordering sss ↔ ∃ ss ∈ sss, ⟨flags, .condition t args⟩ ∈ ss
  := by
  cases sss <;> simp [ordering]

@[simp]
theorem condition_mem_orderTerm (direction : Direction) (nulls : Option NullsPlace) :
  ⟨flags, .condition t args⟩ ∈ ctx.orderTerm ss direction nulls
    ↔ ⟨flags, .condition t args⟩ ∈ ss
  := by
  unfold orderTerm
  dsimp only
  split <;> simp

@[simp]
theorem condition_mem_limits (limit offset : Option (List Step)) :
  ⟨flags, .condition t args⟩ ∈ ctx.limits limit offset
    ↔ (∃ ss ∈ limit, ⟨flags, .condition t args⟩ ∈ ss)
      ∨ ∃ ss ∈ offset, ⟨flags, .condition t args⟩ ∈ ss
  := by
  cases limit <;> cases offset <;> simp [limits]

@[simp]
theorem condition_mem_constraint (on : Option (List Step)) (shared : List String) :
  ⟨flags, .condition t args⟩ ∈ ctx.constraint on shared
    ↔ ∃ ss ∈ on, ⟨flags, .condition t args⟩ ∈ ss
  := by
  cases on with
  | some ss => simp [constraint]
  | none => cases shared <;> simp [constraint]

@[simp]
theorem condition_mem_insertedRows :
  ⟨flags, .condition t args⟩ ∈ ctx.insertedRows sss
    ↔ ∃ ss ∈ sss, ⟨flags, .condition t args⟩ ∈ ss
  := by
  unfold insertedRows
  split <;> simp

/-- Rows are inserted only when all are as wide as there are columns. -/
@[simp]
theorem condition_mem_inserted (columns : Nat) (widths : List Nat) :
  ⟨flags, .condition t args⟩ ∈ ctx.inserted columns widths sss none
    ↔ (∀ width ∈ widths, width = columns) ∧ ∃ ss ∈ sss, ⟨flags, .condition t args⟩ ∈ ss
  := by
  have refused (e : CompileError) :
      ¬ ⟨flags, .condition t args⟩ ∈ ctx.piece (.refusal e) := by
    simp [piece]
  unfold inserted
  cases sss with
  | nil => simp [refused]
  | cons ss r =>
      cases hfind : widths.find? fun width => width != columns with
      | none =>
          have hall : ∀ width ∈ widths, width = columns := by
            simpa [List.find?_eq_none] using hfind
          rw [and_iff_right hall]
          simp
      | some width =>
          have hne : width ≠ columns := by simpa using List.find?_some hfind
          have hnot : ¬ ∀ width ∈ widths, width = columns :=
            fun hall => hne (hall width (List.mem_of_find?_eq_some hfind))
          simp [refused, hnot]

end Context

variable {ctx : Context}

/-! ### Parts

A raw condition among the steps of a construct is among the steps of one of its parts. -/

@[simp]
theorem Table.condition_mem_steps (table : Table) :
  ¬ ⟨flags, .condition t args⟩ ∈ table.steps ctx
  := by
  unfold Table.steps
  split <;> simp

theorem Operand.condition_mem_steps {x : Operand} :
  ⟨flags, .condition t args⟩ ∈ x.steps ctx
    ↔ ∃ p ∈ x.parts, ⟨flags, .condition t args⟩ ∈ p.steps ctx
  := by
  cases x with
  | node n =>
      rw [Operand.steps]
      split <;> simp [parts, Part.steps]
  | list vs => simp [Operand.steps, parts, Context.piece]
  | value v => simp [Operand.steps, parts, Context.piece]

theorem Node.condition_mem_steps {n : Node} :
  ⟨flags, .condition t args⟩ ∈ n.steps ctx
    ↔ ∃ p ∈ n.parts, ⟨flags, .condition t args⟩ ∈ p.steps ctx
  := by
  cases n <;> simp [Node.steps, parts, Part.steps]

/-- A raw condition among the steps of a condition is that condition itself, or among the steps
of a part. -/
theorem Criterion.condition_mem_steps {c : Criterion} :
  ⟨flags, .condition t args⟩ ∈ c.steps ctx
    ↔ (c = .raw t args ∧ flags = ctx.flags)
      ∨ ∃ p ∈ c.parts, ⟨flags, .condition t args⟩ ∈ p.steps ctx
  := by
  cases c with
  | member operand values negated =>
      rw [Criterion.steps]
      split <;> simp [parts, Part.steps]
  | like operand pattern escape negated =>
      cases escape <;> simp [Criterion.steps, parts, Part.steps, Context.piece]
  | combination op members =>
      rw [Criterion.steps]
      split
      · simp_all [parts]
      · simp [parts, Part.steps, Criterion.stepsEach_eq_map]
  | raw s vs => simp [Criterion.steps, parts, Context.piece, eq_comm, and_comm]
  | _ => simp [Criterion.steps, parts, Part.steps]

theorem Computed.condition_mem_steps {e : Computed} :
  ⟨flags, .condition t args⟩ ∈ e.steps ctx
    ↔ ∃ p ∈ e.parts, ⟨flags, .condition t args⟩ ∈ p.steps ctx
  := by
  cases e with
  | call name xs distinct => simp [Computed.steps, parts, Part.steps, Operand.stepsEach_eq_map]
  | raw s => simp [Computed.steps, parts, Context.piece]
  | _ => simp [Computed.steps, parts, Part.steps]

theorem SelectItem.condition_mem_steps {f : SelectItem} :
  ⟨flags, .condition t args⟩ ∈ f.steps ctx
    ↔ ∃ p ∈ f.parts, ⟨flags, .condition t args⟩ ∈ p.steps ctx
  := by
  cases f with
  | column c =>
      rw [SelectItem.steps]
      split <;> simp [parts]
  | _ => simp [SelectItem.steps, parts, Part.steps]

theorem Source.condition_mem_steps {s : Source} :
  ⟨flags, .condition t args⟩ ∈ s.steps ctx
    ↔ ∃ p ∈ s.parts, ⟨flags, .condition t args⟩ ∈ p.steps ctx
  := by
  cases s <;> simp [Source.steps, parts, Part.steps]

theorem Join.condition_mem_steps {j : Join} :
  ⟨flags, .condition t args⟩ ∈ j.steps ctx
    ↔ ∃ p ∈ j.parts, ⟨flags, .condition t args⟩ ∈ p.steps ctx
  := by
  obtain ⟨kind, source, on, shared⟩ := j
  cases on <;> simp [Join.steps, parts, Part.steps, Criterion.stepsOption]

theorem Order.condition_mem_steps {o : Order} :
  ⟨flags, .condition t args⟩ ∈ o.steps ctx ↔ ⟨flags, .condition t args⟩ ∈ o.operand.steps ctx
  := by
  obtain ⟨operand, direction, nulls⟩ := o
  simp [Order.steps]

theorem Query.condition_mem_coreSteps {q : Query} :
  ⟨flags, .condition t args⟩ ∈ q.coreSteps ctx
    ↔ ∃ p ∈ q.coreParts, ⟨flags, .condition t args⟩ ∈ p.steps ctx
  := by
  obtain ⟨fields, distinct, source, joins, filters, groups, having, orders, limit, offset,
    compounds, validated⟩ := q
  have listed (keyword separator : String) (xs : List (List Step)) :
      ⟨flags, .condition t args⟩ ∈ (if xs.isEmpty then []
        else ctx.text keyword ++ ctx.separated separator xs)
        ↔ ∃ ss ∈ xs, ⟨flags, .condition t args⟩ ∈ ss := by
    cases xs <;> simp
  have selected (xs : List (List Step)) :
      ⟨flags, .condition t args⟩ ∈ (if xs.isEmpty then ctx.text "*"
        else ctx.separated ", " xs)
        ↔ ∃ ss ∈ xs, ⟨flags, .condition t args⟩ ∈ ss := by
    cases xs <;> simp
  simp only [coreSteps_eq, Context.selection, List.mem_append, listed, selected, coreParts]
  cases source <;> simp [Part.steps, or_and_right, exists_or]

theorem Query.condition_mem_steps_statement {q : Query} :
  ⟨flags, .condition t args⟩ ∈ q.steps .statement ctx
    ↔ ∃ p ∈ q.parts (ctx.flags.contains .topLevel || q.isLimited),
        ⟨flags, .condition t args⟩ ∈ p.steps (ctx.inside q.validated)
  := by
  have compounded (inner : Context) :
      ⟨flags, .condition t args⟩ ∈ q.compounds.flatMap (fun e =>
          inner.text (" " ++ e.1.keyword ++ " ") ++ e.2.steps .member inner)
        ↔ ∃ p ∈ q.compounds.map fun e => Part.query .member e.2,
            ⟨flags, .condition t args⟩ ∈ p.steps inner := by
    simp [Part.steps, -Prod.exists]
  have ordered (inner : Context) (b : Bool) :
      ⟨flags, .condition t args⟩ ∈
          (if b then inner.ordering (q.orders.map (Order.steps inner)) else [])
        ↔ ∃ p ∈ (if b then q.orders.map Part.order else []),
            ⟨flags, .condition t args⟩ ∈ p.steps inner := by
    cases b <;> simp [Part.steps]
  have limited (inner : Context) :
      ⟨flags, .condition t args⟩ ∈ inner.limits (q.limit.map (Operand.steps inner))
          (q.offset.map (Operand.steps inner))
        ↔ (∃ p ∈ q.limit.toList.map Part.operand, ⟨flags, .condition t args⟩ ∈ p.steps inner)
          ∨ ∃ p ∈ q.offset.toList.map Part.operand,
              ⟨flags, .condition t args⟩ ∈ p.steps inner := by
    simp [Part.steps]
  rw [steps_statement, parts]
  simp only [List.mem_append, condition_mem_coreSteps, compounded, ordered, limited,
    or_and_right, exists_or, or_assoc]

theorem Query.condition_mem_steps_member {q : Query} :
  ⟨flags, .condition t args⟩ ∈ q.steps .member ctx
    ↔ ∃ r ∈ (Part.query .member q).parts ctx, ⟨flags, .condition t args⟩ ∈ r.2.steps r.1
  := by
  rw [steps_member, Part.parts]
  split
  · simp [condition_mem_coreSteps]
  · simp [Part.steps]

theorem Insert.condition_mem_rows (columns : Nat) (rows : List (List Operand)) :
  ⟨flags, .condition t args⟩ ∈ ctx.inserted columns (rows.map List.length)
      (rows.map fun r => ctx.separated ", " (r.map (Operand.steps ctx))) none
    ↔ ∃ p ∈ (if rows.all (·.length == columns) then rows.flatten.map Part.operand else []),
        ⟨flags, .condition t args⟩ ∈ p.steps ctx
  := by
  have hwidths : (∀ width ∈ rows.map List.length, width = columns)
      ↔ rows.all (·.length == columns) = true := by
    simp
  rw [Context.condition_mem_inserted, hwidths]
  cases rows.all (·.length == columns) with
  | false => simp
  | true =>
      rw [and_iff_right rfl, if_pos rfl]
      constructor
      · simp only [List.mem_map, exists_exists_and_eq_and, Context.condition_mem_separated]
        rintro ⟨r, hr, x, hx, h⟩
        exact ⟨x, List.mem_flatten_of_mem hr hx, h⟩
      · rintro ⟨p, hp, h⟩
        obtain ⟨x, hx, rfl⟩ := List.mem_map.mp hp
        obtain ⟨r, hr, hxr⟩ := List.mem_flatten.mp hx
        refine ⟨_, List.mem_map_of_mem hr, ?_⟩
        rw [Context.condition_mem_separated]
        exact ⟨x.steps ctx, List.mem_map_of_mem hxr, h⟩

theorem Insert.condition_mem_steps {i : Sql.Insert} :
  ⟨flags, .condition t args⟩ ∈ i.steps ctx
    ↔ ∃ p ∈ i.parts, ⟨flags, .condition t args⟩ ∈ p.steps ctx
  := by
  obtain ⟨table, columns, rows, select, useDefaults, conflict⟩ := i
  rw [Insert.steps, parts]
  cases useDefaults with
  | true => simp
  | false =>
      cases hcolumns : columns.isEmpty with
      | true => simp [Context.piece]
      | false =>
          cases select with
          | some q => simp [Query.stepsOption, Context.inserted, Part.steps]
          | none =>
              rw [Query.stepsOption, Operand.stepsRows_eq_map]
              simpa using condition_mem_rows columns.length rows

theorem Update.condition_mem_steps {u : Update} :
  ⟨flags, .condition t args⟩ ∈ u.steps ctx
    ↔ ∃ p ∈ u.parts, ⟨flags, .condition t args⟩ ∈ p.steps ctx
  := by
  obtain ⟨table, assignments, filters, conflict⟩ := u
  rw [Update.steps, parts]
  split
  · simp [Context.piece]
  · simp [Operand.stepsAssigned_eq_map, Criterion.stepsEach_eq_map, Part.steps, or_and_right,
      exists_or, -Prod.exists]

theorem Delete.condition_mem_steps {d : Delete} :
  ⟨flags, .condition t args⟩ ∈ d.steps ctx
    ↔ ∃ p ∈ d.parts, ⟨flags, .condition t args⟩ ∈ p.steps ctx
  := by
  obtain ⟨table, filters⟩ := d
  simp [Delete.steps, parts, Criterion.stepsEach_eq_map, Part.steps]

namespace Part

/-- A raw condition among the steps of a part is that part, or among the steps of what is
rendered directly in it. -/
theorem condition_mem_steps {p : Part} :
  ⟨flags, .condition t args⟩ ∈ p.steps ctx
    ↔ (p = .criterion (.raw t args) ∧ flags = ctx.flags)
      ∨ ∃ r ∈ p.parts ctx, ⟨flags, .condition t args⟩ ∈ r.2.steps r.1
  := by
  cases p with
  | query role q =>
      cases role with
      | statement => simp [steps, parts, Query.condition_mem_steps_statement]
      | member => simp [steps, Query.condition_mem_steps_member]
  | operand x => simp [steps, parts, Operand.condition_mem_steps (x := x)]
  | node n => simp [steps, parts, Node.condition_mem_steps (n := n)]
  | criterion c => simp [steps, parts, Criterion.condition_mem_steps (c := c)]
  | computed e => simp [steps, parts, Computed.condition_mem_steps (e := e)]
  | item f => simp [steps, parts, SelectItem.condition_mem_steps (f := f)]
  | source s => simp [steps, parts, Source.condition_mem_steps (s := s)]
  | join j => simp [steps, parts, Join.condition_mem_steps (j := j)]
  | order o => simp [steps, parts, Order.condition_mem_steps (o := o)]
  | insert i => simp [steps, parts, Insert.condition_mem_steps (i := i)]
  | update u => simp [steps, parts, Update.condition_mem_steps (u := u)]
  | delete d => simp [steps, parts, Delete.condition_mem_steps (d := d)]

/-- The raw conditions that the steps of a part write are those that are rendered in it. -/
theorem condition_mem_steps_iff (p : Context × Part) :
  ⟨flags, .condition t args⟩ ∈ p.2.steps p.1
    ↔ ∃ ctx : Context, ctx.flags = flags ∧ Renders p (ctx, .criterion (.raw t args))
  := by
  constructor
  · induction p using Part.induction with
    | step p ih =>
        intro h
        obtain ⟨hp, rfl⟩ | ⟨r, hr, hs⟩ := condition_mem_steps.mp h
        · refine ⟨p.1, rfl, ?_⟩
          rw [← hp]
          exact Relation.ReflTransGen.refl
        · obtain ⟨ctx, hflags, hrenders⟩ := ih r hr hs
          exact ⟨ctx, hflags, .head hr hrenders⟩
  · rintro ⟨ctx, rfl, h⟩
    apply (infix_of_renders h).subset
    exact condition_mem_steps.mpr (.inl ⟨rfl, rfl⟩)

end Part

end TypedSql.Sql
