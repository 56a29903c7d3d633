import Mathlib.Logic.Relation
import TypedSql.Sql.Rendering

/-!
# Parts

A tree is rendered part by part.  The parts of a node, a condition or a clause are what is
rendered directly in it, each in the context in which it is rendered; what is never written,
such as the ordering of a nested query without limits, is no part.  A part is rendered in a
tree when it is reached from the tree through parts of parts.

Only a query renders its parts in another context than its own, and only as a statement: as
the plain member of a compound its select core is rendered in the context of the compound.

The main statement, `Part.infix_of_renders`, says that the steps of whatever is rendered in a part
stand, one after the other, among the steps of the part.
-/

namespace TypedSql.Sql

/-- Whether a query is nothing but its select core, so that it is a plain member of
compounds. -/
def Query.isPlain (q : Query) : Bool :=
  q.compounds.isEmpty && !q.isLimited

/-- What is rendered in a tree. -/
inductive Part where
  | operand (x : Operand)
  | node (n : Node)
  | criterion (c : Criterion)
  | computed (e : Computed)
  | item (f : SelectItem)
  | source (s : Source)
  | join (j : Join)
  | order (o : Order)
  | query (role : Role) (q : Query)
  | insert (i : Insert)
  | update (u : Update)
  | delete (d : Delete)

/-- The steps of a part. -/
def Part.steps (ctx : Context) : Part → List Step
  | operand x => x.steps ctx
  | node n => n.steps ctx
  | criterion c => c.steps ctx
  | computed e => e.steps ctx
  | item f => f.steps ctx
  | source s => s.steps ctx
  | join j => j.steps ctx
  | order o => o.steps ctx
  | query role q => q.steps role ctx
  | insert i => i.steps ctx
  | update u => u.steps ctx
  | delete d => d.steps ctx

/-! ### What is rendered directly in a part -/

/-- The parts of an operand. -/
def Operand.parts : Operand → List Part
  | .node n => [.node n]
  | .list _ | .value _ => []

/-- The parts of a node. -/
def Node.parts : Node → List Part
  | .column _ | .table _ => []
  | .criterion c => [.criterion c]
  | .computed e => [.computed e]
  | .query q => [.query .statement q]
  | .insert i => [.insert i]
  | .update u => [.update u]
  | .delete d => [.delete d]

/-- The parts of a condition. -/
def Criterion.parts : Criterion → List Part
  | .compare left _ right => [.operand left, .operand right]
  | .nullCheck operand _ => [.operand operand]
  | .member operand values _ => [.operand operand, .operand values]
  | .between operand low high _ => [.operand operand, .operand low, .operand high]
  | .like operand pattern _ _ => [.operand operand, .operand pattern]
  | .existence query _ => [.query .statement query]
  | .combination _ members => members.map .criterion
  | .negation c => [.criterion c]
  | .raw _ _ => []

/-- The parts of a computed expression. -/
def Computed.parts : Computed → List Part
  | .call _ args _ => args.map .operand
  | .arithmetic _ left right => [.operand left, .operand right]
  | .countAll | .raw _ => []

/-- The parts of an entry of a select list. -/
def SelectItem.parts : SelectItem → List Part
  | .computed expression _ => [.operand expression]
  | .column _ | .all | .allOf _ => []

/-- The parts of a source. -/
def Source.parts : Source → List Part
  | .table _ => []
  | .subquery query _ => [.query .statement query]

/-- The parts of a join. -/
def Join.parts (j : Join) : List Part :=
  .source j.source :: j.on.toList.map .criterion

/-- The parts of the select core of a query. -/
def Query.coreParts (q : Query) : List Part :=
  q.fields.map .item ++ q.source.toList.map .source ++ q.joins.map .join ++
    q.filters.map .criterion ++ q.groups.map .operand ++ q.having.map .criterion

/-- The parts of a query that is a statement: its core, the members of its compound, its
ordering where that is written, its limit and its offset. -/
def Query.parts (q : Query) (isOrdered : Bool) : List Part :=
  q.coreParts ++ q.compounds.map (fun e => .query .member e.2) ++
    (if isOrdered then q.orders.map .order else []) ++
    q.limit.toList.map .operand ++ q.offset.toList.map .operand

theorem Query.coreParts_subset_parts (q : Query) (isOrdered : Bool) :
  q.coreParts ⊆ q.parts isOrdered
  := by
  intro p hp
  simp only [parts, List.mem_append, hp, true_or]

/-- The parts of an insertion: its query, or else its rows, when all are as wide as there are
columns. -/
def Insert.parts (i : Insert) : List Part :=
  if i.useDefaults || i.columns.isEmpty then []
  else
    match i.select with
    | some q => [.query .statement q]
    | none =>
      if i.rows.all (·.length == i.columns.length) then i.rows.flatten.map .operand else []

/-- The parts of an update. -/
def Update.parts (u : Update) : List Part :=
  if u.assignments.isEmpty then []
  else u.assignments.map (fun e => .operand e.2) ++ u.filters.map .criterion

/-- The parts of a deletion. -/
def Delete.parts (d : Delete) : List Part :=
  d.filters.map .criterion

/-- What is rendered directly in a part in a context, each part in its own context. -/
def Part.parts (ctx : Context) : Part → List (Context × Part)
  | operand x => x.parts.map (ctx, ·)
  | node n => n.parts.map (ctx, ·)
  | criterion c => c.parts.map (ctx, ·)
  | computed e => e.parts.map (ctx, ·)
  | item f => f.parts.map (ctx, ·)
  | source s => s.parts.map (ctx, ·)
  | join j => j.parts.map (ctx, ·)
  | order o => [(ctx, operand o.operand)]
  | query .statement q =>
    (q.parts (ctx.flags.contains .topLevel || q.isLimited)).map (ctx.inside q.validated, ·)
  | query .member q =>
    if q.isPlain then q.coreParts.map (ctx, ·) else [(ctx, query .statement q)]
  | insert i => i.parts.map (ctx, ·)
  | update u => u.parts.map (ctx, ·)
  | delete d => d.parts.map (ctx, ·)

/-- Whether a part is rendered in another, both in their contexts: it is that part, or it is
reached through parts of parts. -/
def Part.Renders : Context × Part → Context × Part → Prop :=
  Relation.ReflTransGen fun p r => r ∈ p.2.parts p.1

/-! ### The steps of each -/

theorem Operand.stepsEach_eq_map (ctx : Context) (xs : List Operand) :
  Operand.stepsEach ctx xs = xs.map (Operand.steps ctx)
  := by
  induction xs with
  | nil => rfl
  | cons x xs ih => rw [Operand.stepsEach, ih, List.map_cons]

theorem Operand.stepsRows_eq_map (ctx : Context) (rs : List (List Operand)) :
  Operand.stepsRows ctx rs
    = rs.map fun r => ctx.separated ", " (r.map (Operand.steps ctx))
  := by
  induction rs with
  | nil => rfl
  | cons r rs ih => rw [Operand.stepsRows, ih, Operand.stepsEach_eq_map, List.map_cons]

theorem Operand.stepsAssigned_eq_map (ctx : Context) (xs : List (String × Operand)) :
  Operand.stepsAssigned ctx xs
    = xs.map fun e => ctx.identifier e.1 ++ ctx.text " = " ++ e.2.steps ctx
  := by
  induction xs with
  | nil => rfl
  | cons e xs ih =>
      obtain ⟨name, x⟩ := e
      rw [Operand.stepsAssigned, ih, List.map_cons]

theorem Operand.stepsOption_eq_map (ctx : Context) (x : Option Operand) :
  Operand.stepsOption ctx x = x.map (Operand.steps ctx)
  := by
  cases x <;> rfl

theorem Criterion.stepsEach_eq_map (ctx : Context) (cs : List Criterion) :
  Criterion.stepsEach ctx cs = cs.map (Criterion.steps ctx)
  := by
  induction cs with
  | nil => rfl
  | cons c cs ih => rw [Criterion.stepsEach, ih, List.map_cons]

theorem Criterion.stepsOption_eq_map (ctx : Context) (c : Option Criterion) :
  Criterion.stepsOption ctx c = c.map (Criterion.steps ctx)
  := by
  cases c <;> rfl

theorem SelectItem.stepsEach_eq_map (ctx : Context) (fs : List SelectItem) :
  SelectItem.stepsEach ctx fs = fs.map (SelectItem.steps ctx)
  := by
  induction fs with
  | nil => rfl
  | cons f fs ih => rw [SelectItem.stepsEach, ih, List.map_cons]

theorem Source.stepsOption_eq_map (ctx : Context) (s : Option Source) :
  Source.stepsOption ctx s = s.map (Source.steps ctx)
  := by
  cases s <;> rfl

theorem Join.stepsAll_eq_flatMap (ctx : Context) (js : List Join) :
  Join.stepsAll ctx js = js.flatMap (Join.steps ctx)
  := by
  induction js with
  | nil => rfl
  | cons j js ih => rw [Join.stepsAll, ih, List.flatMap_cons]

theorem Order.stepsEach_eq_map (ctx : Context) (os : List Order) :
  Order.stepsEach ctx os = os.map (Order.steps ctx)
  := by
  induction os with
  | nil => rfl
  | cons o os ih => rw [Order.stepsEach, ih, List.map_cons]

theorem Query.stepsOption_eq_map (ctx : Context) (q : Option Query) :
  Query.stepsOption ctx q = q.map (Query.steps .statement ctx)
  := by
  cases q <;> rfl

theorem Query.stepsCompounds_eq_flatMap (ctx : Context) (qs : List (Compounding × Query)) :
  Query.stepsCompounds ctx qs
    = qs.flatMap fun e => ctx.text (" " ++ e.1.keyword ++ " ") ++ e.2.steps .member ctx
  := by
  induction qs with
  | nil => rfl
  | cons e qs ih =>
      obtain ⟨op, q⟩ := e
      rw [Query.stepsCompounds, ih, List.flatMap_cons]

/-- What is left of a query without compounds, ordering and limits. -/
structure SelectCore where
  fields : List SelectItem
  distinct : Bool
  source : Option Source
  joins : List Join
  filters : List Criterion
  groups : List Operand
  having : List Criterion

/-- The steps of a select core. -/
def SelectCore.steps (ctx : Context) (c : SelectCore) : List Step :=
  ctx.selection c.distinct (c.fields.map (SelectItem.steps ctx))
    (c.source.map (Source.steps ctx)) (c.joins.flatMap (Join.steps ctx))
    (c.filters.map (Criterion.steps ctx)) (c.groups.map (Operand.steps ctx))
    (c.having.map (Criterion.steps ctx))

/-- The select core of a query. -/
def Query.core (q : Query) : SelectCore :=
  ⟨q.fields, q.distinct, q.source, q.joins, q.filters, q.groups, q.having⟩

/-- The steps of the select core of a query. -/
def Query.coreSteps (ctx : Context) (q : Query) : List Step :=
  q.core.steps ctx

theorem Query.coreSteps_eq (ctx : Context) (q : Query) :
  q.coreSteps ctx
    = ctx.selection q.distinct (q.fields.map (SelectItem.steps ctx))
        (q.source.map (Source.steps ctx)) (q.joins.flatMap (Join.steps ctx))
        (q.filters.map (Criterion.steps ctx)) (q.groups.map (Operand.steps ctx))
        (q.having.map (Criterion.steps ctx))
  := rfl

/-- The steps of a query that is a statement. -/
theorem Query.steps_statement (ctx : Context) (q : Query) :
  q.steps .statement ctx
    = q.coreSteps (ctx.inside q.validated) ++
      q.compounds.flatMap (fun e => (ctx.inside q.validated).text (" " ++ e.1.keyword ++ " ") ++
        e.2.steps .member (ctx.inside q.validated)) ++
      (if ctx.flags.contains .topLevel || q.isLimited then
        (ctx.inside q.validated).ordering (q.orders.map (Order.steps (ctx.inside q.validated)))
        else []) ++
      (ctx.inside q.validated).limits (q.limit.map (Operand.steps (ctx.inside q.validated)))
        (q.offset.map (Operand.steps (ctx.inside q.validated)))
  := by
  cases q
  simp only [Query.steps, Context.inRole, Query.coreSteps_eq, Query.isLimited,
    Query.stepsCompounds_eq_flatMap, SelectItem.stepsEach_eq_map, Source.stepsOption_eq_map,
    Join.stepsAll_eq_flatMap, Criterion.stepsEach_eq_map, Operand.stepsEach_eq_map,
    Order.stepsEach_eq_map, Operand.stepsOption_eq_map]
  rfl

/-- The steps of a query that is a member of a compound: its core, or a query of its
result. -/
theorem Query.steps_member (ctx : Context) (q : Query) :
  q.steps .member ctx
    = if q.isPlain then q.coreSteps ctx
      else ctx.text "SELECT * FROM " ++ ctx.enclosed (q.steps .statement ctx)
  := by
  cases q
  simp only [Query.steps, Context.inRole, Query.coreSteps_eq, Query.isPlain, Query.isLimited,
    SelectItem.stepsEach_eq_map, Source.stepsOption_eq_map, Join.stepsAll_eq_flatMap,
    Criterion.stepsEach_eq_map, Operand.stepsEach_eq_map]

/-! ### Where the steps of a part stand -/

namespace Context

variable {ctx : Context} {ss : List Step} {sss : List (List Step)}

theorem infix_enclosed :
  ss <:+: ctx.enclosed ss
  := List.infix_append _ _ _

theorem infix_enclosedForValidation :
  ss <:+: ctx.enclosedForValidation ss
  := by
  unfold enclosedForValidation
  split
  · exact infix_enclosed
  · exact List.infix_rfl

theorem infix_separated {separator : String} (h : ss ∈ sss) :
  ss <:+: ctx.separated separator sss
  := by
  induction sss with
  | nil => cases h
  | cons ts r ih =>
      cases r with
      | nil =>
          rw [List.mem_singleton.mp h]
          exact List.infix_rfl
      | cons us r =>
          rw [separated]
          obtain rfl | h := List.mem_cons.mp h
          · rw [List.append_assoc]
            exact List.infix_append_left
          · apply List.infix_append_of_infix_right (ih h)

theorem infix_clause {keyword : String} (h : ss ∈ sss) :
  ss <:+: ctx.clause keyword sss
  := by
  cases sss with
  | nil => cases h
  | cons ts r =>
      apply List.infix_append_of_infix_right
      apply (infix_separated h).trans infix_enclosedForValidation

theorem infix_filters (h : ss ∈ sss) :
  ss <:+: ctx.filters sss
  := by
  cases sss with
  | nil => cases h
  | cons ts r => exact List.infix_append_of_infix_right (infix_separated h)

theorem infix_ordering (h : ss ∈ sss) :
  ss <:+: ctx.ordering sss
  := by
  cases sss with
  | nil => cases h
  | cons ts r => exact List.infix_append_of_infix_right (infix_separated h)

theorem infix_orderTerm (direction : Direction) (nulls : Option NullsPlace) :
  ss <:+: ctx.orderTerm ss direction nulls
  := by
  have hterm : ss <:+: ss ++ ctx.text (" " ++ direction.keyword) := List.infix_append_left
  unfold orderTerm
  dsimp only
  split
  · exact hterm
  · exact List.infix_append_of_infix_left hterm
  · exact List.infix_append_of_infix_left hterm
  · exact List.infix_append_of_infix_right hterm
  · exact List.infix_append_of_infix_right hterm

theorem infix_limits_limit (offset : Option (List Step)) :
  ss <:+: ctx.limits (some ss) offset
  := by
  cases offset with
  | none => exact List.infix_append_right
  | some o =>
      apply List.infix_append_of_infix_left
      apply List.infix_append_of_infix_left List.infix_append_right

theorem infix_limits_offset (limit : Option (List Step)) :
  ss <:+: ctx.limits limit (some ss)
  := by
  cases limit <;> exact List.infix_append_right

theorem infix_insertedRows (h : ss ∈ sss) :
  ss <:+: ctx.insertedRows sss
  := by
  unfold insertedRows
  split
  · exact List.infix_append_of_infix_right (infix_separated h)
  · apply List.infix_append_of_infix_right
    apply infix_enclosed.trans (infix_separated (List.mem_map_of_mem h))

/-- What is selected, and the conditions on it, stand in the select core. -/
theorem infix_selection {distinct : Bool} {fields filters groups having : List (List Step)}
    {source : Option (List Step)} {joins : List Step}
    (h : ss ∈ fields ∨ source = some ss ∨ ss <:+: joins ∨ ss ∈ filters ∨ ss ∈ groups ∨
      ss ∈ having) :
  ss <:+: ctx.selection distinct fields source joins filters groups having
  := by
  have grouped (h : ss ∈ groups) :
      ss <:+: if groups.isEmpty then []
        else ctx.text " GROUP BY " ++ ctx.separated ", " groups := by
    cases groups with
    | nil => cases h
    | cons ts r => exact List.infix_append_of_infix_right (infix_separated h)
  have listed (h : ss ∈ fields) :
      ss <:+: if fields.isEmpty then ctx.text "*" else ctx.separated ", " fields := by
    cases fields with
    | nil => cases h
    | cons ts r => exact infix_separated h
  simp only [selection, List.append_assoc]
  apply List.infix_append_of_infix_right
  obtain h | rfl | h | h | h | h := h
  · apply List.infix_append_of_infix_left (listed h)
  · apply List.infix_append_of_infix_right
    apply List.infix_append_of_infix_left List.infix_append_right
  · apply List.infix_append_of_infix_right
    apply List.infix_append_of_infix_right
    apply List.infix_append_of_infix_left h
  · apply List.infix_append_of_infix_right
    apply List.infix_append_of_infix_right
    apply List.infix_append_of_infix_right
    apply List.infix_append_of_infix_left (infix_clause h)
  · apply List.infix_append_of_infix_right
    apply List.infix_append_of_infix_right
    apply List.infix_append_of_infix_right
    apply List.infix_append_of_infix_right
    apply List.infix_append_of_infix_left (grouped h)
  · apply List.infix_append_of_infix_right
    apply List.infix_append_of_infix_right
    apply List.infix_append_of_infix_right
    apply List.infix_append_of_infix_right
    apply List.infix_append_of_infix_right (infix_clause h)

end Context

variable {ctx : Context} {p : Part}

theorem Operand.infix_of_mem_parts {x : Operand} (h : p ∈ x.parts) :
  p.steps ctx <:+: x.steps ctx
  := by
  cases x with
  | node n =>
      obtain rfl := List.mem_singleton.mp h
      rw [Operand.steps]
      split
      · exact Context.infix_enclosed
      · exact List.infix_rfl
  | list vs => cases h
  | value v => cases h

theorem Node.infix_of_mem_parts {n : Node} (h : p ∈ n.parts) :
  p.steps ctx <:+: n.steps ctx
  := by
  cases n with
  | column c => cases h
  | table t => cases h
  | _ =>
      obtain rfl := List.mem_singleton.mp h
      exact List.infix_rfl

theorem Criterion.infix_of_mem_parts {c : Criterion} (h : p ∈ c.parts) :
  p.steps ctx <:+: c.steps ctx
  := by
  cases c with
  | compare left op right =>
      simp only [parts, List.mem_cons, List.not_mem_nil, or_false] at h
      rw [Criterion.steps, List.append_assoc]
      obtain rfl | rfl := h
      · exact List.infix_append_left
      · apply List.infix_append_of_infix_right List.infix_append_right
  | nullCheck operand negated =>
      obtain rfl := List.mem_singleton.mp h
      exact List.infix_append_left
  | member operand values negated =>
      simp only [parts, List.mem_cons, List.not_mem_nil, or_false] at h
      rw [Criterion.steps, List.append_assoc]
      obtain rfl | rfl := h
      · exact List.infix_append_left
      · apply List.infix_append_of_infix_right
        apply List.infix_append_of_infix_right
        split
        · exact List.infix_rfl
        · exact Context.infix_enclosed
  | between operand low high negated =>
      simp only [parts, List.mem_cons, List.not_mem_nil, or_false] at h
      simp only [Criterion.steps, List.append_assoc]
      obtain rfl | rfl | rfl := h
      · exact List.infix_append_left
      · apply List.infix_append_of_infix_right
        apply List.infix_append_of_infix_right List.infix_append_left
      · apply List.infix_append_of_infix_right
        apply List.infix_append_of_infix_right
        apply List.infix_append_of_infix_right List.infix_append_right
  | like operand pattern escape negated =>
      simp only [parts, List.mem_cons, List.not_mem_nil, or_false] at h
      simp only [Criterion.steps, List.append_assoc]
      obtain rfl | rfl := h
      · exact List.infix_append_left
      · apply List.infix_append_of_infix_right
        apply List.infix_append_of_infix_right List.infix_append_left
  | existence query negated =>
      obtain rfl := List.mem_singleton.mp h
      apply List.infix_append_of_infix_right Context.infix_enclosed
  | combination op members =>
      obtain ⟨c, hc, rfl⟩ := List.mem_map.mp h
      rw [Criterion.steps, Criterion.stepsEach_eq_map, if_neg (by simp [List.ne_nil_of_mem hc])]
      apply List.IsInfix.trans _ Context.infix_enclosedForValidation
      apply List.IsInfix.trans _ Context.infix_enclosed
      apply Context.infix_separated (List.mem_map_of_mem hc)
  | negation c =>
      obtain rfl := List.mem_singleton.mp h
      apply List.infix_append_of_infix_right Context.infix_enclosed
  | raw s args => cases h

theorem Computed.infix_of_mem_parts {e : Computed} (h : p ∈ e.parts) :
  p.steps ctx <:+: e.steps ctx
  := by
  cases e with
  | call name args distinct =>
      obtain ⟨x, hx, rfl⟩ := List.mem_map.mp h
      rw [Computed.steps, Operand.stepsEach_eq_map]
      apply List.infix_append_of_infix_left
      apply List.infix_append_of_infix_right
      apply Context.infix_separated (List.mem_map_of_mem hx)
  | countAll => cases h
  | arithmetic op left right =>
      simp only [parts, List.mem_cons, List.not_mem_nil, or_false] at h
      rw [Computed.steps, List.append_assoc]
      apply List.IsInfix.trans _ Context.infix_enclosed
      obtain rfl | rfl := h
      · exact List.infix_append_left
      · apply List.infix_append_of_infix_right List.infix_append_right
  | raw s => cases h

theorem SelectItem.infix_of_mem_parts {f : SelectItem} (h : p ∈ f.parts) :
  p.steps ctx <:+: f.steps ctx
  := by
  cases f with
  | computed expression name =>
      obtain rfl := List.mem_singleton.mp h
      apply List.infix_append_of_infix_left List.infix_append_left
  | _ => cases h

theorem Source.infix_of_mem_parts {s : Source} (h : p ∈ s.parts) :
  p.steps ctx <:+: s.steps ctx
  := by
  cases s with
  | table t => cases h
  | subquery query name =>
      obtain rfl := List.mem_singleton.mp h
      apply List.infix_append_of_infix_left
      apply List.infix_append_of_infix_left Context.infix_enclosed

theorem Join.infix_of_mem_parts {j : Join} (h : p ∈ j.parts) :
  p.steps ctx <:+: j.steps ctx
  := by
  obtain ⟨kind, source, on, shared⟩ := j
  rw [Join.steps, List.append_assoc]
  apply List.infix_append_of_infix_right
  obtain rfl | h := List.mem_cons.mp h
  · exact List.infix_append_left
  · cases on with
    | none => cases h
    | some c =>
        obtain rfl := List.mem_singleton.mp h
        apply List.infix_append_of_infix_right List.infix_append_right

theorem Order.infix_steps (o : Order) :
  o.operand.steps ctx <:+: o.steps ctx
  := by
  obtain ⟨operand, direction, nulls⟩ := o
  apply Context.infix_orderTerm

theorem Query.infix_of_mem_coreParts {q : Query} (h : p ∈ q.coreParts) :
  p.steps ctx <:+: q.coreSteps ctx
  := by
  simp only [coreParts, List.mem_append, List.mem_map] at h
  rw [coreSteps_eq]
  apply Context.infix_selection
  obtain ((((⟨f, hf, rfl⟩ | ⟨s, hs, rfl⟩) | ⟨j, hj, rfl⟩) | ⟨c, hc, rfl⟩) | ⟨x, hx, rfl⟩)
    | ⟨c, hc, rfl⟩ := h
  · exact .inl (List.mem_map_of_mem hf)
  · rw [Option.mem_toList] at hs
    rw [hs]
    exact .inr (.inl rfl)
  · refine .inr (.inr (.inl ?_))
    rw [List.flatMap_def]
    apply List.infix_of_mem_flatten (List.mem_map_of_mem hj)
  · exact .inr (.inr (.inr (.inl (List.mem_map_of_mem hc))))
  · exact .inr (.inr (.inr (.inr (.inl (List.mem_map_of_mem hx)))))
  · exact .inr (.inr (.inr (.inr (.inr (List.mem_map_of_mem hc)))))

theorem Query.infix_of_mem_parts {q : Query}
    (h : p ∈ q.parts (ctx.flags.contains .topLevel || q.isLimited)) :
  p.steps (ctx.inside q.validated) <:+: q.steps .statement ctx
  := by
  simp only [parts, List.mem_append, List.mem_map] at h
  rw [Query.steps_statement]
  obtain (((h | ⟨e, he, rfl⟩) | h) | ⟨x, hx, rfl⟩) | ⟨x, hx, rfl⟩ := h
  · apply List.infix_append_of_infix_left
    apply List.infix_append_of_infix_left
    apply List.infix_append_of_infix_left (Query.infix_of_mem_coreParts h)
  · apply List.infix_append_of_infix_left
    apply List.infix_append_of_infix_left
    apply List.infix_append_of_infix_right
    rw [List.flatMap_def]
    apply List.IsInfix.trans _ (List.infix_of_mem_flatten (List.mem_map_of_mem he))
    exact List.infix_append_right
  · apply List.infix_append_of_infix_left
    apply List.infix_append_of_infix_right
    split at h
    · rename_i ho
      obtain ⟨o, ho', rfl⟩ := List.mem_map.mp h
      rw [if_pos ho]
      apply Context.infix_ordering (List.mem_map_of_mem ho')
    · cases h
  · rw [Option.mem_toList] at hx
    rw [hx]
    apply List.infix_append_of_infix_right (Context.infix_limits_limit _)
  · rw [Option.mem_toList] at hx
    rw [hx]
    apply List.infix_append_of_infix_right (Context.infix_limits_offset _)

theorem Insert.infix_of_mem_parts {i : Sql.Insert} (h : p ∈ i.parts) :
  p.steps ctx <:+: i.steps ctx
  := by
  obtain ⟨table, columns, rows, select, useDefaults, conflict⟩ := i
  simp only [parts, Bool.or_eq_true] at h
  split at h
  · cases h
  · rename_i hd
    rw [not_or] at hd
    rw [Insert.steps, if_neg hd.1, if_neg hd.2]
    apply List.infix_append_of_infix_right
    apply List.infix_append_of_infix_right
    cases select with
    | some q =>
        obtain rfl := List.mem_singleton.mp h
        exact List.infix_rfl
    | none =>
        dsimp only at h
        split at h
        · rename_i hw
          obtain ⟨x, hx, rfl⟩ := List.mem_map.mp h
          obtain ⟨r, hr, hxr⟩ := List.mem_flatten.mp hx
          have hfind : (rows.map List.length).find? (fun width => width != columns.length)
              = none := by
            simpa [List.find?_eq_none] using hw
          have hempty : ¬ (rows.map fun r =>
              ctx.separated ", " (r.map (Operand.steps ctx))).isEmpty = true := by
            simp [List.ne_nil_of_mem hr]
          rw [Query.stepsOption, Operand.stepsRows_eq_map, Context.inserted, if_neg hempty, hfind]
          have hrow : x.steps ctx <:+: ctx.separated ", " (r.map (Operand.steps ctx)) :=
            Context.infix_separated (List.mem_map_of_mem hxr)
          exact hrow.trans (Context.infix_insertedRows (List.mem_map.mpr ⟨r, hr, rfl⟩))
        · cases h

theorem Update.infix_of_mem_parts {u : Update} (h : p ∈ u.parts) :
  p.steps ctx <:+: u.steps ctx
  := by
  obtain ⟨table, assignments, filters, conflict⟩ := u
  rw [parts] at h
  split at h
  · cases h
  · rename_i ha
    rw [Update.steps, if_neg ha, Operand.stepsAssigned_eq_map, Criterion.stepsEach_eq_map]
    simp only [List.mem_append, List.mem_map] at h
    obtain ⟨e, he, rfl⟩ | ⟨c, hc, rfl⟩ := h
    · apply List.infix_append_of_infix_left
      apply List.infix_append_of_infix_right
      apply List.IsInfix.trans _ (Context.infix_separated (List.mem_map_of_mem he))
      exact List.infix_append_right
    · apply List.infix_append_of_infix_right
      apply Context.infix_filters (List.mem_map_of_mem hc)

theorem Delete.infix_of_mem_parts {d : Delete} (h : p ∈ d.parts) :
  p.steps ctx <:+: d.steps ctx
  := by
  obtain ⟨table, filters⟩ := d
  obtain ⟨c, hc, rfl⟩ := List.mem_map.mp h
  rw [Delete.steps, Criterion.stepsEach_eq_map]
  apply List.infix_append_of_infix_right
  apply Context.infix_filters (List.mem_map_of_mem hc)

namespace Part

/-- The steps of what is rendered directly in a part stand among the steps of the part. -/
theorem infix_of_mem_parts {ctx : Context} {p : Part} {r : Context × Part}
    (h : r ∈ p.parts ctx) :
  r.2.steps r.1 <:+: p.steps ctx
  := by
  have within {rs : List Part} (h : r ∈ rs.map (ctx, ·)) :
      ∃ r' ∈ rs, r = (ctx, r') := by
    obtain ⟨r', hr, rfl⟩ := List.mem_map.mp h
    exact ⟨r', hr, rfl⟩
  cases p with
  | operand x =>
      obtain ⟨r, hr, rfl⟩ := within h
      exact Operand.infix_of_mem_parts hr
  | node n =>
      obtain ⟨r, hr, rfl⟩ := within h
      exact Node.infix_of_mem_parts hr
  | criterion c =>
      obtain ⟨r, hr, rfl⟩ := within h
      exact Criterion.infix_of_mem_parts hr
  | computed e =>
      obtain ⟨r, hr, rfl⟩ := within h
      exact Computed.infix_of_mem_parts hr
  | item f =>
      obtain ⟨r, hr, rfl⟩ := within h
      exact SelectItem.infix_of_mem_parts hr
  | source s =>
      obtain ⟨r, hr, rfl⟩ := within h
      exact Source.infix_of_mem_parts hr
  | join j =>
      obtain ⟨r, hr, rfl⟩ := within h
      exact Join.infix_of_mem_parts hr
  | order o =>
      obtain rfl := List.mem_singleton.mp h
      apply o.infix_steps
  | query role q =>
      cases role with
      | statement =>
          obtain ⟨r, hr, rfl⟩ := List.mem_map.mp h
          exact Query.infix_of_mem_parts hr
      | member =>
          rw [parts] at h
          rw [steps, Query.steps_member]
          split at h
          · rename_i hplain
            obtain ⟨r, hr, rfl⟩ := within h
            rw [if_pos hplain]
            exact Query.infix_of_mem_coreParts hr
          · rename_i hplain
            obtain rfl := List.mem_singleton.mp h
            rw [if_neg hplain]
            apply List.infix_append_of_infix_right Context.infix_enclosed
  | insert i =>
      obtain ⟨r, hr, rfl⟩ := within h
      exact Insert.infix_of_mem_parts hr
  | update u =>
      obtain ⟨r, hr, rfl⟩ := within h
      exact Update.infix_of_mem_parts hr
  | delete d =>
      obtain ⟨r, hr, rfl⟩ := within h
      exact Delete.infix_of_mem_parts hr

/-- The steps of whatever is rendered in a part stand, one after the other, among the steps of
the part. -/
theorem infix_of_renders {p r : Context × Part} (h : Renders p r) :
  r.2.steps r.1 <:+: p.2.steps p.1
  := by
  induction h with
  | refl => exact List.infix_rfl
  | tail _ hr ih => exact (infix_of_mem_parts hr).trans ih

end Part

end TypedSql.Sql
